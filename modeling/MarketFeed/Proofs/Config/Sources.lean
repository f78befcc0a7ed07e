import MarketFeed.Proofs.Config.Precedence

/-!
# A configuration from a file and from a text

A file that is named on its own gives the configuration of its text, or is refused as its text is,
as long as no variable holds a setting.

* `Files.TomlAt`: the files that a path may mean.
* `Config.load_eq_ofToml`: files and texts agree.
-/

namespace MarketFeed

/-! ## Files -/

/-- A path means a TOML file with some text: the file of that name, which says that it is TOML, or
else the file of the name with the ending for TOML. -/
def Files.TomlAt (files : Files) (path text : String) : Prop :=
  (files.get? (Config.normalPath path) = some text ∧
    Config.endingOf (Config.normalPath path) = some "toml") ∨
  (files.get? (Config.normalPath path) = none ∧ Config.normalPath path ≠ "" ∧
    files.get? (Config.normalPath path ++ ".toml") = some text)

namespace Config

theorem findFile_of_tomlAt {files : Files} {path text : String} (h : files.TomlAt path text) :
    findFile files path = some (text, .toml) := by
  unfold findFile
  rcases h with ⟨hfile, hending⟩ | ⟨hfile, hpath, htoml⟩
  · simp only [hfile, hending]
    rfl
  · have hempty : (normalPath path).isEmpty = false := by
      simpa [String.isEmpty_iff] using hpath
    have hall : Format.all = [.toml, .json] := rfl
    have hending : normalPath path ++ "." ++ Format.toml.ending = normalPath path ++ ".toml" := by
      rw [String.append_assoc]
      rfl
    simp only [hfile, hempty, hall, List.findSome?_cons, hending, htoml, Option.map_some]
    rfl

/-! ## Loading -/

theorem layer_eq_nil {env : Environment}
    (h : ∀ name ∈ env.keys, Environment.settingName? name = none) : env.layer = [] := by
  refine List.filterMap_eq_nil_iff.mpr fun e he => ?_
  simp [h e.1 (List.mem_map_of_mem he)]

/-- A layer without settings on top makes no difference. -/
theorem ofLayers_concat_nil (layers : List (Except ConfigError Layer)) :
    ofLayers (layers ++ [.ok []]) = ofLayers layers := by
  have hsettings : settingsOf (layers ++ [.ok []]) = settingsOf layers := by
    rw [settingsOf, settingsOf, ← List.cons_append, List.foldlM_append]
    cases (.ok defaults :: layers).foldlM addLayer (.table []) <;> rfl
  rw [ofLayers, hsettings, ofLayers]

theorem requiredLayer_of_tomlAt {files : Files} {path text : String} (h : files.TomlAt path text) :
    requiredLayer files path = layerOf (Toml.read text) := by
  rw [requiredLayer, optionalLayer, findFile_of_tomlAt h]
  rfl

/-- **Files and texts agree:** where no variable is a setting, a TOML file gives the configuration
of its text, or is refused as its text is. -/
theorem load_eq_ofToml {files : Files} {env : Environment} {path text : String}
    (hfile : files.TomlAt path text) (henvFile : files.get? ".env" = none)
    (henv : ∀ name ∈ env.keys, Environment.settingName? name = none) :
    load files env (some path) = ofToml text := by
  have hfull : fullEnvironment files env = env := by rw [fullEnvironment, henvFile]
  rw [load, hfull, layer_eq_nil henv, fileLayers, requiredLayer_of_tomlAt hfile]
  exact ofLayers_concat_nil _

/-- One file with a text. -/
def oneFile (text : String) : Files := ⟨[("feeder.toml", text)]⟩

theorem tomlAt_oneFile (text : String) : (oneFile text).TomlAt "./feeder.toml" text :=
  .inl ⟨rfl, by decide⟩

/-- A file that is loaded, and one that is refused, among variables that are no settings. -/
theorem load_eq_ofToml_oneFile :
    (load (oneFile pairText) ⟨[("RUST_LOG", "info")]⟩ (some "./feeder.toml") = ofToml pairText ∧
      (ofToml pairText).toOption.map Config.pairs = some [⟨"ATOM", "USDT", ["coinbase"]⟩]) ∧
    (load (oneFile "\ufeff\ufeff") ⟨[("RUST_LOG", "info")]⟩ (some "./feeder.toml") =
        ofToml "\ufeff\ufeff" ∧
      ofToml "\ufeff\ufeff" = .error .unreadable) :=
  ⟨⟨load_eq_ofToml (tomlAt_oneFile _) rfl (by decide), by decide +kernel⟩,
    load_eq_ofToml (tomlAt_oneFile _) rfl (by decide), rfl⟩

end Config

end MarketFeed
