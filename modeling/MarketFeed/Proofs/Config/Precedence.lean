import MarketFeed.Config.Load
import MarketFeed.Proofs.Settings.Layers

/-!
# Which layer a configuration is from

Each plain setting of a loaded configuration is from the highest layer that sets it, of the
environment, `config/local`, `config/default` and the defaults, whatever else this layer and the
others set. The pairs are from one layer as a whole, unless a name leads to an item of theirs, such
as `currency_pairs[0].base`: this changes a part of what a lower layer holds.

* `ConnectionSection.SpelledBy`, `Config.TakenFrom`: the values that make up a configuration.
* `Config.takenFrom_of_overlaid`: configurations of layers.
* `Config.load_precedence`: loaded configurations.
-/

namespace MarketFeed

/-! ## Values of a connection -/

/-- The values at some places make up the settings of connections; `holds` tells of the value at a
place below those settings. -/
structure ConnectionSection.SpelledBy (c : ConnectionSection)
    (holds : List (Nat × String) → (Setting → Prop) → Prop) : Prop where
  pingInterval : holds [(0, "ping_interval_secs")] fun v => v.count? = some c.pingInterval
  stallTimeout : holds [(1, "stall_timeout_secs")] fun v => v.count? = some c.stallTimeout
  mode : holds [(2, "reconnect"), (0, "mode")] fun v => v.text? = some c.reconnect.mode
  baseDelay : holds [(2, "reconnect"), (1, "base_delay_ms")] fun v =>
    v.count? = some c.reconnect.baseDelay
  maxDelay : holds [(2, "reconnect"), (2, "max_delay_ms")] fun v =>
    v.count? = some c.reconnect.maxDelay

/-- The settings of connections that a setting spells are made up of its values. -/
theorem ConnectionSection.spelledBy_value? {s : Setting} {c : ConnectionSection}
    (h : ofSetting? s = some c) : c.SpelledBy fun place P => ∃ v ∈ s.value? place, P v := by
  simp only [ofSetting?, ReconnectSection.ofSetting?, Option.bind_eq_bind, Option.bind_eq_some_iff,
    Option.some.injEq] at h
  obtain ⟨_, hping, _, hpingCount, _, hstall, _, hstallCount, reconnect, hreconnect, _,
    ⟨_, hmode, _, hmodeText, _, hbase, _, hbaseCount, _, hmax, _, hmaxCount, rfl⟩, rfl⟩ := h
  have hfield {α : Type} {read : Setting → Option α} {a : α} {s field : Setting} {index : Nat}
      {name : String} (hfield : s.member? index name = some field) (hread : read field = some a) :=
    Option.bind_eq_some_iff.mpr ⟨field, hfield, hread⟩
  have hbelow : ∀ place, s.value? ((2, "reconnect") :: place) = reconnect.value? place := by
    intro place
    rw [Setting.value?, hreconnect, Option.bind_some]
  refine ⟨?_, ?_, ?_, ?_, ?_⟩
  · exact Setting.exists_value?_field rfl (fun _ => rfl) (hfield hping hpingCount)
  · exact Setting.exists_value?_field rfl (fun _ => rfl) (hfield hstall hstallCount)
  · rw [hbelow]
    exact Setting.exists_value?_field rfl (fun _ => rfl) (hfield hmode hmodeText)
  · rw [hbelow]
    exact Setting.exists_value?_field rfl (fun _ => rfl) (hfield hbase hbaseCount)
  · rw [hbelow]
    exact Setting.exists_value?_field rfl (fun _ => rfl) (hfield hmax hmaxCount)

/-- What is told of values that are no lists may be told in another way. -/
theorem ConnectionSection.SpelledBy.imp {c : ConnectionSection}
    {holds holds' : List (Nat × String) → (Setting → Prop) → Prop} (h : c.SpelledBy holds)
    (himp : ∀ place P, (∀ items, ¬ P (.list items)) → holds place P → holds' place P) :
    c.SpelledBy holds' :=
  ⟨himp _ _ (fun _ => nofun) h.pingInterval, himp _ _ (fun _ => nofun) h.stallTimeout,
    himp _ _ (fun _ => nofun) h.mode, himp _ _ (fun _ => nofun) h.baseDelay,
    himp _ _ (fun _ => nofun) h.maxDelay⟩

namespace Config

/-! ## Values of a configuration -/

/-- Each setting of a configuration is from the highest of some layers that has it; the lowest layer
comes first. Nothing is said about pairs where names lead to single ones, and about settings of
connections where these are lists and names count their items from the end. -/
structure TakenFrom (layers : List Layer) (c : Config) : Prop where
  candlePeriod : ∃ v ∈ Setting.topmost? layers [(3, "candle_period_secs")],
    v.count? = some c.candlePeriod
  priceLogInterval : ∃ v ∈ Setting.topmost? layers [(4, "price_log_interval_secs")],
    v.count? = some c.priceLogInterval
  connection : c.connection.SpelledBy fun place P =>
    Setting.Unindexed (· < 0) layers ((2, "connection") :: place) →
      ∃ v ∈ Setting.topmost? layers ((2, "connection") :: place), P v
  pairs : Setting.Unindexed (fun _ => True) layers [(0, "currency_pairs")] →
    ∃ v ∈ Setting.topmost? layers [(0, "currency_pairs")],
      v.listOf? PairSection.ofSetting? = some c.pairs

/-- What the settings of a configuration are read from. -/
theorem fields_of_ofSetting? {s : Setting} {c : Config} (h : ofSetting? s = some c) :
    (s.member? 0 "currency_pairs").bind (Setting.listOf? PairSection.ofSetting?) = some c.pairs ∧
      (s.member? 2 "connection").bind ConnectionSection.ofSetting? = some c.connection ∧
        (s.member? 3 "candle_period_secs").bind Setting.count? = some c.candlePeriod ∧
          (s.member? 4 "price_log_interval_secs").bind Setting.count? =
            some c.priceLogInterval := by
  simp only [ofSetting?, Option.bind_eq_bind, Option.bind_eq_some_iff] at h
  obtain ⟨_, hpairs, _, hpairsRead, h⟩ := h
  -- there may be endpoints or none
  split at h
  all_goals
    simp only [Option.bind_eq_some_iff, Option.some.injEq] at h
    obtain ⟨_, -, _, hconnection, _, hconnectionRead, _, hperiod, _, hperiodCount, _, hinterval, _,
      hintervalCount, rfl⟩ := h
    simp only [hpairs, hpairsRead, hconnection, hconnectionRead, hperiod, hperiodCount, hinterval,
      hintervalCount, Option.bind_some, and_self]

theorem addLayer_eq_ok {root s : Setting} {source : Except ConfigError Layer}
    (h : addLayer root source = .ok s) :
    ∃ layer, source = .ok layer ∧ root.overlay layer = s := by
  obtain ⟨layer, hlayer, h⟩ := bind_eq_ok.mp h
  refine ⟨layer, hlayer, ?_⟩
  split at h
  · rename_i hover
    rw [Setting.overlay_of_overlay? hover, Except.ok.inj h]
  · cases h

/-- Where sources can be put on top of settings, all of them are layers, and these are overlaid one
after the other. -/
theorem exists_layers_of_foldlM {sources : List (Except ConfigError Layer)} {root s : Setting}
    (h : sources.foldlM addLayer root = .ok s) :
    ∃ layers : List Layer, layers.map .ok = sources ∧ layers.foldl Setting.overlay root = s := by
  induction sources generalizing root with
  | nil => exact ⟨[], rfl, Except.ok.inj h⟩
  | cons source sources ih =>
    rw [List.foldlM_cons] at h
    obtain ⟨next, hnext, hrest⟩ := bind_eq_ok.mp h
    obtain ⟨layer, rfl, rfl⟩ := addLayer_eq_ok hnext
    obtain ⟨layers, rfl, hlayers⟩ := ih hrest
    exact ⟨layer :: layers, rfl, hlayers⟩

/-- The settings of layers on top of the defaults, wherever their names lead. -/
def overlaid (layers : List Layer) : Setting :=
  (defaults :: layers).foldl Setting.overlay (.table [])

/-- A configuration is spelled by layers on top of the defaults. -/
theorem exists_layers_of_ofLayers {sources : List (Except ConfigError Layer)} {c : Config}
    (h : ofLayers sources = .ok c) :
    ∃ layers : List Layer, layers.map .ok = sources ∧ ofSetting? (overlaid layers) = some c := by
  obtain ⟨s, hs, h⟩ := bind_eq_ok.mp h
  rw [settingsOf, List.foldlM_cons] at hs
  obtain ⟨next, hnext, hrest⟩ := bind_eq_ok.mp hs
  obtain ⟨layer, hlayer, rfl⟩ := addLayer_eq_ok hnext
  obtain rfl := Except.ok.inj hlayer
  obtain ⟨layers, hlayers, rfl⟩ := exists_layers_of_foldlM hrest
  refine ⟨layers, hlayers, ?_⟩
  rw [overlaid, List.foldl_cons]
  split at h
  · cases h
  · rename_i c' hc
    obtain ⟨_, -, h⟩ := bind_eq_ok.mp h
    rw [hc, Except.ok.inj h]

/-- The settings of a configuration are from its layers and the defaults. -/
theorem takenFrom_of_overlaid {layers : List Layer} {c : Config}
    (h : ofSetting? (overlaid layers) = some c) : TakenFrom (defaults :: layers) c := by
  obtain ⟨hpairs, hconnection, hperiod, hinterval⟩ := fields_of_ofSetting? h
  have hscalar : ∀ {index : Nat} {top : String} {n : UInt64},
      ((overlaid layers).member? index top).bind Setting.count? = some n →
        ∃ v ∈ Setting.topmost? (defaults :: layers) [(index, top)], v.count? = some n := by
    intro index top n hfield
    obtain ⟨v, hv, hn⟩ := Setting.exists_value?_field rfl (fun _ => rfl) hfield
    have hne : ∀ items, v ≠ .list items := by
      rintro items rfl
      cases hn
    exact ⟨v, Setting.topmost?_of_value? (.inr ⟨hne, .inl rfl⟩) hv, hn⟩
  refine ⟨hscalar hperiod, hscalar hinterval, ?_, fun hitems => ?_⟩
  · obtain ⟨connection, hfield, hread⟩ := Option.bind_eq_some_iff.mp hconnection
    refine (ConnectionSection.spelledBy_value? hread).imp fun place P hlist ⟨v, hv, hP⟩ hitems => ?_
    have hvalue : (overlaid layers).value? ((2, "connection") :: place) = some v :=
      Option.bind_eq_some_iff.mpr ⟨connection, hfield, hv⟩
    have hne : ∀ items, v ≠ .list items := fun items heq => hlist items (heq ▸ hP)
    exact ⟨v, Setting.topmost?_of_value? (.inr ⟨hne, .inr hitems⟩) hvalue, hP⟩
  · obtain ⟨v, hv, hread⟩ := Setting.exists_value?_field rfl (fun _ => rfl) hpairs
    exact ⟨v, Setting.topmost?_of_value? (.inl hitems) hv, hread⟩

/-! ## Loaded configurations -/

theorem findFile_congr {files files' : Files} {path : String}
    (h : ∀ place ∈ placesOf path, files'.get? place = files.get? place) :
    findFile files' path = findFile files path := by
  obtain ⟨hpath, hendings⟩ := List.forall_mem_cons.mp h
  have hending : ∀ f : Format, files'.get? (normalPath path ++ "." ++ f.ending) =
      files.get? (normalPath path ++ "." ++ f.ending) := fun f =>
    hendings _ (List.mem_map.mpr ⟨f, by cases f <;> decide, rfl⟩)
  simp only [findFile, hpath, hending]

/-- Files in other places than those of a path make no difference to it. -/
theorem load_congr {files files' : Files} {path : String} (env : Environment)
    (h : ∀ place ∈ searched (some path), files'.get? place = files.get? place) :
    load files' env (some path) = load files env (some path) := by
  obtain ⟨hvariables, hplaces⟩ := List.forall_mem_cons.mp h
  simp only [load, fileLayers, requiredLayer, optionalLayer, fullEnvironment,
    findFile_congr hplaces, hvariables]

/-- **The highest layer counts:** each setting of a loaded configuration is from the highest of the
environment, `config/local`, `config/default` and the defaults that has it, and so are the pairs as
a whole. With a path, the file it means takes the place of the two files, and no other file
matters but `.env`. -/
theorem load_precedence (files : Files) (env : Environment) :
    (∀ c, load files env none = .ok c → ∃ lower upper,
      optionalLayer files "config/default" = .ok lower ∧
        optionalLayer files "config/local" = .ok upper ∧
          TakenFrom [defaults, lower, upper, (fullEnvironment files env).layer] c) ∧
      ∀ path, (∀ c, load files env (some path) = .ok c → ∃ layer,
        requiredLayer files path = .ok layer ∧
          TakenFrom [defaults, layer, (fullEnvironment files env).layer] c) ∧
        ∀ files' : Files, (∀ place ∈ searched (some path), files'.get? place = files.get? place) →
          load files' env (some path) = load files env (some path) := by
  refine ⟨fun c h => ?_, fun path => ⟨fun c h => ?_, fun files' => load_congr env⟩⟩
  · obtain ⟨layers, hlayers, hspelled⟩ := exists_layers_of_ofLayers h
    obtain ⟨lower, _, rfl, hlower, hlayers⟩ := List.map_eq_cons_iff.mp hlayers
    obtain ⟨upper, _, rfl, hupper, hlayers⟩ := List.map_eq_cons_iff.mp hlayers
    obtain ⟨_, rfl, henv⟩ := List.map_eq_singleton_iff.mp hlayers
    obtain rfl := Except.ok.inj henv
    exact ⟨lower, upper, hlower.symm, hupper.symm, takenFrom_of_overlaid hspelled⟩
  · obtain ⟨layers, hlayers, hspelled⟩ := exists_layers_of_ofLayers h
    obtain ⟨layer, _, rfl, hlayer, hlayers⟩ := List.map_eq_cons_iff.mp hlayers
    obtain ⟨_, rfl, henv⟩ := List.map_eq_singleton_iff.mp hlayers
    obtain rfl := Except.ok.inj henv
    exact ⟨layer, hlayer.symm, takenFrom_of_overlaid hspelled⟩

/-- The text of a file with one pair. -/
def pairText : String :=
  "[[currency_pairs]]\nbase = \"ATOM\"\nquote = \"USDT\"\nproviders = [\"coinbase\"]\n"

/-- A file with a pair and some settings of connections, and one with others. -/
def layeredFiles : Files :=
  ⟨[("config/default.toml",
      pairText ++ "[connection]\nping_interval_secs = 5\nstall_timeout_secs = 7"),
    ("config/local.toml", "[connection]\nstall_timeout_secs = 9\nreconnect.mode = \"fixed\"")]⟩

/-- A variable with another setting of connections. -/
def layeredEnvironment : Environment :=
  ⟨[("PRICE_FEEDER__CONNECTION__RECONNECT__BASE_DELAY_MS", "7")]⟩

/-- The configuration of one pair with some settings of connections. -/
def atomConfig (connection : ConnectionSection) : Config :=
  ⟨[⟨"ATOM", "USDT", ["coinbase"]⟩], [], connection, 900, 30⟩

theorem load_layeredFiles : (load layeredFiles layeredEnvironment none).toOption =
    some (atomConfig ⟨5, 9, ⟨"fixed", 7, 60000⟩⟩) := by decide +kernel

theorem load_layeredFiles_path :
    (load layeredFiles layeredEnvironment (some "config/default")).toOption =
      some (atomConfig ⟨5, 7, ⟨"backoff", 7, 60000⟩⟩) := by decide +kernel

/-- No name of a layer leads to a pair or to a setting of connections by an index. -/
def IsPlain (layer : Layer) : Prop :=
  ∀ top ∈ ["connection", "currency_pairs"], ∀ e ∈ layer,
    ¬ Setting.LeadsToItem (fun _ => True) top e.1

instance (layer : Layer) : Decidable (IsPlain layer) :=
  inferInstanceAs (Decidable (∀ top ∈ _, ∀ e ∈ _, _))

theorem isPlain_ends :
    IsPlain defaults ∧ IsPlain (fullEnvironment layeredFiles layeredEnvironment).layer := by
  decide +kernel

theorem isPlain_files : ∀ path ∈ ["config/default", "config/local"],
    (optionalLayer layeredFiles path).toOption.map (fun layer => decide (IsPlain layer)) =
      some true := by
  decide +kernel

/-- Each of the layers sets some settings of connections, without indices, and with a path the
second file does not matter. -/
theorem load_precedence_connections :
    (∃ lower upper : Layer,
      let layers :=
        [defaults, lower, upper, (fullEnvironment layeredFiles layeredEnvironment).layer]
      (∀ place, Setting.Unindexed (· < 0) layers ((2, "connection") :: place)) ∧
        Setting.Unindexed (fun _ => True) layers [(0, "currency_pairs")] ∧
          TakenFrom layers (atomConfig ⟨5, 9, ⟨"fixed", 7, 60000⟩⟩)) ∧
    (∃ layer : Layer,
      TakenFrom [defaults, layer, (fullEnvironment layeredFiles layeredEnvironment).layer]
        (atomConfig ⟨5, 7, ⟨"backoff", 7, 60000⟩⟩)) ∧
    load ⟨layeredFiles.entries.take 1⟩ layeredEnvironment (some "config/default") =
      load layeredFiles layeredEnvironment (some "config/default") := by
  have hfile : ∀ {path : String} {layer : Layer}, path ∈ ["config/default", "config/local"] →
      optionalLayer layeredFiles path = .ok layer → IsPlain layer := by
    intro path layer hpath hlayer
    have hdecided := isPlain_files path hpath
    rw [hlayer] at hdecided
    exact of_decide_eq_true (Option.some.inj hdecided)
  obtain ⟨hnone, hsome⟩ := load_precedence layeredFiles layeredEnvironment
  obtain ⟨lower, upper, hlower, hupper, htaken⟩ := hnone _ (toOption_eq_some.mp load_layeredFiles)
  obtain ⟨hpath, hcongr⟩ := hsome "config/default"
  obtain ⟨layer, -, htakenPath⟩ := hpath _ (toOption_eq_some.mp load_layeredFiles_path)
  have hplain : ∀ source ∈
      [defaults, lower, upper, (fullEnvironment layeredFiles layeredEnvironment).layer],
      IsPlain source := by
    simp only [List.forall_mem_cons]
    exact ⟨isPlain_ends.1, hfile (by decide) hlower, hfile (by decide) hupper, isPlain_ends.2,
      List.forall_mem_nil _⟩
  refine ⟨⟨lower, upper, fun place => ?_, ?_, htaken⟩, ⟨layer, htakenPath⟩,
    hcongr ⟨layeredFiles.entries.take 1⟩ (by decide +kernel)⟩
  · exact .of_forall fun source hsource e he hlead =>
      hplain source hsource "connection" (by decide) e he (hlead.imp fun _ _ => trivial)
  · exact .of_forall fun source hsource => hplain source hsource "currency_pairs" (by decide)

/-- The pairs that a layer holds as a whole. -/
def heldPairs (layer : Layer) : Option (List PairSection) :=
  (Setting.topmost? [layer] [(0, "currency_pairs")]).bind (Setting.listOf? PairSection.ofSetting?)

/-- A file with one pair. -/
def pairFiles : Files := ⟨[("config/local.toml", pairText)]⟩

/-- A variable that leads to the base of a pair. -/
def baseEnvironment : Environment := ⟨[("PRICE_FEEDER__CURRENCY_PAIRS[0]__BASE", "BTC")]⟩

theorem load_pairFiles : (load pairFiles baseEnvironment none).toOption.map Config.pairs =
    some [⟨"BTC", "USDT", ["coinbase"]⟩] := by decide +kernel

theorem heldPairs_pairFiles : (optionalLayer pairFiles "config/local").toOption.map heldPairs =
    some (some [⟨"ATOM", "USDT", ["coinbase"]⟩]) := by decide +kernel

/-- A variable may change the base of a pair of the file below it; the pairs are then not those of
any layer. -/
theorem not_all_pairs_from_one_layer :
    ¬ ∀ (files : Files) (env : Environment) (c : Config) (lower upper : Layer),
      load files env none = .ok c → optionalLayer files "config/default" = .ok lower →
      optionalLayer files "config/local" = .ok upper →
      ∃ layer ∈ [defaults, lower, upper, (fullEnvironment files env).layer],
        heldPairs layer = some c.pairs := by
  intro hall
  obtain ⟨c, hload, hpairs⟩ := Option.map_eq_some_iff.mp load_pairFiles
  obtain ⟨upper, hupper, hheld⟩ := Option.map_eq_some_iff.mp heldPairs_pairFiles
  have hdefaults : heldPairs defaults = none := by decide +kernel
  have henvironment : heldPairs (fullEnvironment pairFiles baseEnvironment).layer = none := by
    decide +kernel
  have hmiss : ∀ layer ∈ [defaults, [], upper, (fullEnvironment pairFiles baseEnvironment).layer],
      heldPairs layer ≠ some [⟨"BTC", "USDT", ["coinbase"]⟩] := by
    simp only [List.forall_mem_cons, hdefaults, hheld, henvironment]
    exact ⟨nofun, nofun, by decide, nofun, nofun⟩
  obtain ⟨layer, hlayer, heq⟩ := hall pairFiles baseEnvironment c [] upper
    (toOption_eq_some.mp hload) rfl (toOption_eq_some.mp hupper)
  exact hmiss layer hlayer (heq.trans (congrArg some hpairs))

end Config

end MarketFeed
