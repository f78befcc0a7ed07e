import Mathlib.Data.List.Induction
import Mathlib.Tactic.SplitIfs
import MarketFeed.Settings.Overlay

/-!
# Which layer a setting is from

A source on top of others is told by what it sets on its own: where it sets a value there is this
value, where it sets nothing there is what was there before, and tables hold both. So a value at the
end of names is from the highest source that has one there, whatever else the sources set.

Neither `null` nor a table is a value, and a table without entries sets nothing, not even where
there was no table before. A name that leads to an item of a list changes the list in place: the
other items stay, and the list is from no source as a whole. If the index counts from the end, then
it depends on the sources below which item this is.

* `Setting.Over`: what a source makes of what was there.
* `Setting.over_overlay`: sources on top of settings.
* `Setting.value?`, `Setting.topmost?`: the value at a place, and the highest one of some sources.
* `Setting.topmost?_of_value?`: values of layered settings are the highest ones.
-/

namespace MarketFeed

/-- A step leads to an item of a list, by an index of some kind. -/
def SettingStep.HasIndex (kind : Int → Prop) : SettingStep → Prop
  | .item index => kind index
  | .member _ => False

instance (kind : Int → Prop) [DecidablePred kind] : DecidablePred (SettingStep.HasIndex kind)
  | .item index => inferInstanceAs (Decidable (kind index))
  | .member _ => inferInstanceAs (Decidable False)

namespace Setting

/-- The name at the top of a source that a name of it leads below. -/
def topName (name : String) : String :=
  loweredName ((SettingPath.ofText? name).elim name SettingPath.name)

/-- A name leads to an item of a list below some name at the top, by an index of some kind. -/
def LeadsToItem (kind : Int → Prop) (top name : String) : Prop :=
  ∃ path ∈ SettingPath.ofText? name, loweredName path.name = top ∧
    ∃ step ∈ path.steps, step.HasIndex kind

instance (kind : Int → Prop) [DecidablePred kind] (top name : String) :
    Decidable (LeadsToItem kind top name) :=
  inferInstanceAs (Decidable (∃ path ∈ _, _))

theorem LeadsToItem.imp {kind kind' : Int → Prop} {top name : String}
    (h : LeadsToItem kind top name) (himp : ∀ index, kind index → kind' index) :
    LeadsToItem kind' top name := by
  obtain ⟨path, hpath, htop, step, hstep, hindex⟩ := h
  refine ⟨path, hpath, htop, step, hstep, ?_⟩
  cases step with
  | member name => exact hindex
  | item index => exact himp index hindex

/-! ## Parts of settings -/

/-- The entries of a setting that may be there. -/
def entriesOf (s : Option Setting) : List (String × Setting) := s.elim [] entries

/-- What a setting that may be there has under a name. -/
def child? (s : Option Setting) (name : String) : Option Setting := (entriesOf s).lookup name

/-- The item of a setting that may be there. -/
def item? (s : Option Setting) (i : Nat) : Option Setting := (s.elim [] items)[i]?

theorem entries_getD_null (s : Option Setting) : (s.getD .null).entries = entriesOf s := by
  cases s <;> rfl

theorem getElem?_items_getD_null (s : Option Setting) (i : Nat) :
    (s.getD .null).items[i]? = item? s i := by
  cases s <;> rfl

/-- What a value becomes on top of a setting. -/
def putOver (s : Option Setting) : Setting → Setting
  | .table incoming => (s.getD (.table [])).putAll incoming
  | value => value

theorem put_eq (root : Setting) (name : String) (value : Setting) :
    root.put name value = .table (Table.putEntry (loweredName name)
      (putOver (child? (some root) (loweredName name)) value) root.entries) := by
  cases value <;> simp only [put, putOver, child?, entriesOf, Option.elim_some]

theorem getElem?_padded (xs : List Setting) (n i : Nat) :
    (xs ++ List.replicate (n + 1 - xs.length) .null)[i]? =
      if i ≤ n then some (xs[i]?.getD .null) else xs[i]? := by
  by_cases hlt : i < xs.length
  · rw [List.getElem?_append_left hlt, List.getElem?_eq_getElem hlt]
    split <;> rfl
  · have hnone : xs[i]? = none := List.getElem?_eq_none (by omega)
    rw [List.getElem?_append_right (by omega), List.getElem?_replicate, hnone]
    split_ifs <;> first | rfl | omega

/-- The items of a list of which one is changed; there are items of `null` up to it. -/
theorem getElem?_modifyItem {index : Int} (hindex : 0 ≤ index) (change : Setting → Setting)
    (s : Setting) :
    ∃ changed, s.modifyItem index change = .list changed ∧ ∀ i,
      changed[i]? =
        if i = index.toNat then some (change (s.items[i]?.getD .null))
        else if i < index.toNat then some (s.items[i]?.getD .null) else s.items[i]? := by
  refine ⟨_, rfl, fun i => ?_⟩
  rw [placeOf, if_pos hindex, List.getElem?_modify, getElem?_padded]
  rcases Nat.lt_trichotomy i index.toNat with hlt | rfl | hlt
  · rw [if_pos (Nat.le_of_lt hlt), if_neg (Nat.ne_of_lt hlt), if_pos hlt]
    simp [Nat.ne_of_gt hlt]
  · simp
  · rw [if_neg (Nat.not_le_of_lt hlt), if_neg (Nat.ne_of_gt hlt), if_neg (Nat.lt_asymm hlt)]
    simp [Nat.ne_of_lt hlt]

/-! ## One source on top of others -/

/-- There is nothing that holds a value. -/
inductive Void : Option Setting → Prop where
  | none : Void none
  | null : Void (some .null)
  | empty : Void (some (.table []))

/-- What a source makes of a setting: `base` was there, `own` is what the source sets on its own,
and the last one is what there is with the source on top. The source may use some indices of
items. -/
inductive Over (uses : Int → Prop) : Option Setting → Option Setting → Option Setting → Prop where
  | kept {base own : Option Setting} (h : Void own) : Over uses base own base
  /-- Something took the place of all that was around what was there. -/
  | void {base own s : Option Setting} (hown : Void own) (hs : Void s) : Over uses base own s
  | same {base : Option Setting} (own : Setting) : Over uses base (some own) (some own)
  | table {base : Option Setting} {own entries : List (String × Setting)}
      (h : ∀ name, Over uses (child? base name) (own.lookup name) (entries.lookup name)) :
      Over uses base (some (.table own)) (some (.table entries))
  | list {base : Option Setting} {own items : List Setting} {index : Int} (huses : uses index)
      (h : ∀ i, Over uses (item? base i) own[i]? items[i]?) :
      Over uses base (some (.list own)) (some (.list items))
  /-- An item that is counted from the end may be another one on top of others. -/
  | counted {base : Option Setting} {index : Int} (huses : uses index) (h : index < 0)
      (own items : List Setting) : Over uses base (some (.list own)) (some (.list items))

/-- A change that sources make in the same way on their own and on top of others. -/
def Stable (uses : Int → Prop) (change : Option Setting → Setting) : Prop :=
  ∀ ⦃base own s : Option Setting⦄, Over uses base own s →
    Over uses base (some (change own)) (some (change s))

section Void

variable {s : Option Setting}

theorem Void.child (h : Void s) (name : String) : child? s name = Option.none := by
  cases h <;> rfl

theorem Void.item (h : Void s) (i : Nat) : item? s i = Option.none := by
  cases h <;> rfl

theorem Void.getD (h : Void s) {d : Setting} (hd : Void (some d)) : Void (some (s.getD d)) := by
  cases h with
  | none => exact hd
  | null => exact .null
  | empty => exact .empty

end Void

section Over

variable {uses : Int → Prop} {base own s : Option Setting}

theorem Over.refl (base s : Option Setting) : Over uses base s s := by
  cases s with
  | none => exact .void .none .none
  | some s => exact .same s

theorem Over.child (h : Over uses base own s) (name : String) :
    Over uses (child? base name) (child? own name) (child? s name) := by
  cases h with
  | kept h =>
    rw [h.child]
    exact .kept .none
  | void hown hs =>
    rw [hown.child, hs.child]
    exact .void .none .none
  | same own => exact .refl _ _
  | table h => exact h name
  | list huses h => exact .void .none .none
  | counted huses h own items => exact .void .none .none

theorem Over.item (h : Over uses base own s) (huses : ∀ index, uses index → 0 ≤ index) (i : Nat) :
    Over uses (item? base i) (item? own i) (item? s i) := by
  cases h with
  | kept h =>
    rw [h.item]
    exact .kept .none
  | void hown hs =>
    rw [hown.item, hs.item]
    exact .void .none .none
  | same own => exact .refl _ _
  | table h => exact .void .none .none
  | list _ h => exact h i
  | counted hindex hneg => exact absurd (huses _ hindex) (Int.not_le.mpr hneg)

/-- Where nothing was there, something void may stand. -/
theorem Over.getD (h : Over uses base own s) {d : Setting} (hd : Void (some d)) :
    Over uses base (some (own.getD d)) (some (s.getD d)) := by
  cases h with
  | kept h =>
    cases base with
    | none => exact .void (h.getD hd) hd
    | some s => exact .kept (h.getD hd)
  | void hown hs => exact .void (hown.getD hd) (hs.getD hd)
  | same own => exact .same own
  | table h => exact .table h
  | list huses h => exact .list huses h
  | counted huses h own items => exact .counted huses h own items

/-- Changing what is under a name. -/
theorem Stable.member {change : Option Setting → Setting} (hchange : Stable uses change)
    (name : String) :
    Stable uses fun s => .table (Table.putEntry name (change (child? s name)) (entriesOf s)) := by
  intro base own s h
  refine .table fun other => ?_
  rw [Table.lookup_putEntry, Table.lookup_putEntry]
  split_ifs with hother
  · rw [hother]
    exact hchange (h.child name)
  · exact h.child other

/-- Changing an item of a list. -/
theorem Stable.item {change : Setting → Setting}
    (hchange : Stable uses fun s => change (s.getD .null)) {index : Int} (huses : uses index) :
    Stable uses fun s => (s.getD .null).modifyItem index change := by
  intro base own s h
  by_cases hall : ∀ index, uses index → 0 ≤ index
  · have hitem := h.item hall
    obtain ⟨changed, hchanged, hget⟩ := getElem?_modifyItem (hall _ huses) change (own.getD .null)
    obtain ⟨changed', hchanged', hget'⟩ := getElem?_modifyItem (hall _ huses) change (s.getD .null)
    simp only [hchanged, hchanged']
    refine .list huses fun i => ?_
    simp only [hget, hget', getElem?_items_getD_null]
    split_ifs
    · exact hchange (hitem i)
    · exact (hitem i).getD .null
    · exact hitem i
  · obtain ⟨index, hindex⟩ := not_forall.mp hall
    obtain ⟨hused, hneg⟩ := Classical.not_imp.mp hindex
    exact .counted hused (Int.not_le.mp hneg) _ _

mutual

/-- Values are put on top of what is there, tables entry by entry. -/
theorem stable_putOver (uses : Int → Prop) : (value : Setting) → Stable uses (putOver · value)
  | .table incoming => fun _ _ _ h => (h.getD .empty).putAll incoming
  | .null => fun _ _ _ _ => .same _
  | .bool _ => fun _ _ _ _ => .same _
  | .int _ => fun _ _ _ _ => .same _
  | .float _ => fun _ _ _ _ => .same _
  | .text _ => fun _ _ _ _ => .same _
  | .list _ => fun _ _ _ _ => .same _

theorem Over.putAll {uses : Int → Prop} {base : Option Setting} {own s : Setting}
    (h : Over uses base (some own) (some s)) :
    (incoming : List (String × Setting)) →
      Over uses base (some (own.putAll incoming)) (some (s.putAll incoming))
  | [] => h
  | (name, value) :: rest => by
    have hput := (stable_putOver uses value).member (loweredName name) h
    simp only [putAll, put_eq]
    exact Over.putAll hput rest

end

/-- Changing what is at the end of some steps, which may make tables and lists on the way. -/
theorem Stable.modifyAt {change : Setting → Setting}
    (hchange : Stable uses fun s => change (s.getD .null)) {steps : List SettingStep}
    (hitems : ∀ index, .item index ∈ steps → uses index) :
    Stable uses fun s => modifyAt change steps (s.getD .null) := by
  induction steps with
  | nil => exact hchange
  | cons step steps ih =>
    have hsteps := ih fun index hindex => hitems index (List.mem_cons_of_mem _ hindex)
    cases step with
    | member name =>
      simp only [Setting.modifyAt, entries_getD_null]
      exact hsteps.member (loweredName name)
    | item index => exact hsteps.item (hitems index List.mem_cons_self)

/-- Setting what one step leads to. -/
theorem stable_putStep (value : Setting) {step : SettingStep}
    (hitem : ∀ index, step = .item index → uses index) :
    Stable uses fun s => putStep value step (s.getD .null) := by
  cases step with
  | member name =>
    simp only [putStep, put_eq, entries_getD_null, child?, entriesOf, Option.elim_some]
    exact (stable_putOver uses value).member (loweredName name)
  | item index => exact Stable.item (fun _ _ _ _ => .same value) (hitem index rfl)

/-- A name of a source changes what is under its top name. -/
theorem exists_stable (uses : Int → Prop) (name : String) (value : Setting)
    (hitem : ∀ index, LeadsToItem (· = index) (topName name) name → uses index) :
    ∃ change, Stable uses change ∧ ∀ root : Setting,
      root.setNamed name value = .table (Table.putEntry (topName name)
        (change (child? (some root) (topName name))) root.entries) := by
  cases hpath : SettingPath.ofText? name with
  | none =>
    refine ⟨_, stable_putOver uses value, fun root => ?_⟩
    simp only [setNamed, topName, hpath, put_eq, Option.elim_none]
  | some path =>
    have htop : topName name = loweredName path.name := by simp [topName, hpath]
    rw [htop] at hitem ⊢
    have hitems : ∀ index, .item index ∈ path.steps → uses index := fun index hindex =>
      hitem index ⟨path, hpath, rfl, _, hindex, rfl⟩
    cases hlast : path.steps.getLast? with
    | none =>
      refine ⟨_, stable_putOver uses value, fun root => ?_⟩
      simp only [setNamed, hpath, set, hlast, put_eq]
    | some last =>
      have hstep : ∀ index, last = .item index → uses index := fun index hindex =>
        hitems index (hindex ▸ List.mem_of_getLast? hlast)
      have hsteps : ∀ index, .item index ∈ path.steps.dropLast → uses index := fun index hindex =>
        hitems index (List.dropLast_subset _ hindex)
      refine ⟨_, (stable_putStep value hstep).modifyAt hsteps, fun root => ?_⟩
      simp only [setNamed, hpath, set, hlast, Setting.modifyAt]
      rfl

theorem exists_setNamed (root : Setting) (name : String) (value : Setting) :
    ∃ es, root.setNamed name value = .table es := by
  obtain ⟨change, -, hset⟩ := exists_stable (fun _ => True) name value fun _ _ => trivial
  exact ⟨_, hset root⟩

/-- One name of a source keeps what the source makes of the settings below a top name. -/
theorem Over.setNamed {own s : Setting} {top name : String}
    (h : Over uses base (child? (some own) top) (child? (some s) top)) (value : Setting)
    (hitem : ∀ index, LeadsToItem (· = index) top name → uses index) :
    Over uses base (child? (some (own.setNamed name value)) top)
      (child? (some (s.setNamed name value)) top) := by
  by_cases htop : top = topName name
  · subst htop
    obtain ⟨change, hstable, hset⟩ := exists_stable uses name value hitem
    simp only [hset, child?, entriesOf, Option.elim_some, entries, Table.lookup_putEntry,
      ↓reduceIte]
    exact hstable h
  · obtain ⟨change, -, hset⟩ := exists_stable (fun _ => True) name value fun _ _ => trivial
    simp only [hset, child?, entriesOf, Option.elim_some, entries, Table.lookup_putEntry, htop,
      ↓reduceIte]
    exact h

theorem Over.overlay {top : String} {source : List (String × Setting)}
    (hitems : ∀ e ∈ source, ∀ index, LeadsToItem (· = index) top e.1 → uses index)
    {own s : Setting} (h : Over uses base (child? (some own) top) (child? (some s) top)) :
    Over uses base (child? (some (own.overlay source)) top)
      (child? (some (s.overlay source)) top) := by
  induction source generalizing own s with
  | nil => exact h
  | cons e source ih =>
    obtain ⟨he, hsource⟩ := List.forall_mem_cons.mp hitems
    exact ih hsource (h.setNamed e.2 he)

end Over

/-- The indices of items that the names of a source lead to below a top name. -/
def IndexUsed (source : List (String × Setting)) (top : String) (index : Int) : Prop :=
  ∃ e ∈ source, LeadsToItem (· = index) top e.1

/-- **A source on top of settings** makes of what is there under a top name what it sets on its
own, or what was there before. -/
theorem over_overlay (root : Setting) (source : List (String × Setting)) (top : String) :
    Over (IndexUsed source top) (child? (some root) top)
      (child? (some ((Setting.table []).overlay source)) top)
      (child? (some (root.overlay source)) top) :=
  .overlay (fun e he _ hindex => ⟨e, he, hindex⟩) (.kept .none)

/-! ## Values at places -/

/-- The value at the end of a way through records, which have their fields under names or by their
positions. Neither `null` nor a table is a value. -/
def value? : List (Nat × String) → Setting → Option Setting
  | [], .null => none
  | [], .table _ => none
  | [], s => some s
  | (index, name) :: rest, s => (s.member? index name).bind (value? rest)

section Value

variable {place : List (Nat × String)} {v : Setting}

theorem Void.value {s : Option Setting} (h : Void s) : s.bind (value? place) = Option.none := by
  cases h <;> cases place <;> rfl

theorem value?_table (entries : List (String × Setting)) (index : Nat) (name : String) :
    (Setting.table entries).value? ((index, name) :: place) =
      (child? (some (.table entries)) name).bind (value? place) := rfl

/-- A field that can be read is a value, if neither `null` nor tables can be read. -/
theorem exists_value?_field {α : Type} {read : Setting → Option α} {a : α} {s : Setting}
    {index : Nat} {name : String} (hnull : read .null = none)
    (htable : ∀ entries, read (.table entries) = none)
    (h : (s.member? index name).bind read = some a) :
    ∃ v ∈ s.value? [(index, name)], read v = some a := by
  obtain ⟨field, hfield, hread⟩ := Option.bind_eq_some_iff.mp h
  refine ⟨field, ?_, hread⟩
  rw [value?, hfield]
  cases field with
  | null => rw [hnull] at hread; cases hread
  | table entries => rw [htable] at hread; cases hread
  | _ => rfl

/-- What a setting has under a name is its field of that name, at any position. -/
theorem value?_of_child {s : Option Setting} {name : String} (index : Nat)
    (h : (child? s name).bind (value? place) = some v) :
    s.bind (value? ((index, name) :: place)) = some v := by
  match s, h with
  | some (.table entries), h => exact h

/-- What a setting has as an item is its field at that position, under any name. -/
theorem value?_of_item {s : Option Setting} {index : Nat} (name : String)
    (h : (item? s index).bind (value? place) = some v) :
    s.bind (value? ((index, name) :: place)) = some v := by
  match s, h with
  | some (.list items), h => exact h

/-- A value that is there with a source on top is from that source, or was there before. Lists have
to be there as a whole, and items are not counted from the end. -/
theorem Over.value_eq {uses : Int → Prop} {base own s : Option Setting} (h : Over uses base own s)
    (huses : (∀ index, ¬ uses index) ∨
      (∀ items, v ≠ .list items) ∧ (place = [] ∨ ∀ index, uses index → 0 ≤ index))
    (hv : s.bind (value? place) = some v) :
    (own.bind (value? place)).or (base.bind (value? place)) = some v := by
  induction place generalizing base own s with
  | nil =>
    have hlist : ∀ {index : Int} {items : List Setting}, uses index → v ≠ .list items :=
      fun hindex => (huses.resolve_left fun h => h _ hindex).1 _
    cases h with
    | kept h => rw [h.value, hv, Option.none_or]
    | void hown hs => rw [hs.value] at hv; cases hv
    | same own => rw [hv, Option.some_or]
    | table h => cases hv
    | list hindex h => exact absurd (Option.some.inj hv).symm (hlist hindex)
    | counted hindex => exact absurd (Option.some.inj hv).symm (hlist hindex)
  | cons step place ih =>
    obtain ⟨index, name⟩ := step
    have hnonneg : ∀ index, uses index → 0 ≤ index :=
      huses.elim (fun hnone index hindex => absurd hindex (hnone index))
        fun h => h.2.resolve_left (List.cons_ne_nil _ _)
    have ih {base own s : Option Setting} (h : Over uses base own s) :=
      ih h (huses.imp_right fun hlist => ⟨hlist.1, .inr hnonneg⟩)
    cases h with
    | kept h => rw [h.value, hv, Option.none_or]
    | void hown hs => rw [hs.value] at hv; cases hv
    | same own => rw [hv, Option.some_or]
    | table h =>
      rcases Option.or_eq_some_iff.mp (ih (h name) hv) with hown | ⟨hown, hbase⟩
      · exact Option.or_eq_some_iff.mpr (.inl hown)
      · exact Option.or_eq_some_iff.mpr (.inr ⟨hown, value?_of_child index hbase⟩)
    | list _ h =>
      rcases Option.or_eq_some_iff.mp (ih (h index) hv) with hown | ⟨hown, hbase⟩
      · exact Option.or_eq_some_iff.mpr (.inl hown)
      · exact Option.or_eq_some_iff.mpr (.inr ⟨hown, value?_of_item name hbase⟩)
    | counted hindex hneg => exact absurd (hnonneg _ hindex) (Int.not_le.mpr hneg)

end Value

/-! ## Layers -/

/-- What a source sets at a place on its own. -/
def own? (source : List (String × Setting)) (place : List (Nat × String)) : Option Setting :=
  ((Setting.table []).overlay source).value? place

/-- The value at a place that the highest one of some sources has there; the lowest source comes
first. -/
def topmost? (sources : List (List (String × Setting))) (place : List (Nat × String)) :
    Option Setting :=
  sources.reverse.findSome? (own? · place)

/-- Names lead to no item below the top of a place, by an index of some kind, in the highest source
that has a value at the place and in those above it. -/
def Unindexed (kind : Int → Prop) (sources : List (List (String × Setting)))
    (place : List (Nat × String)) : Prop :=
  ∀ lower source upper, sources = lower ++ source :: upper →
    (∀ above ∈ upper, own? above place = none) →
      ∀ e ∈ source, ∀ step ∈ place.head?, ¬ LeadsToItem kind step.2 e.1

theorem topmost?_concat (sources : List (List (String × Setting)))
    (source : List (String × Setting)) (place : List (Nat × String)) :
    topmost? (sources ++ [source]) place = (own? source place).or (topmost? sources place) := by
  rw [topmost?, List.reverse_append, List.reverse_singleton, List.singleton_append,
    List.findSome?_cons]
  cases own? source place <;> rfl

theorem exists_overlay (entries : List (String × Setting)) (source : List (String × Setting)) :
    ∃ es, (Setting.table entries).overlay source = .table es := by
  induction source generalizing entries with
  | nil => exact ⟨entries, rfl⟩
  | cons e source ih =>
    obtain ⟨es, hes⟩ := exists_setNamed (.table entries) e.1 e.2
    obtain ⟨es', hes'⟩ := ih es
    rw [← hes] at hes'
    exact ⟨es', hes'⟩

theorem exists_layered (sources : List (List (String × Setting))) :
    ∃ es, sources.foldl overlay (.table []) = .table es := by
  induction sources using List.reverseRecOn with
  | nil => exact ⟨[], rfl⟩
  | append_singleton sources source ih =>
    obtain ⟨es, hes⟩ := ih
    rw [List.foldl_append, hes]
    exact exists_overlay es source

section Layers

variable {kind : Int → Prop} {sources : List (List (String × Setting))} {index : Nat}
  {top : String} {place : List (Nat × String)} {v : Setting}

theorem Unindexed.last {source : List (String × Setting)}
    (h : Unindexed kind (sources ++ [source]) ((index, top) :: place)) :
    ∀ e ∈ source, ¬ LeadsToItem kind top e.1 :=
  fun e he => h sources source [] rfl (List.forall_mem_nil _) e he _ rfl

theorem Unindexed.lower {source : List (String × Setting)} {place : List (Nat × String)}
    (h : Unindexed kind (sources ++ [source]) place) (hnone : own? source place = none) :
    Unindexed kind sources place := by
  intro lower middle upper hsplit hupper
  refine h lower middle (upper ++ [source]) (by simp [hsplit]) fun above habove => ?_
  rcases List.mem_append.mp habove with habove | habove
  · exact hupper above habove
  · rwa [List.mem_singleton.mp habove]

theorem Unindexed.of_forall (h : ∀ source ∈ sources, ∀ e ∈ source, ¬ LeadsToItem kind top e.1) :
    Unindexed kind sources ((index, top) :: place) := by
  rintro lower source upper rfl - e he step ⟨⟩
  exact h source (by simp) e he

/-- What there is at a place with a source on top is what the source sets on its own, or what was
there before. -/
theorem own_or_of_value? {root source : List (String × Setting)}
    (hitems : (∀ e ∈ source, ¬ LeadsToItem (fun _ => True) top e.1) ∨ (∀ items, v ≠ .list items) ∧
      (place = [] ∨ ∀ e ∈ source, ¬ LeadsToItem (· < 0) top e.1))
    (hv : ((Setting.table root).overlay source).value? ((index, top) :: place) = some v) :
    (own? source ((index, top) :: place)).or
      ((Setting.table root).value? ((index, top) :: place)) = some v := by
  obtain ⟨own, hown⟩ := exists_overlay [] source
  obtain ⟨entries, hentries⟩ := exists_overlay root source
  have hover := over_overlay (.table root) source top
  rw [hentries, hown] at hover
  rw [hentries, value?_table] at hv
  rw [own?, hown, value?_table, value?_table]
  refine hover.value_eq ?_ hv
  refine hitems.imp (fun h index hused => ?_) (And.imp_right (Or.imp_right fun h index hused => ?_))
  · obtain ⟨e, he, hlead⟩ := hused
    exact h e he (hlead.imp fun _ _ => trivial)
  · obtain ⟨e, he, hlead⟩ := hused
    exact Int.not_lt.mp fun hneg => h e he (hlead.imp fun _ heq => heq ▸ hneg)

/-- **Values of layered settings** are those of the highest source that has one at the place. Names
that lead to items can make a difference: to lists, since their items may be from several sources,
and to what is below a name at the top, if an item is counted from the end. -/
theorem topmost?_of_value?
    (hitems : Unindexed (fun _ => True) sources ((index, top) :: place) ∨
      (∀ items, v ≠ .list items) ∧
        (place = [] ∨ Unindexed (· < 0) sources ((index, top) :: place)))
    (hv : (sources.foldl overlay (.table [])).value? ((index, top) :: place) = some v) :
    topmost? sources ((index, top) :: place) = some v := by
  induction sources using List.reverseRecOn with
  | nil => cases hv
  | append_singleton sources source ih =>
    obtain ⟨root, hroot⟩ := exists_layered sources
    rw [List.foldl_append, List.foldl_cons, List.foldl_nil, hroot] at hv
    have hlast := hitems.imp Unindexed.last (And.imp_right (Or.imp_right Unindexed.last))
    rw [topmost?_concat]
    rcases Option.or_eq_some_iff.mp (own_or_of_value? hlast hv) with hown | ⟨hnone, hbelow⟩
    · exact Option.or_eq_some_iff.mpr (.inl hown)
    · have hlower := hitems.imp (·.lower hnone) (And.imp_right (Or.imp_right (·.lower hnone)))
      rw [← hroot] at hbelow
      exact Option.or_eq_some_iff.mpr (.inr ⟨hnone, ih hlower hbelow⟩)

end Layers

end Setting

end MarketFeed
