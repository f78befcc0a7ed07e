import Mathlib.Data.List.Induction
import Mathlib.Data.String.Basic
import MarketFeed.Fault
import MarketFeed.Json.Record
import MarketFeed.Table

/-!
# Decoded objects

A decoded value holds the entries of each of its objects in the order of their keys, each key
once. A record that is read from such an object is therefore a matter of what stands under the
names of its fields: neither other entries nor the order of the entries in the text count.

* `ordered_of_read`: the objects in a decoded value have increasing keys.
* `exists_recordOfValue_iff`, `lookup_of_recordOfValue`: when an object is a record, and what the
  fields of the record are.
-/

namespace MarketFeed.Json

section Entries

variable {α : Type}

/-- Keys that increase from each entry to the next. -/
def KeysIncrease (entries : List (String × α)) : Prop := entries.Pairwise (·.1 < ·.1)

/-- Inserting keeps a lower bound of the keys that the new key has as well. -/
theorem lt_of_mem_insertEntry {low key : String} {value : α} {entries : List (String × α)}
    (hkey : low < key) (hlow : ∀ e ∈ entries, low < e.1) :
    ∀ e ∈ insertEntry key value entries, low < e.1 := by
  induction entries with
  | nil => simpa [insertEntry] using hkey
  | cons entry rest ih =>
    obtain ⟨k, v⟩ := entry
    obtain ⟨hk, hrest⟩ := List.forall_mem_cons.mp hlow
    simp only [insertEntry]
    split
    · exact List.forall_mem_cons.mpr ⟨hkey, hrest⟩
    · split
      · exact List.forall_mem_cons.mpr ⟨hkey, hlow⟩
      · exact List.forall_mem_cons.mpr ⟨hk, ih hrest⟩

theorem KeysIncrease.insertEntry {entries : List (String × α)} (h : KeysIncrease entries)
    (key : String) (value : α) : KeysIncrease (insertEntry key value entries) := by
  induction entries with
  | nil => exact List.pairwise_singleton _ _
  | cons entry rest ih =>
    obtain ⟨k, v⟩ := entry
    obtain ⟨hk, hrest⟩ := List.pairwise_cons.mp h
    simp only [Json.insertEntry]
    split
    · rename_i heq
      subst heq
      exact List.pairwise_cons.mpr ⟨hk, hrest⟩
    · split
      · rename_i hlt
        exact List.pairwise_cons.mpr
          ⟨List.forall_mem_cons.mpr ⟨hlt, fun e he => lt_trans hlt (hk e he)⟩, h⟩
      · rename_i hne hnlt
        have hlt : k < key := lt_of_le_of_ne (not_lt.mp hnlt) (Ne.symm hne)
        exact List.pairwise_cons.mpr ⟨lt_of_mem_insertEntry hlt hk, ih hrest⟩

theorem keysIncrease_sortEntries (entries : List (String × α)) :
    KeysIncrease (sortEntries entries) := by
  induction entries using List.reverseRecOn with
  | nil => exact List.Pairwise.nil
  | append_singleton entries entry ih =>
    rw [sortEntries, List.foldl_append]
    exact ih.insertEntry entry.1 entry.2

theorem mem_insertEntry {key : String} {value : α} {entries : List (String × α)}
    {e : String × α} (h : e ∈ insertEntry key value entries) : e = (key, value) ∨ e ∈ entries := by
  induction entries with
  | nil => exact .inl (List.mem_singleton.mp h)
  | cons entry rest ih =>
    obtain ⟨k, v⟩ := entry
    simp only [insertEntry] at h
    split at h
    · rcases List.mem_cons.mp h with rfl | h
      · exact .inl rfl
      · exact .inr (List.mem_cons_of_mem _ h)
    · split at h
      · exact List.mem_cons.mp h
      · rcases List.mem_cons.mp h with rfl | h
        · exact .inr List.mem_cons_self
        · exact (ih h).imp_right (List.mem_cons_of_mem _)

theorem mem_of_mem_sortEntries {entries : List (String × α)} {e : String × α}
    (h : e ∈ sortEntries entries) : e ∈ entries := by
  induction entries using List.reverseRecOn with
  | nil => cases h
  | append_singleton entries entry ih =>
    rw [sortEntries, List.foldl_append] at h
    rcases mem_insertEntry h with rfl | h
    · exact List.mem_append_right _ (List.mem_singleton.mpr rfl)
    · exact List.mem_append_left _ (ih h)

/-- Where keys increase, an entry is what its key looks up. -/
theorem KeysIncrease.lookup_eq_some_iff {entries : List (String × α)} (h : KeysIncrease entries)
    {key : String} {value : α} : entries.lookup key = some value ↔ (key, value) ∈ entries := by
  constructor
  · intro hlookup
    obtain ⟨before, after, rfl, -⟩ := List.lookup_eq_some_iff.mp hlookup
    exact List.mem_append_right _ List.mem_cons_self
  · intro hmem
    obtain ⟨before, after, rfl⟩ := List.append_of_mem hmem
    have hbefore := (List.pairwise_append.mp h).2.2
    refine List.lookup_eq_some_iff.mpr ⟨before, after, rfl, fun e he => ?_⟩
    have hlt := hbefore e he (key, value) List.mem_cons_self
    simpa using (ne_of_lt hlt).symm

end Entries

/-! ## Decoded values -/

/-- A value whose objects have increasing keys, however deep they are. -/
inductive Value.Ordered : Value → Prop where
  | null : Ordered .null
  | bool (b : Bool) : Ordered (.bool b)
  | number (n : Number) : Ordered (.number n)
  | string (s : String) : Ordered (.string s)
  | array {items : List Value} (h : ∀ v ∈ items, Ordered v) : Ordered (.array items)
  | object {entries : List (String × Value)} (hkeys : KeysIncrease entries)
      (h : ∀ e ∈ entries, Ordered e.2) : Ordered (.object entries)

theorem Value.Ordered.ofEntries {entries : List (String × Value)}
    (h : ∀ e ∈ entries, e.2.Ordered) : (Value.ofEntries entries).Ordered :=
  .object (keysIncrease_sortEntries entries) fun e he => h e (mem_of_mem_sortEntries he)

/-- The readers of values, of elements and of entries, together by induction on the fuel that they
share. What has been gathered of elements and entries is ordered, and remains so with the next. -/
private theorem ordered_of_readers (fuel : Nat) :
    (∀ {depth input v rest}, readValueWithin fuel depth input = .ok (v, rest) → v.Ordered) ∧
    (∀ {depth first acc input v rest}, (∀ a ∈ acc, a.Ordered) →
      readElements fuel depth first acc input = .ok (v, rest) → v.Ordered) ∧
    (∀ {depth first acc input v rest}, (∀ e ∈ acc, e.2.Ordered) →
      readEntries fuel depth first acc input = .ok (v, rest) → v.Ordered) := by
  induction fuel with
  | zero => refine ⟨?_, ?_, ?_⟩ <;> intros <;> contradiction
  | succ fuel ih =>
    obtain ⟨ihvalue, ihelements, ihentries⟩ := ih
    refine ⟨?_, ?_, ?_⟩
    -- A value is told by its first octet; the containers begin with nothing gathered.
    · intro depth input v rest h
      simp only [readValueWithin] at h
      split at h
      · cases h
      · rename_i b more hskip
        split_ifs at h
        · obtain ⟨_, -, h⟩ := bind_eq_ok.mp h
          cases h
          exact .null
        · obtain ⟨_, -, h⟩ := bind_eq_ok.mp h
          cases h
          exact .bool true
        · obtain ⟨_, -, h⟩ := bind_eq_ok.mp h
          cases h
          exact .bool false
        · obtain ⟨n, -, h⟩ := bind_eq_ok.mp h
          cases h
          exact .number n.1
        · obtain ⟨n, -, h⟩ := bind_eq_ok.mp h
          cases h
          exact .number n.1
        · obtain ⟨s, -, h⟩ := bind_eq_ok.mp h
          cases h
          exact .string s.1
        · cases h
        · exact ihelements (List.forall_mem_nil _) h
        · cases h
        · exact ihentries (List.forall_mem_nil _) h
        · cases h
    · intro depth first acc input v rest hacc h
      simp only [readElements, bind_eq_ok] at h
      obtain ⟨next, -, h⟩ := h
      cases next with
      | none =>
        simp only [bind_eq_ok] at h
        obtain ⟨after, -, h⟩ := h
        obtain ⟨rfl, -⟩ := Prod.mk.inj (Except.ok.inj h)
        exact .array fun a ha => hacc a (List.mem_reverse.mp ha)
      | some more =>
        simp only [bind_eq_ok] at h
        obtain ⟨⟨a, after⟩, ha, h⟩ := h
        exact ihelements (List.forall_mem_cons.mpr ⟨ihvalue ha, hacc⟩) h
    · intro depth first acc input v rest hacc h
      simp only [readEntries, bind_eq_ok] at h
      obtain ⟨next, -, h⟩ := h
      cases next with
      | none =>
        simp only [bind_eq_ok] at h
        obtain ⟨after, -, h⟩ := h
        obtain ⟨rfl, -⟩ := Prod.mk.inj (Except.ok.inj h)
        -- only here are the keys put in order, and repeated ones dropped
        exact .ofEntries fun e he => hacc e (List.mem_reverse.mp he)
      | some more =>
        simp only [bind_eq_ok] at h
        obtain ⟨⟨key, afterKey⟩, -, valueInput, -, ⟨a, after⟩, ha, h⟩ := h
        exact ihentries (List.forall_mem_cons.mpr ⟨ihvalue ha, hacc⟩) h

/-- **Decoded objects have increasing keys.** -/
theorem ordered_of_read {input : Octets} {v : Value} (h : Value.read input = .ok v) :
    v.Ordered := by
  obtain ⟨⟨a, rest⟩, ha, h⟩ := bind_eq_ok.mp h
  dsimp only at h
  split at h
  · cases h
    exact (ordered_of_readers _).1 ha
  · cases h

theorem ordered_of_read_object {input : Octets} {entries : List (String × Value)}
    (h : Value.read input = .ok (.object entries)) :
    KeysIncrease entries ∧ ∀ e ∈ entries, e.2.Ordered := by
  cases ordered_of_read h with
  | object hkeys hvalues => exact ⟨hkeys, hvalues⟩

/-! ## Records -/

theorem lookup_fieldsOfEntries {shape : Shape} {entries : List (String × Value)} {fields : Fields}
    (h : fieldsOfEntries shape entries = .ok fields) {name : String} {f : Field}
    (hf : shape.field? name = some f) :
    fields.lookup name = (entries.lookup name).bind fun v => (v.datum f.kind).toOption := by
  induction entries generalizing fields with
  | nil =>
    cases h
    rfl
  | cons entry rest ih =>
    obtain ⟨key, v⟩ := entry
    simp only [fieldsOfEntries] at h
    rw [lookup_cons_eq_ite]
    split at h
    · rename_i hkey
      split_ifs with hname
      · subst hname
        rw [hf] at hkey
        cases hkey
      · exact ih h
    · rename_i g hkey
      simp only [bind_eq_ok] at h
      obtain ⟨d, hd, others, hothers, h⟩ := h
      cases h
      rw [lookup_cons_eq_ite]
      split_ifs with hname
      · subst hname
        obtain rfl : g = f := Option.some.inj (hkey.symm.trans hf)
        simp [hd, Except.toOption]
      · exact ih hothers

/-- Fields are read as soon as every entry under a known name has a value of its type. -/
theorem exists_fieldsOfEntries_iff {shape : Shape} {entries : List (String × Value)} :
    (∃ fields, fieldsOfEntries shape entries = .ok fields) ↔
      ∀ e ∈ entries, ∀ f, shape.field? e.1 = some f → ∃ d, e.2.datum f.kind = .ok d := by
  induction entries with
  | nil => simp [fieldsOfEntries]
  | cons entry rest ih =>
    obtain ⟨key, v⟩ := entry
    simp only [fieldsOfEntries, List.forall_mem_cons, ← ih]
    cases hkey : shape.field? key with
    | none => simp
    | some f =>
      simp only [bind_eq_ok, Option.some.injEq, forall_eq']
      constructor
      · rintro ⟨fields, d, hd, others, hothers, -⟩
        exact ⟨⟨d, hd⟩, others, hothers⟩
      · rintro ⟨⟨d, hd⟩, others, hothers⟩
        exact ⟨_, d, hd, others, hothers, rfl⟩

/-- What stands under the name of a field is a value of its type, or nothing where the field is
optional. -/
def Field.Accepts (f : Field) : Option Value → Prop
  | some v => ∃ d, v.datum f.kind = .ok d
  | none => f.required = false

/-- No two fields of a shape have the same name. -/
def Shape.NamesDiffer (s : Shape) : Prop := ∀ f ∈ s.fields, s.field? f.name = some f

instance (s : Shape) : Decidable s.NamesDiffer := inferInstanceAs (Decidable (∀ f ∈ _, _))

section Record

variable {shape : Shape} {entries : List (String × Value)} {fields : Fields}

theorem fieldsOfEntries_of_recordOfValue
    (h : recordOfValue shape (.object entries) = .ok fields) :
    fieldsOfEntries shape entries = .ok fields ∧ shape.missing? fields = none := by
  obtain ⟨fields', hfields, h⟩ := bind_eq_ok.mp h
  split at h
  · cases h
  · rename_i hmissing
    cases h
    exact ⟨hfields, hmissing⟩

/-- A field of a record is what stands under its name. -/
theorem lookup_of_recordOfValue (hnames : shape.NamesDiffer)
    (h : recordOfValue shape (.object entries) = .ok fields) {f : Field} (hf : f ∈ shape.fields) :
    fields.lookup f.name = (entries.lookup f.name).bind fun v => (v.datum f.kind).toOption :=
  lookup_fieldsOfEntries (fieldsOfEntries_of_recordOfValue h).1 (hnames f hf)

/-- **An object is a record** as soon as each field accepts what stands under its name. -/
theorem exists_recordOfValue_iff (hnames : shape.NamesDiffer) (hkeys : KeysIncrease entries) :
    (∃ fields, recordOfValue shape (.object entries) = .ok fields) ↔
      ∀ f ∈ shape.fields, f.Accepts (entries.lookup f.name) := by
  constructor
  · rintro ⟨fields, h⟩ f hf
    obtain ⟨hfields, hmissing⟩ := fieldsOfEntries_of_recordOfValue h
    have hlookup := lookup_fieldsOfEntries hfields (hnames f hf)
    cases hvalue : entries.lookup f.name with
    | some v =>
      have hmem := hkeys.lookup_eq_some_iff.mp hvalue
      exact exists_fieldsOfEntries_iff.mp ⟨fields, hfields⟩ _ hmem f (hnames f hf)
    | none =>
      have hpresent := List.find?_eq_none.mp hmissing f hf
      rw [hvalue] at hlookup
      simpa [hlookup, Field.Accepts] using hpresent
  · intro haccepts
    have hread : ∃ fields, fieldsOfEntries shape entries = .ok fields := by
      refine exists_fieldsOfEntries_iff.mpr fun e he f hf => ?_
      have hname : f.name = e.1 := by simpa using List.find?_some hf
      have hvalue := hkeys.lookup_eq_some_iff.mpr he
      have haccept := haccepts f (List.mem_of_find?_eq_some hf)
      rwa [hname, hvalue] at haccept
    obtain ⟨fields, hfields⟩ := hread
    have hmissing : shape.missing? fields = none := by
      refine List.find?_eq_none.mpr fun f hf => ?_
      have haccept := haccepts f hf
      rw [lookup_fieldsOfEntries hfields (hnames f hf)]
      cases hvalue : entries.lookup f.name with
      | some v =>
        rw [hvalue] at haccept
        obtain ⟨d, hd⟩ := haccept
        simp [hd, Except.toOption]
      | none =>
        rw [hvalue] at haccept
        simpa [Field.Accepts] using haccept
    exact ⟨fields, bind_eq_ok.mpr ⟨fields, hfields, by rw [hmissing]⟩⟩

end Record

end MarketFeed.Json
