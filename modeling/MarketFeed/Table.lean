/-!
# Tables

A finite map from texts to values, as entries in the order in which their keys were first put.

* `get?_put_self`, `get?_put_of_ne`: putting changes what is under its own key and nothing else.
* `keys_put`, `nodup_keys_put`: a new key comes last, no key goes, and none is repeated.
-/

namespace MarketFeed

theorem lookup_cons_eq_ite {κ α : Type} [DecidableEq κ] (key name : κ) (value : α)
    (entries : List (κ × α)) :
    ((key, value) :: entries).lookup name =
      if name = key then some value else entries.lookup name := by
  rw [List.lookup_cons]
  split
  · rename_i h
    rw [if_pos (eq_of_beq h)]
  · rename_i h
    rw [if_neg (ne_of_beq_false h)]

/-- A finite map from texts to values. -/
structure Table (α : Type) where
  entries : List (String × α)

namespace Table

variable {α : Type}

/-- The table without entries. -/
def empty : Table α := ⟨[]⟩

instance : Inhabited (Table α) := ⟨empty⟩

/-- The value under a key. -/
def get? (t : Table α) (key : String) : Option α := t.entries.lookup key

/-- Is there a value under a key? -/
def has (t : Table α) (key : String) : Bool := (t.get? key).isSome

/-- Replaces the value of a key, or adds the key at the end. -/
def putEntry (key : String) (value : α) : List (String × α) → List (String × α)
  | [] => [(key, value)]
  | (k, v) :: rest => if key = k then (key, value) :: rest else (k, v) :: putEntry key value rest

/-- Puts a value under a key. -/
def put (t : Table α) (key : String) (value : α) : Table α := ⟨putEntry key value t.entries⟩

/-- The keys in order. -/
def keys (t : Table α) : List String := t.entries.map (·.1)

/-- The values in the order of their keys. -/
def values (t : Table α) : List α := t.entries.map (·.2)

/-- Are there no entries? -/
def isEmpty (t : Table α) : Bool := t.entries.isEmpty

theorem lookup_putEntry (key other : String) (value : α) (entries : List (String × α)) :
    (putEntry key value entries).lookup other =
      if other = key then some value else entries.lookup other := by
  induction entries with
  | nil => exact lookup_cons_eq_ite key other value []
  | cons e rest ih =>
    obtain ⟨k, v⟩ := e
    simp only [putEntry]
    by_cases hk : key = k
    · subst hk
      by_cases h : other = key <;> simp [lookup_cons_eq_ite, h]
    · rw [if_neg hk, lookup_cons_eq_ite, lookup_cons_eq_ite, ih]
      by_cases h : other = k
      · simp [h, Ne.symm hk]
      · simp [h]

theorem get?_put (t : Table α) (key other : String) (value : α) :
    (t.put key value).get? other = if other = key then some value else t.get? other :=
  lookup_putEntry key other value t.entries

@[simp] theorem get?_put_self (t : Table α) (key : String) (value : α) :
    (t.put key value).get? key = some value := by
  simp [get?_put]

theorem get?_put_of_ne (t : Table α) {key other : String} (h : other ≠ key) (value : α) :
    (t.put key value).get? other = t.get? other := by
  simp [get?_put, h]

@[simp] theorem has_put (t : Table α) (key other : String) (value : α) :
    (t.put key value).has other = (decide (other = key) || t.has other) := by
  simp only [has, get?_put]
  split <;> simp_all

@[simp] theorem get?_empty (key : String) : (empty : Table α).get? key = none := rfl

theorem has_iff_mem_keys (t : Table α) (key : String) : t.has key = true ↔ key ∈ t.keys := by
  unfold has get? keys
  rw [List.lookup_isSome_iff, List.mem_map]
  refine exists_congr fun e => and_congr_right fun _ => ?_
  rw [beq_iff_eq, eq_comm]

theorem isEmpty_iff (t : Table α) : t.isEmpty = true ↔ t.keys = [] := by
  rw [isEmpty, List.isEmpty_iff, keys, List.map_eq_nil_iff]

theorem mem_putEntry {key : String} {value : α} {entries : List (String × α)} {e : String × α}
    (h : e ∈ putEntry key value entries) : e = (key, value) ∨ e ∈ entries := by
  induction entries with
  | nil => exact .inl (List.mem_singleton.mp h)
  | cons first rest ih =>
    simp only [putEntry] at h
    split at h <;> rcases List.mem_cons.mp h with hfirst | hrest
    · exact .inl hfirst
    · exact .inr (List.mem_cons_of_mem first hrest)
    · exact .inr (List.mem_cons.mpr (.inl hfirst))
    · exact (ih hrest).imp id (List.mem_cons_of_mem first)

theorem keys_put (t : Table α) (key : String) (value : α) :
    (t.put key value).keys = t.keys ++ if t.has key then [] else [key] := by
  have hentries : ∀ entries : List (String × α), (putEntry key value entries).map (·.1) =
      entries.map (·.1) ++ if key ∈ entries.map (·.1) then [] else [key] := by
    intro entries
    induction entries with
    | nil => rfl
    | cons first rest ih =>
      simp only [putEntry]
      by_cases h : key = first.1
      · simp [h]
      · rw [if_neg h, List.map_cons, ih, List.map_cons, List.cons_append]
        simp only [List.mem_cons, h, false_or]
  simp only [has_iff_mem_keys]
  exact hentries t.entries

/-- Putting repeats no key. -/
theorem nodup_keys_put {t : Table α} (h : t.keys.Nodup) (key : String) (value : α) :
    (t.put key value).keys.Nodup := by
  rw [keys_put]
  split
  · simpa using h
  · rename_i hnew
    rw [has_iff_mem_keys] at hnew
    refine List.nodup_append.mpr ⟨h, by simp, fun a ha b hb => ?_⟩
    rintro rfl
    exact hnew (List.mem_singleton.mp hb ▸ ha)

/-- A new key comes with its value behind all other entries. -/
theorem entries_put_of_new {t : Table α} {key : String} (h : t.has key = false) (value : α) :
    (t.put key value).entries = t.entries ++ [(key, value)] := by
  have hentries : ∀ entries : List (String × α), key ∉ entries.map (·.1) →
      putEntry key value entries = entries ++ [(key, value)] := by
    intro entries hnew
    induction entries with
    | nil => rfl
    | cons first rest ih =>
      obtain ⟨hfirst, hrest⟩ := not_or.mp (mt List.mem_cons.mpr hnew)
      simp only [putEntry, if_neg hfirst, ih hrest, List.cons_append]
  refine hentries t.entries fun hmem => ?_
  rw [(has_iff_mem_keys t key).mpr hmem] at h
  cases h

end Table

end MarketFeed
