import MarketFeed.Proofs.Json.Written

/-!
# Reading a written value

The text of a value is read back as that value, whatever characters its strings have: only the
entries of objects come back in the order of their keys, of equal keys the last one. Numbers have to
be integers, and containers must not nest deeper than the reader follows.

* `Value.Fits`: values that have a text of their own.
* `Value.sorted`: a value with the entries of its objects in order.
* `read_render`: reading what was written.
* `Value.Fits.isValue`, `ObjectText.ofEntries`: the grammar of what was written.
-/

namespace MarketFeed.Json

/-! ## Values and their texts -/

/-- Containers nest at most so deep, and all numbers are written as what they are. -/
inductive Value.Fits : Nat → Value → Prop where
  | null {n : Nat} : Fits n .null
  | bool {n : Nat} (b : Bool) : Fits n (.bool b)
  | number {n : Nat} {k : Number} (h : k.IsWritten) : Fits n (.number k)
  | string {n : Nat} (s : String) : Fits n (.string s)
  | array {n : Nat} {items : List Value} (h : ∀ v ∈ items, Fits n v) : Fits (n + 1) (.array items)
  | object {n : Nat} {entries : List (String × Value)} (h : ∀ e ∈ entries, Fits n e.2) :
      Fits (n + 1) (.object entries)

mutual

/-- A value with the entries of its objects in the order of their keys. -/
def Value.sorted : Value → Value
  | .null => .null
  | .bool b => .bool b
  | .number n => .number n
  | .string s => .string s
  | .array items => .array (sortedItems items)
  | .object entries => .ofEntries (sortedValues entries)

/-- The elements of a list, each sorted. -/
def sortedItems : List Value → List Value
  | [] => []
  | v :: rest => v.sorted :: sortedItems rest

/-- The entries of an object, each with a sorted value. -/
def sortedValues : List (String × Value) → List (String × Value)
  | [] => []
  | (k, v) :: rest => (k, v.sorted) :: sortedValues rest

end

/-- The octets of a value. -/
def Value.octets (v : Value) : Octets := octetsOf v.written

theorem encode_render (v : Value) : Text.encode v.render = v.octets := by
  rw [Text.encode, Value.render, String.toList_ofList, Value.octets, octetsOf]

/-- Elements behind another one, each after a comma, and the end of the list. -/
def furtherItems (items : List Value) (rest : Octets) : Octets :=
  items.flatMap (fun v => 0x2c :: v.octets) ++ 0x5d :: rest

@[simp] theorem furtherItems_cons (v : Value) (items : List Value) (rest : Octets) :
    furtherItems (v :: items) rest = 0x2c :: (v.octets ++ furtherItems items rest) := by
  simp [furtherItems]

/-- An entry behind the opening quote of its key. -/
def entryOctets (e : String × Value) : Octets := bodyOf e.1 ++ 0x22 :: 0x3a :: e.2.octets

/-- Entries behind another one, each after a comma, and the end of the object. -/
def furtherEntries (entries : List (String × Value)) (rest : Octets) : Octets :=
  entries.flatMap (fun e => 0x2c :: 0x22 :: entryOctets e) ++ 0x7d :: rest

@[simp] theorem furtherEntries_cons (e : String × Value) (entries : List (String × Value))
    (rest : Octets) : furtherEntries (e :: entries) rest =
      0x2c :: 0x22 :: (entryOctets e ++ furtherEntries entries rest) := by
  simp [furtherEntries]

theorem octetsOf_joined (part : List Char) (parts : List (List Char)) :
    octetsOf (joined (part :: parts)) =
      octetsOf part ++ parts.flatMap fun p => 0x2c :: octetsOf p := by
  induction parts generalizing part with
  | nil => simp [joined]
  | cons next parts ih =>
    rw [joined, octetsOf_append, octetsOf_cons, ih, List.flatMap_cons]
    · rfl
    · simp

theorem writtenItems_eq (items : List Value) : writtenItems items = items.map Value.written := by
  induction items with
  | nil => rfl
  | cons v items ih => rw [writtenItems, ih, List.map_cons]

theorem writtenEntries_eq (entries : List (String × Value)) :
    writtenEntries entries = entries.map fun e => writtenString e.1 ++ ':' :: e.2.written := by
  induction entries with
  | nil => rfl
  | cons e entries ih => rw [writtenEntries, ih, List.map_cons]

theorem octets_array_nil : (Value.array []).octets = [0x5b, 0x5d] := rfl

theorem octets_array_cons (v : Value) (items : List Value) (rest : Octets) :
    (Value.array (v :: items)).octets ++ rest = 0x5b :: (v.octets ++ furtherItems items rest) := by
  rw [Value.octets, Value.written, octetsOf_cons, octetsOf_append, writtenItems_eq, List.map_cons,
    octetsOf_joined, List.flatMap_map]
  simp only [furtherItems, Value.octets, List.append_assoc]
  rfl

theorem octetsOf_entry (e : String × Value) :
    octetsOf (writtenString e.1 ++ ':' :: e.2.written) = 0x22 :: entryOctets e := by
  rw [octetsOf_append, octetsOf_writtenString, octetsOf_cons, entryOctets, Value.octets]
  simp only [List.cons_append, List.append_assoc]
  rfl

theorem octets_object_nil : (Value.object []).octets = [0x7b, 0x7d] := rfl

theorem octets_object_cons (e : String × Value) (entries : List (String × Value)) (rest : Octets) :
    (Value.object (e :: entries)).octets ++ rest =
      0x7b :: 0x22 :: (entryOctets e ++ furtherEntries entries rest) := by
  rw [Value.octets, Value.written, octetsOf_cons, octetsOf_append, writtenEntries_eq, List.map_cons,
    octetsOf_joined, List.flatMap_map, octetsOf_entry]
  simp only [furtherEntries, octetsOf_entry, List.append_assoc]
  rfl

/-- A written value starts with an octet that is no blank and no end of a list. -/
theorem Value.Fits.exists_cons {n : Nat} {v : Value} (h : v.Fits n) :
    ∃ b more, v.octets = b :: more ∧ isSpace b = false ∧ b ≠ 0x5d := by
  cases h with
  | null => exact ⟨0x6e, _, rfl, by decide, by decide⟩
  | bool b =>
    cases b
    · exact ⟨0x66, _, rfl, by decide, by decide⟩
    · exact ⟨0x74, _, rfl, by decide, by decide⟩
  | number h =>
    obtain ⟨positive, ds, hds, hwhole, -⟩ := readNumber_written h .nil
    obtain ⟨d, more, rfl, hd, -⟩ := hwhole.1.exists_cons
    cases positive
    · exact ⟨0x2d, _, hds, by decide, by decide⟩
    · exact ⟨d, more, hds, isSpace_of_isDigit hd, by rintro rfl; cases hd⟩
  | string s => exact ⟨0x22, _, octetsOf_writtenString s, by decide, by decide⟩
  | array h => exact ⟨0x5b, _, rfl, by decide, by decide⟩
  | object h => exact ⟨0x7b, _, rfl, by decide, by decide⟩

theorem Value.Fits.length_pos {n : Nat} {v : Value} (h : v.Fits n) : 0 < v.octets.length := by
  obtain ⟨b, more, hv, -⟩ := h.exists_cons
  rw [hv]
  exact Nat.succ_pos _

theorem ends_furtherItems (items : List Value) (rest : Octets) :
    Ends (furtherItems items rest) := by
  cases items with
  | nil => exact .cons (by simp) _
  | cons v items => exact .cons (.inl rfl) _

theorem ends_furtherEntries (entries : List (String × Value)) (rest : Octets) :
    Ends (furtherEntries entries rest) := by
  cases entries with
  | nil => exact .cons (by simp) _
  | cons e entries => exact .cons (.inl rfl) _

/-! ## Reading scalars -/

section Scalars

variable {fuel depth : Nat} {rest : Octets}

theorem readValueWithin_number {n : Number} (h : n.IsWritten) (hrest : Ends rest) :
    readValueWithin (fuel + 1) depth (octetsOf n.written ++ rest) = .ok (.number n, rest) := by
  obtain ⟨positive, ds, hds, hwhole, hread⟩ := readNumber_written h hrest
  rw [hds]
  cases positive with
  | false =>
    rw [if_neg Bool.false_ne_true, List.cons_append, readValueWithin,
      skipSpace_cons (show isSpace 0x2d = false by decide)]
    simp [hread, bind, Except.bind]
  | true =>
    obtain ⟨d, more, rfl, hd, -⟩ := hwhole.1.exists_cons
    have hne : ∀ b, isDigit b = false → d ≠ b := by
      rintro b hb rfl
      rw [hd] at hb
      cases hb
    rw [if_pos rfl, readValueWithin, List.cons_append, skipSpace_cons (isSpace_of_isDigit hd)]
    rw [List.cons_append] at hread
    simp [hne 0x6e (by decide), hne 0x74 (by decide), hne 0x66 (by decide), hne 0x2d (by decide),
      hd, hread, bind, Except.bind]

theorem readValueWithin_string (s : String) :
    readValueWithin (fuel + 1) depth (octetsOf (writtenString s) ++ rest) =
      .ok (.string s, rest) := by
  rw [octetsOf_writtenString, List.cons_append, List.append_assoc, readValueWithin,
    skipSpace_cons (show isSpace 0x22 = false by decide), List.singleton_append]
  simp [show isDigit 0x22 = false by decide, readString_of_denotes (denotes_bodyOf s), bind,
    Except.bind]

end Scalars

/-! ## Reading containers -/

/-- A value is read back at some depth, with as much fuel as its text is long. -/
def ReadsBack (depth : Nat) (v : Value) : Prop :=
  ∀ (fuel : Nat) (rest : Octets), v.octets.length ≤ fuel → Ends rest →
    readValueWithin fuel depth (v.octets ++ rest) = .ok (v.sorted, rest)

section Items

variable {n depth fuel : Nat} {items : List Value}

theorem nextElement_item {v : Value} (h : v.Fits n) (rest : Octets) :
    nextElement true (v.octets ++ rest) = .ok (some (v.octets ++ rest)) ∧
      nextElement false (0x2c :: (v.octets ++ rest)) = .ok (some (v.octets ++ rest)) := by
  obtain ⟨b, more, hv, hb, hend⟩ := h.exists_cons
  rw [hv, List.cons_append]
  simp [nextElement, skipSpace_cons hb, skipSpace_cons (show isSpace 0x2c = false by decide), hend]

/-- The reader takes an element, and stands behind it. -/
theorem readElements_item {first : Bool} {acc : List Value} {v : Value} {input tail : Octets}
    (hnext : nextElement first input = .ok (some (v.octets ++ tail))) (hback : ReadsBack depth v)
    (hfuel : v.octets.length ≤ fuel) (htail : Ends tail) :
    readElements (fuel + 1) depth first acc input =
      readElements fuel depth false (v.sorted :: acc) tail := by
  simp only [readElements, hnext, bind, Except.bind, hback fuel tail hfuel htail]

theorem readElements_close (first : Bool) (acc : List Value) (rest : Octets) :
    readElements (fuel + 1) depth first acc (0x5d :: rest) = .ok (.array acc.reverse, rest) := by
  simp [readElements, nextElement, endList, bind, Except.bind,
    skipSpace_cons (show isSpace 0x5d = false by decide)]

theorem readElements_further (hfits : ∀ v ∈ items, v.Fits n)
    (hback : ∀ v ∈ items, ReadsBack depth v) {acc : List Value} {rest : Octets}
    (hfuel : (furtherItems items []).length ≤ fuel) :
    readElements fuel depth false acc (furtherItems items rest) =
      .ok (.array (acc.reverse ++ sortedItems items), rest) := by
  induction items generalizing fuel acc with
  | nil =>
    obtain ⟨fuel, rfl⟩ := Nat.exists_eq_add_of_le' hfuel
    exact (readElements_close false acc rest).trans (by simp [sortedItems])
  | cons v items ih =>
    obtain ⟨hv, hitems⟩ := List.forall_mem_cons.mp hfits
    obtain ⟨hvback, hitemsback⟩ := List.forall_mem_cons.mp hback
    rw [furtherItems_cons, List.length_cons, List.length_append] at hfuel
    obtain ⟨fuel, rfl⟩ := Nat.exists_eq_add_of_le' (show 1 ≤ fuel by omega)
    rw [furtherItems_cons, readElements_item (nextElement_item hv _).2 hvback (by omega)
      (ends_furtherItems items rest), ih hitems hitemsback (by omega), sortedItems,
      List.reverse_cons, List.append_assoc, List.singleton_append]

theorem readValueWithin_list (hdepth : 0 < depth) (rest : Octets) :
    readValueWithin (fuel + 1) (depth + 1) (0x5b :: rest) =
      readElements fuel depth true [] rest := by
  rw [readValueWithin, skipSpace_cons (show isSpace 0x5b = false by decide)]
  simp [show isDigit 0x5b = false by decide, Nat.pos_iff_ne_zero.mp hdepth]

theorem readsBack_array (hdepth : 0 < depth) (hfits : ∀ v ∈ items, v.Fits n)
    (hback : ∀ v ∈ items, ReadsBack depth v) : ReadsBack (depth + 1) (.array items) := by
  intro fuel rest hfuel hrest
  cases items with
  | nil =>
    obtain ⟨fuel, rfl⟩ := Nat.exists_eq_add_of_le' (show 2 ≤ fuel from hfuel)
    rw [octets_array_nil, List.cons_append, readValueWithin_list hdepth]
    exact readElements_close true [] rest
  | cons v items =>
    obtain ⟨hv, hitems⟩ := List.forall_mem_cons.mp hfits
    obtain ⟨hvback, hitemsback⟩ := List.forall_mem_cons.mp hback
    have hpos := hv.length_pos
    have hclose : 0 < (furtherItems items []).length := by simp [furtherItems]
    have hlength := congrArg List.length (octets_array_cons v items [])
    simp only [List.append_nil, List.length_cons, List.length_append] at hlength
    obtain ⟨fuel, rfl⟩ := Nat.exists_eq_add_of_le' (show 2 ≤ fuel by omega)
    rw [octets_array_cons, readValueWithin_list hdepth, readElements_item (nextElement_item hv _).1
      hvback (by omega) (ends_furtherItems items rest)]
    exact readElements_further hitems hitemsback (by omega)

end Items

section Entries

variable {depth fuel : Nat} {entries : List (String × Value)}

theorem nextKey_entry (rest : Octets) :
    nextKey true (0x22 :: rest) = .ok (some rest) ∧
      nextKey false (0x2c :: 0x22 :: rest) = .ok (some rest) := ⟨rfl, rfl⟩

/-- The reader takes an entry, and stands behind it. -/
theorem readEntries_entry {first : Bool} {acc : List (String × Value)} {e : String × Value}
    {input tail : Octets} (hnext : nextKey first input = .ok (some (entryOctets e ++ tail)))
    (hback : ReadsBack depth e.2) (hfuel : (entryOctets e).length ≤ fuel) (htail : Ends tail) :
    readEntries (fuel + 1) depth first acc input =
      readEntries fuel depth false ((e.1, e.2.sorted) :: acc) tail := by
  have hkey : readString (entryOctets e ++ tail) = .ok (e.1, 0x3a :: (e.2.octets ++ tail)) := by
    rw [entryOctets, List.append_assoc]
    exact readString_of_denotes (denotes_bodyOf e.1) _
  have hcolon : readColon (0x3a :: (e.2.octets ++ tail)) = .ok (e.2.octets ++ tail) :=
    readColon_append .nil _
  have hvalue : e.2.octets.length ≤ (entryOctets e).length := by
    simp only [entryOctets, List.length_append, List.length_cons]
    omega
  simp only [readEntries, hnext, hkey, hcolon, bind, Except.bind,
    hback fuel tail (Nat.le_trans hvalue hfuel) htail]

theorem readEntries_close (first : Bool) (acc : List (String × Value)) (rest : Octets) :
    readEntries (fuel + 1) depth first acc (0x7d :: rest) =
      .ok (.ofEntries acc.reverse, rest) := by
  simp [readEntries, nextKey, endObject, bind, Except.bind,
    skipSpace_cons (show isSpace 0x7d = false by decide)]

theorem readEntries_further (hback : ∀ e ∈ entries, ReadsBack depth e.2)
    {acc : List (String × Value)} {rest : Octets}
    (hfuel : (furtherEntries entries []).length ≤ fuel) :
    readEntries fuel depth false acc (furtherEntries entries rest) =
      .ok (.ofEntries (acc.reverse ++ sortedValues entries), rest) := by
  induction entries generalizing fuel acc with
  | nil =>
    obtain ⟨fuel, rfl⟩ := Nat.exists_eq_add_of_le' hfuel
    exact (readEntries_close false acc rest).trans (by simp [sortedValues])
  | cons e entries ih =>
    obtain ⟨he, hentries⟩ := List.forall_mem_cons.mp hback
    rw [furtherEntries_cons, List.length_cons, List.length_cons, List.length_append] at hfuel
    obtain ⟨fuel, rfl⟩ := Nat.exists_eq_add_of_le' (show 1 ≤ fuel by omega)
    rw [furtherEntries_cons, readEntries_entry (nextKey_entry _).2 he (by omega)
      (ends_furtherEntries entries rest), ih hentries (by omega), sortedValues, List.reverse_cons,
      List.append_assoc, List.singleton_append]

theorem readValueWithin_object (hdepth : 0 < depth) (rest : Octets) :
    readValueWithin (fuel + 1) (depth + 1) (0x7b :: rest) =
      readEntries fuel depth true [] rest := by
  rw [readValueWithin, skipSpace_cons (show isSpace 0x7b = false by decide)]
  simp [show isDigit 0x7b = false by decide, Nat.pos_iff_ne_zero.mp hdepth]

theorem readsBack_object (hdepth : 0 < depth) (hback : ∀ e ∈ entries, ReadsBack depth e.2) :
    ReadsBack (depth + 1) (.object entries) := by
  intro fuel rest hfuel hrest
  cases entries with
  | nil =>
    obtain ⟨fuel, rfl⟩ := Nat.exists_eq_add_of_le' (show 2 ≤ fuel from hfuel)
    rw [octets_object_nil, List.cons_append, readValueWithin_object hdepth]
    exact readEntries_close true [] rest
  | cons e entries =>
    obtain ⟨he, hentries⟩ := List.forall_mem_cons.mp hback
    have hlength := congrArg List.length (octets_object_cons e entries [])
    simp only [List.append_nil, List.length_cons, List.length_append] at hlength
    obtain ⟨fuel, rfl⟩ := Nat.exists_eq_add_of_le' (show 2 ≤ fuel by omega)
    rw [octets_object_cons, readValueWithin_object hdepth, readEntries_entry (nextKey_entry _).1 he
      (by omega) (ends_furtherEntries entries rest)]
    exact readEntries_further hentries (by omega)

end Entries

/-! ## Reading a whole text -/

theorem readsBack_scalar {depth : Nat} {v : Value} (hv : v.Fits 0) (hsorted : v.sorted = v)
    (hread : ∀ fuel rest, Ends rest →
      readValueWithin (fuel + 1) depth (v.octets ++ rest) = .ok (v, rest)) :
    ReadsBack depth v := by
  intro fuel rest hfuel hrest
  obtain ⟨fuel, rfl⟩ := Nat.exists_eq_add_of_le' (Nat.le_trans hv.length_pos hfuel)
  rw [hread fuel rest hrest, hsorted]

/-- A value is read back at any depth that has room for it. -/
theorem Value.Fits.readsBack {n : Nat} {v : Value} (h : v.Fits n) {depth : Nat}
    (hdepth : n < depth) : ReadsBack depth v := by
  induction h generalizing depth with
  | null => exact readsBack_scalar .null rfl fun fuel rest _ => rfl
  | bool b => exact readsBack_scalar (.bool b) rfl fun fuel rest _ => by cases b <;> rfl
  | number hk => exact readsBack_scalar (.number hk) rfl fun fuel rest => readValueWithin_number hk
  | string s => exact readsBack_scalar (.string s) rfl fun fuel rest _ => readValueWithin_string s
  | array h ih =>
    -- the container takes one level of the depth, its elements have the others
    obtain ⟨depth, rfl⟩ := Nat.exists_eq_add_of_le' (Nat.zero_lt_of_lt hdepth)
    have hdepth := Nat.lt_of_succ_lt_succ hdepth
    exact readsBack_array (Nat.zero_lt_of_lt hdepth) h fun v hv => ih v hv hdepth
  | object h ih =>
    obtain ⟨depth, rfl⟩ := Nat.exists_eq_add_of_le' (Nat.zero_lt_of_lt hdepth)
    have hdepth := Nat.lt_of_succ_lt_succ hdepth
    exact readsBack_object (Nat.zero_lt_of_lt hdepth) fun e he => ih e he hdepth

/-- **What was written is read back.** The fuel that the length of a text gives is enough, since
every step of the reader takes an octet. -/
theorem read_render {n : Nat} {v : Value} (h : v.Fits n) (hn : n < depthLimit) :
    Value.read (Text.encode v.render) = .ok v.sorted := by
  have hread := h.readsBack hn (2 * v.octets.length + 2) [] (by omega) .nil
  rw [List.append_nil] at hread
  rw [encode_render, Value.read, readWhole, readValue, hread]
  rfl

/-! ## The grammar of written values -/

section Grammar

variable {n : Nat} {items : List Value} {entries : List (String × Value)}

theorem isText_furtherItems (h : ∀ v ∈ items, IsValue v.octets) :
    IsText (.more .list) (furtherItems items []) := by
  induction items with
  | nil => exact .close .nil
  | cons v items ih =>
    obtain ⟨hv, hitems⟩ := List.forall_mem_cons.mp h
    rw [furtherItems_cons]
    exact @IsText.comma .list [] [] [] [] v.octets _ .nil .nil .list .nil hv (ih hitems)

theorem isValue_array (h : ∀ v ∈ items, IsValue v.octets) : IsValue (Value.array items).octets := by
  cases items with
  | nil => exact .list (.empty .nil)
  | cons v items =>
    obtain ⟨hv, hitems⟩ := List.forall_mem_cons.mp h
    have htext := octets_array_cons v items []
    rw [List.append_nil] at htext
    rw [htext]
    exact .list (@IsText.entry .list [] [] [] v.octets _ .nil .list .nil hv
      (isText_furtherItems hitems))

theorem isKey_bodyOf (name : String) : IsKey .object (0x22 :: (bodyOf name ++ [0x22, 0x3a])) :=
  .object (denotes_bodyOf name).isBody .nil

theorem isText_furtherEntries (h : ∀ e ∈ entries, IsValue e.2.octets) :
    IsText (.more .object) (furtherEntries entries []) := by
  induction entries with
  | nil => exact .close .nil
  | cons e entries ih =>
    obtain ⟨he, hentries⟩ := List.forall_mem_cons.mp h
    have htext := @IsText.comma .object [] [] _ [] e.2.octets _ .nil .nil (isKey_bodyOf e.1) .nil he
      (ih hentries)
    simpa [entryOctets] using htext

theorem isValue_object (h : ∀ e ∈ entries, IsValue e.2.octets) :
    IsValue (Value.object entries).octets := by
  cases entries with
  | nil => exact .object (.empty .nil)
  | cons e entries =>
    obtain ⟨he, hentries⟩ := List.forall_mem_cons.mp h
    have htext := IsText.object (@IsText.entry .object [] _ [] e.2.octets _ .nil
      (isKey_bodyOf e.1) .nil he (isText_furtherEntries hentries))
    have hoctets := octets_object_cons e entries []
    rw [List.append_nil] at hoctets
    rw [hoctets]
    simpa [entryOctets] using htext

/-- A written value is one of the grammar. -/
theorem Value.Fits.isValue {v : Value} (h : v.Fits n) : IsValue v.octets := by
  induction h with
  | null => exact .null
  | bool b =>
    cases b
    · exact .false
    · exact .true
  | number hk =>
    obtain ⟨positive, ds, hds, hwhole, -⟩ := readNumber_written hk .nil
    have hmagnitude : IsMagnitude ds := ⟨ds, [], [], hwhole, .none, .none, by simp⟩
    rw [Value.octets, Value.written, hds]
    cases positive
    · exact .number (.negative hmagnitude)
    · exact .number (.positive hmagnitude)
  | string s =>
    rw [Value.octets, Value.written, octetsOf_writtenString]
    exact .string (denotes_bodyOf s).isBody
  | array _ ih => exact isValue_array ih
  | object _ ih => exact isValue_object ih

/-- The text of an entry as a member. -/
def Member.ofEntry (e : String × Value) (h : IsValue e.2.octets) : Member where
  before := []
  spelling := bodyOf e.1
  name := e.1
  between := []
  gap := []
  value := e.2.octets
  after := []
  before_blank := .nil
  denotes := denotes_bodyOf e.1
  between_blank := .nil
  gap_blank := .nil
  isValue := h
  after_blank := .nil

theorem Member.octets_ofEntry (e : String × Value) (h : IsValue e.2.octets) :
    (Member.ofEntry e h).octets = 0x22 :: entryOctets e := by
  simp [Member.octets, Member.fromKey, Member.ofEntry, entryOctets]

/-- The text of an object with its entries as members. -/
def ObjectText.ofEntries (entries : List (String × Value)) (h : ∀ e ∈ entries, IsValue e.2.octets) :
    ObjectText where
  before := []
  inner := []
  members := entries.pmap Member.ofEntry h
  after := []
  before_blank := .nil
  inner_blank := .nil
  after_blank := .nil

theorem behind_ofEntries (h : ∀ e ∈ entries, IsValue e.2.octets) :
    behind (entries.pmap Member.ofEntry h) [] = furtherEntries entries [] := by
  induction entries with
  | nil => rfl
  | cons e entries ih =>
    rw [furtherEntries_cons, ← ih (List.forall_mem_cons.mp h).2]
    simp [behind, Member.octets_ofEntry]

theorem ObjectText.octets_ofEntries (h : ∀ e ∈ entries, IsValue e.2.octets) :
    (ObjectText.ofEntries entries h).octets = (Value.object entries).octets := by
  cases entries with
  | nil => rfl
  | cons e entries =>
    have htext := octets_object_cons e entries []
    rw [List.append_nil] at htext
    rw [htext, ← behind_ofEntries (List.forall_mem_cons.mp h).2]
    simp [ObjectText.octets, ObjectText.ofEntries, joinedMembers, Member.octets_ofEntry]

theorem ObjectText.names_ofEntries (h : ∀ e ∈ entries, IsValue e.2.octets) :
    (ObjectText.ofEntries entries h).members.map Member.name = entries.map Prod.fst := by
  rw [ObjectText.ofEntries, List.map_pmap]
  exact List.pmap_eq_map h

/-- A written object has a member for each of its entries, and no other. -/
theorem Value.Fits.exists_objectText (h : (Value.object entries).Fits n) :
    ∃ text : ObjectText, text.octets = (Value.object entries).octets ∧
      text.members.map Member.name = entries.map Prod.fst := by
  cases h with
  | object h =>
    have hvalues : ∀ e ∈ entries, IsValue e.2.octets := fun e he => (h e he).isValue
    exact ⟨.ofEntries entries hvalues, ObjectText.octets_ofEntries hvalues,
      ObjectText.names_ofEntries hvalues⟩

end Grammar

end MarketFeed.Json
