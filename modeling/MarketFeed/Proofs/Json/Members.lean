import Mathlib.Tactic.SplitIfs
import MarketFeed.Json.Record
import MarketFeed.Proofs.Json.Grammar
import MarketFeed.Proofs.Json.Ordered

/-!
# The members of an object text

The text of an object is told as the list of its members, each with the blanks around its parts and
with any value of the grammar. A record is read from such a text by what stands under the names of
its fields, and by nothing else: a field must be there once, with a value of its type, or not at
all where it is optional. Members of other names do not count, nor does the order.

* `Member`, `ObjectText`: the texts of objects, with proofs that they are.
* `Spells`, `readText_eq_ok_iff`: the values that are strings, and reading them.
* `toOption_readRecord`: a record of a text is collected from its members.
* `exists_readRecord_iff`, `lookup_of_readRecord`: when it is there, and what its fields are.
-/

namespace MarketFeed.Json

/-! ## Values that are strings -/

/-- A value is a string with these characters. -/
def Spells (v : Octets) (s : String) : Prop :=
  ∃ body, v = 0x22 :: (body ++ [0x22]) ∧ Denotes body s.toList

/-- A value is one string at most. -/
theorem Spells.unique {v : Octets} {s t : String} (hs : Spells v s) (ht : Spells v t) : s = t := by
  obtain ⟨body, rfl, hbody⟩ := hs
  obtain ⟨body', heq, hbody'⟩ := ht
  obtain rfl : body = body' := List.append_cancel_right (List.cons.inj heq).2
  have hread := (readString_of_denotes hbody []).symm.trans (readString_of_denotes hbody' [])
  exact (Prod.mk.inj (Except.ok.inj hread)).1

theorem refuseType_ne_ok {α : Type} {expected : String} {input : Octets} {a : α} :
    refuseType expected input ≠ .ok a := by
  intro h
  unfold refuseType at h
  split at h
  · cases h
  · split_ifs at h
    all_goals first
      | cases h
      | (obtain ⟨_, -, h⟩ := bind_eq_ok.mp h; cases h)

theorem IsValue.exists_body_of_quote {more : Octets} (h : IsValue (0x22 :: more)) :
    ∃ body, more = body ++ [0x22] ∧ IsBody body := by
  generalize hv : 0x22 :: more = v at h
  cases h with
  | string h => exact ⟨_, (List.cons.inj hv).2, h⟩
  | number h =>
    cases h with
    | positive h =>
      obtain ⟨d, _, rfl, hd⟩ := h.exists_cons
      rw [← (List.cons.inj hv).1] at hd
      cases hd
    | negative h => exact absurd (List.cons.inj hv).1 (by decide)
  | null =>
    exact absurd (congrArg List.head? hv) (show some 0x22 ≠ (ascii "null").head? by decide)
  | true =>
    exact absurd (congrArg List.head? hv) (show some 0x22 ≠ (ascii "true").head? by decide)
  | false =>
    exact absurd (congrArg List.head? hv) (show some 0x22 ≠ (ascii "false").head? by decide)
  | list _ => exact absurd (List.cons.inj hv).1 (by decide)
  | object _ => exact absurd (List.cons.inj hv).1 (by decide)

/-- **Reading a string** succeeds at the values that are strings. -/
theorem readText_eq_ok_iff {gap v rest left : Octets} {s : String} (hgap : IsBlank gap)
    (hv : IsValue v) :
    readText (gap ++ (v ++ rest)) = .ok (s, left) ↔ Spells v s ∧ left = rest := by
  obtain ⟨b, more, rfl, hb, -⟩ := hv.exists_cons
  unfold readText readTextAs
  rw [skipSpace_append hgap, List.cons_append, skipSpace_cons hb]
  dsimp only
  split_ifs with hquote
  · subst hquote
    obtain ⟨body, rfl, hbody⟩ := hv.exists_body_of_quote
    constructor
    · intro h
      rw [List.append_assoc, List.singleton_append] at h
      obtain ⟨body', hsplit, hdenotes⟩ := denotes_of_readString h
      obtain rfl := hbody.unique hdenotes.isBody hsplit
      exact ⟨⟨body, rfl, hdenotes⟩, (List.cons.inj (List.append_cancel_left hsplit)).2.symm⟩
    · rintro ⟨⟨body', hbody', hdenotes⟩, rfl⟩
      obtain rfl : body = body' := List.append_cancel_right (List.cons.inj hbody').2
      rw [List.append_assoc, List.singleton_append]
      exact readString_of_denotes hdenotes _
  · constructor
    · exact fun h => absurd h refuseType_ne_ok
    · rintro ⟨⟨body, hbody, -⟩, -⟩
      exact absurd (List.cons.inj hbody).1 hquote

/-- The datum that a value holds, read on its own. -/
def datumOf? (kind : Kind) (v : Octets) : Option Datum := (readDatum kind v).toOption.map Prod.fst

/-- Reading a value as one of a kind does not depend on what stands around it. -/
def FramedAt (kind : Kind) (v : Octets) : Prop :=
  ∀ ⦃gap rest : Octets⦄, IsBlank gap → Ends rest →
    (readDatum kind (gap ++ (v ++ rest))).toOption = (datumOf? kind v).map fun d => (d, rest)

theorem datumOf?_text {v : Octets} (hv : IsValue v) {d : Datum} :
    datumOf? .text v = some d ↔ ∃ s, Spells v s ∧ d = .text s := by
  have hread : ∀ s left, readText ([] ++ (v ++ [])) = .ok (s, left) ↔ Spells v s ∧ left = [] :=
    fun s left => readText_eq_ok_iff .nil hv
  simp only [List.nil_append, List.append_nil] at hread
  simp only [datumOf?, readDatum, Option.map_eq_some_iff, toOption_eq_some, map_eq_ok]
  constructor
  · rintro ⟨_, ⟨⟨s, left⟩, h, rfl⟩, rfl⟩
    exact ⟨s, ((hread s left).mp h).1, rfl⟩
  · rintro ⟨s, hs, rfl⟩
    exact ⟨_, ⟨(s, []), (hread s []).mpr ⟨hs, rfl⟩, rfl⟩, rfl⟩

theorem framedAt_text {v : Octets} (hv : IsValue v) : FramedAt .text v := by
  intro gap rest hgap _
  ext ⟨d, left⟩
  simp only [Option.map_eq_some_iff, datumOf?_text hv, readDatum, toOption_eq_some, map_eq_ok,
    Prod.exists, readText_eq_ok_iff hgap hv, Prod.mk.injEq]
  constructor
  · rintro ⟨s, left, ⟨hs, rfl⟩, rfl, rfl⟩
    exact ⟨_, ⟨s, hs, rfl⟩, rfl, rfl⟩
  · rintro ⟨_, ⟨s, hs, rfl⟩, rfl, rfl⟩
    exact ⟨s, _, ⟨hs, rfl⟩, rfl, rfl⟩

/-! ## Object texts -/

/-- The text of a member of an object: a key, a colon and a value, with blanks between them. -/
structure Member where
  before : Octets
  spelling : Octets
  name : String
  between : Octets
  gap : Octets
  value : Octets
  after : Octets
  before_blank : IsBlank before
  denotes : Denotes spelling name.toList
  between_blank : IsBlank between
  gap_blank : IsBlank gap
  isValue : IsValue value
  after_blank : IsBlank after

namespace Member

/-- A member from behind the quote of its key on. -/
def fromKey (m : Member) : Octets :=
  m.spelling ++ 0x22 :: (m.between ++ 0x3a :: (m.gap ++ (m.value ++ m.after)))

/-- The text of a member. -/
def octets (m : Member) : Octets := m.before ++ 0x22 :: m.fromKey

end Member

/-- A text of ASCII characters without escapes. -/
def IsPlainText (s : String) : Prop :=
  (∀ b ∈ ascii s, IsPlain b) ∧ Text.decode? (ascii s) = some s.toList

instance (s : String) : Decidable (IsPlainText s) :=
  @instDecidableAnd _ _ (List.decidableBAll IsPlain _) inferInstance

/-- A member whose value is a string, without blanks and escapes. -/
def Member.ofText (name value : String) (hname : IsPlainText name) (hvalue : IsPlainText value) :
    Member where
  before := []
  spelling := ascii name
  name := name
  between := []
  gap := []
  value := 0x22 :: (ascii value ++ [0x22])
  after := []
  before_blank := .nil
  denotes := .plain hname.1 hname.2
  between_blank := .nil
  gap_blank := .nil
  isValue := .string (.of_plain hvalue.1)
  after_blank := .nil

/-- The text of an object with its members in order. -/
structure ObjectText where
  before : Octets
  inner : Octets
  members : List Member
  after : Octets
  before_blank : IsBlank before
  inner_blank : IsBlank inner
  after_blank : IsBlank after

/-- What follows a member: the others, each behind a comma, and the end. -/
def behind (ms : List Member) (rest : Octets) : Octets :=
  ms.flatMap (fun m => 0x2c :: m.octets) ++ 0x7d :: rest

/-- Members with commas between them, and the end. -/
def joinedMembers : List Member → Octets → Octets
  | [], rest => 0x7d :: rest
  | m :: ms, rest => m.octets ++ behind ms rest

/-- The values of members under a name, in order. -/
def valuesOf (ms : List Member) (name : String) : List Octets :=
  (ms.filter (·.name = name)).map (·.value)

namespace ObjectText

/-- The text of an object. -/
def octets (o : ObjectText) : Octets :=
  o.before ++ 0x7b :: (o.inner ++ joinedMembers o.members o.after)

/-- The values under a name, in order. -/
def values (o : ObjectText) (name : String) : List Octets := valuesOf o.members name

end ObjectText

/-! ## Reading the members -/

theorem ends_behind {ws : Octets} (hws : IsBlank ws) (ms : List Member) (rest : Octets) :
    Ends (ws ++ behind ms rest) := by
  refine .append_of_blank hws ?_
  cases ms with
  | nil => exact .cons (by simp) _
  | cons m ms => exact .cons (.inl rfl) _

theorem nextKey_end {first : Bool} {ws : Octets} (hws : IsBlank ws) (rest : Octets) :
    nextKey first (ws ++ 0x7d :: rest) = .ok none := by
  simp [nextKey, skipSpace_append hws, skipSpace_cons (show isSpace 0x7d = false by decide)]

theorem nextKey_first {ws : Octets} (hws : IsBlank ws) (m : Member) (rest : Octets) :
    nextKey true (ws ++ (m.octets ++ rest)) = .ok (some (m.fromKey ++ rest)) := by
  simp [nextKey, Member.octets, skipSpace_append hws, skipSpace_append m.before_blank,
    skipSpace_cons (show isSpace 0x22 = false by decide)]

theorem nextKey_comma {ws : Octets} (hws : IsBlank ws) (m : Member) (rest : Octets) :
    nextKey false (ws ++ 0x2c :: (m.octets ++ rest)) = .ok (some (m.fromKey ++ rest)) := by
  simp [nextKey, Member.octets, skipSpace_append hws, skipSpace_append m.before_blank,
    skipSpace_cons (show isSpace 0x22 = false by decide),
    skipSpace_cons (show isSpace 0x2c = false by decide)]

theorem endObject_append {ws : Octets} (hws : IsBlank ws) (rest : Octets) :
    endObject (ws ++ 0x7d :: rest) = .ok rest := by
  simp [endObject, skipSpace_append hws, skipSpace_cons (show isSpace 0x7d = false by decide)]

theorem failInObject_ne_ok {α : Type} {cause : Cause} {input : Octets} {a : α} :
    failInObject cause input ≠ .ok a := by
  unfold failInObject
  split
  · simp [failAt]
  · split_ifs <;> simp [failAt]

theorem readColon_append {ws : Octets} (hws : IsBlank ws) (rest : Octets) :
    readColon (ws ++ 0x3a :: rest) = .ok rest := by
  simp [readColon, skipSpace_append hws, skipSpace_cons (show isSpace 0x3a = false by decide)]

/-- What stands under the names of a shape can be read wherever it stands. -/
def FramedIn (shape : Shape) (ms : List Member) : Prop :=
  ∀ m ∈ ms, ∀ f, shape.field? m.name = some f → FramedAt f.kind m.value

/-- The fields of a record among members: a known name must be there once, with a value of its
kind. -/
def collect (shape : Shape) : Fields → List Member → Option Fields
  | acc, [] => some acc
  | acc, m :: ms =>
    match shape.field? m.name with
    | none => collect shape acc ms
    | some f =>
      if (acc.lookup m.name).isSome then none
      else (datumOf? f.kind m.value).bind fun d => collect shape (acc ++ [(m.name, d)]) ms

section Shape

variable {shape : Shape} {fuel : Nat} {acc : Fields}

/-- One member is read: it is passed over, or refused, or its datum becomes a field. -/
theorem toOption_readFieldEntries_member {first : Bool} {input rest : Octets} {m : Member}
    (hframed : ∀ f, shape.field? m.name = some f → FramedAt f.kind m.value)
    (hkey : nextKey first input = .ok (some (m.fromKey ++ rest))) (hrest : Ends (m.after ++ rest)) :
    (readFieldEntries shape (fuel + 1) first acc input).toOption =
      match shape.field? m.name with
      | none => (readFieldEntries shape fuel false acc (m.after ++ rest)).toOption
      | some f =>
        if (acc.lookup m.name).isSome then none
        else (datumOf? f.kind m.value).bind fun d =>
          (readFieldEntries shape fuel false (acc ++ [(m.name, d)])
            (m.after ++ rest)).toOption := by
  have hname := readString_of_denotes m.denotes
    (m.between ++ 0x3a :: (m.gap ++ (m.value ++ (m.after ++ rest))))
  have hinput : m.fromKey ++ rest = m.spelling ++ 0x22 ::
      (m.between ++ 0x3a :: (m.gap ++ (m.value ++ (m.after ++ rest)))) := by
    simp [Member.fromKey]
  rw [readFieldEntries, hkey, hinput]
  simp only [bind, Except.bind, hname]
  cases hfield : shape.field? m.name with
  | none =>
    simp only [readColon_append m.between_blank, skipValue_value m.gap_blank m.isValue hrest]
  | some f =>
    have hdatum := hframed f hfield m.gap_blank hrest
    dsimp only
    split_ifs
    · exact Option.eq_none_iff_forall_ne_some.mpr fun read h =>
        failInObject_ne_ok (toOption_eq_some.mp h)
    · simp only [readColon_append m.between_blank]
      cases hread : readDatum f.kind (m.gap ++ (m.value ++ (m.after ++ rest))) with
      | error e =>
        rw [hread] at hdatum
        cases hd : datumOf? f.kind m.value with
        | none => rfl
        | some d => simp [hd, Except.toOption] at hdatum
      | ok read =>
        rw [hread] at hdatum
        obtain ⟨d, hd, heq⟩ := Option.map_eq_some_iff.mp hdatum.symm
        rw [hd, ← heq]
        rfl

/-- What is left to do when all members are read: no required field may be missing. -/
def Shape.complete (shape : Shape) (fields : Fields) : Bool := (shape.missing? fields).isNone

theorem toOption_readFieldEntries_end {first : Bool} {ws : Octets} (hws : IsBlank ws)
    (rest : Octets) :
    (readFieldEntries shape (fuel + 1) first acc (ws ++ 0x7d :: rest)).toOption =
      ((some acc).filter shape.complete).map fun fields => (fields, rest) := by
  rw [readFieldEntries, nextKey_end hws, Option.filter_some]
  simp only [bind, Except.bind]
  split
  · rename_i f hmissing
    rw [show shape.complete acc = false by rw [Shape.complete, hmissing]; rfl]
    exact Option.eq_none_iff_forall_ne_some.mpr fun read h =>
      failInObject_ne_ok (toOption_eq_some.mp h)
  · rename_i hmissing
    rw [show shape.complete acc = true by rw [Shape.complete, hmissing]; rfl, endObject_append hws]
    rfl

/-- A member is collected before those behind it. -/
theorem toOption_readFieldEntries_cons {first : Bool} {input rest : Octets} {m : Member}
    {ms : List Member} (hframed : ∀ f, shape.field? m.name = some f → FramedAt f.kind m.value)
    (hkey : nextKey first input = .ok (some (m.fromKey ++ behind ms rest)))
    (hbehind : ∀ acc, (readFieldEntries shape fuel false acc (m.after ++ behind ms rest)).toOption =
      ((collect shape acc ms).filter shape.complete).map fun fields => (fields, rest)) :
    (readFieldEntries shape (fuel + 1) first acc input).toOption =
      ((collect shape acc (m :: ms)).filter shape.complete).map fun fields => (fields, rest) := by
  rw [toOption_readFieldEntries_member hframed hkey (ends_behind m.after_blank ms rest), collect]
  cases shape.field? m.name with
  | none => exact hbehind acc
  | some f =>
    dsimp only
    split_ifs
    · rfl
    · cases datumOf? f.kind m.value with
      | none => rfl
      | some d => exact hbehind _

/-- The members behind another one are collected, by induction on them. -/
theorem toOption_readFieldEntries_behind {ms : List Member} (hframed : FramedIn shape ms)
    {ws rest : Octets} (hws : IsBlank ws) (hfuel : ms.length < fuel) :
    (readFieldEntries shape fuel false acc (ws ++ behind ms rest)).toOption =
      ((collect shape acc ms).filter shape.complete).map fun fields => (fields, rest) := by
  induction ms generalizing fuel acc ws with
  | nil =>
    obtain ⟨fuel, rfl⟩ := Nat.exists_eq_succ_of_ne_zero (Nat.ne_zero_of_lt hfuel)
    exact toOption_readFieldEntries_end hws rest
  | cons m ms ih =>
    obtain ⟨fuel, rfl⟩ := Nat.exists_eq_succ_of_ne_zero (Nat.ne_zero_of_lt hfuel)
    have hinput : ws ++ behind (m :: ms) rest = ws ++ 0x2c :: (m.octets ++ behind ms rest) := by
      simp [behind]
    have hlt : ms.length < fuel := by simpa using hfuel
    obtain ⟨hm, hms⟩ := List.forall_mem_cons.mp hframed
    rw [hinput]
    exact toOption_readFieldEntries_cons hm (nextKey_comma hws m _) fun _ =>
      ih hms m.after_blank hlt

theorem toOption_readFieldEntries {ms : List Member} (hframed : FramedIn shape ms)
    {ws rest : Octets} (hws : IsBlank ws) (hfuel : ms.length < fuel) :
    (readFieldEntries shape fuel true [] (ws ++ joinedMembers ms rest)).toOption =
      ((collect shape [] ms).filter shape.complete).map fun fields => (fields, rest) := by
  obtain ⟨fuel, rfl⟩ := Nat.exists_eq_succ_of_ne_zero (Nat.ne_zero_of_lt hfuel)
  cases ms with
  | nil => exact toOption_readFieldEntries_end hws rest
  | cons m ms =>
    have hlt : ms.length < fuel := by simpa using hfuel
    obtain ⟨hm, hms⟩ := List.forall_mem_cons.mp hframed
    exact toOption_readFieldEntries_cons hm (nextKey_first hws m _) fun _ =>
      toOption_readFieldEntries_behind hms m.after_blank hlt

theorem length_le_joinedMembers (ms : List Member) (rest : Octets) :
    ms.length ≤ (joinedMembers ms rest).length := by
  have hbehind : ∀ ms : List Member, ms.length ≤ (behind ms rest).length := by
    intro ms
    induction ms with
    | nil => exact Nat.zero_le _
    | cons m ms ih =>
      simp only [behind, List.flatMap_cons, List.length_append, List.length_cons] at ih ⊢
      omega
  cases ms with
  | nil => exact Nat.zero_le _
  | cons m ms =>
    have hlength := hbehind ms
    simp only [joinedMembers, Member.octets, List.length_append, List.length_cons]
    omega

/-- **A record of an object text** is collected from its members. -/
theorem toOption_readRecord {o : ObjectText} (hframed : FramedIn shape o.members) :
    (readWhole (readRecord shape) o.octets).toOption =
      (collect shape [] o.members).filter shape.complete := by
  have hfuel : o.members.length < (o.inner ++ joinedMembers o.members o.after).length + 1 := by
    have hlength := length_le_joinedMembers o.members o.after
    simp only [List.length_append]
    omega
  have hread : (readRecord shape o.octets).toOption =
      ((collect shape [] o.members).filter shape.complete).map fun fields => (fields, o.after) := by
    rw [readRecord, ObjectText.octets, skipSpace_append o.before_blank, skipSpace_cons (by decide)]
    exact toOption_readFieldEntries hframed o.inner_blank hfuel
  have hafter : skipSpace o.after = [] := by
    simpa [skipSpace] using skipSpace_append o.after_blank []
  rw [readWhole, toOption_bind, hread]
  cases (collect shape [] o.members).filter shape.complete with
  | none => rfl
  | some fields => simp [hafter, Except.toOption]

end Shape

/-! ## What is collected -/

theorem valuesOf_cons (m : Member) (ms : List Member) (name : String) :
    valuesOf (m :: ms) name =
      if m.name = name then m.value :: valuesOf ms name else valuesOf ms name := by
  unfold valuesOf
  split_ifs with h <;> simp [h]

section Collect

variable {shape : Shape} {acc fields : Fields} {ms : List Member} {f : Field}

theorem lookup_append_of_ne {name key : String} (h : name ≠ key) (acc : Fields) (d : Datum) :
    (acc ++ [(key, d)]).lookup name = acc.lookup name := by
  simp [List.lookup_append, lookup_cons_eq_ite, h]

theorem lookup_append_self {key : String} (h : acc.lookup key = none) (d : Datum) :
    (acc ++ [(key, d)]).lookup key = some d := by
  simp [List.lookup_append, h]

/-- A member that becomes a field, and those behind it. -/
theorem collect_cons_eq_some {m : Member} {g : Field} (hg : shape.field? m.name = some g) :
    collect shape acc (m :: ms) = some fields ↔
      acc.lookup m.name = none ∧ ∃ d, datumOf? g.kind m.value = some d ∧
        collect shape (acc ++ [(m.name, d)]) ms = some fields := by
  rw [collect, hg]
  dsimp only
  cases acc.lookup m.name with
  | none => simp [Option.bind_eq_some_iff]
  | some d => simp

/-- The field of a name is the only one with it. -/
theorem eq_of_field? {name : String} {g : Field} (hnames : shape.NamesDiffer)
    (hg : shape.field? name = some g) (hf : f ∈ shape.fields) : f.name = name ↔ f = g := by
  constructor
  · rintro rfl
    exact Option.some.inj ((hnames f hf).symm.trans hg)
  · rintro rfl
    simpa using List.find?_some hg

theorem name_ne_of_field? {name : String} (hnames : shape.NamesDiffer)
    (hnone : shape.field? name = none) (hf : f ∈ shape.fields) : name ≠ f.name := by
  rintro rfl
  cases (hnames f hf).symm.trans hnone

/-- A field that is collected has the first value under its name. -/
theorem lookup_of_collect (hnames : shape.NamesDiffer) (h : collect shape acc ms = some fields)
    (hf : f ∈ shape.fields) :
    fields.lookup f.name =
      (acc.lookup f.name).or ((valuesOf ms f.name).head?.bind (datumOf? f.kind)) := by
  induction ms generalizing acc with
  | nil =>
    cases h
    simp [valuesOf]
  | cons m ms ih =>
    cases hfield : shape.field? m.name with
    | none =>
      rw [collect, hfield] at h
      rw [ih h, valuesOf_cons, if_neg (name_ne_of_field? hnames hfield hf)]
    | some g =>
      obtain ⟨hnew, d, hd, h⟩ := (collect_cons_eq_some hfield).mp h
      rw [ih h, valuesOf_cons]
      split_ifs with hname
      · obtain rfl := (eq_of_field? hnames hfield hf).mp hname.symm
        rw [← hname, lookup_append_self hnew, hnew]
        simp [hd]
      · rw [lookup_append_of_ne (Ne.symm hname)]

/-- Members can be collected if each field is there once at most, with a value of its kind. -/
theorem exists_collect_iff (hnames : shape.NamesDiffer) :
    (∃ fields, collect shape acc ms = some fields) ↔
      ∀ f ∈ shape.fields, valuesOf ms f.name = [] ∨
        acc.lookup f.name = none ∧
          ∃ v d, valuesOf ms f.name = [v] ∧ datumOf? f.kind v = some d := by
  induction ms generalizing acc with
  | nil => simp [collect, valuesOf]
  | cons m ms ih =>
    cases hfield : shape.field? m.name with
    | none =>
      rw [collect, hfield]
      dsimp only
      rw [ih]
      refine forall₂_congr fun f hf => ?_
      rw [valuesOf_cons, if_neg (name_ne_of_field? hnames hfield hf)]
    | some g =>
      have hg : g ∈ shape.fields := List.mem_of_find?_eq_some hfield
      have hgname : g.name = m.name := (eq_of_field? hnames hfield hg).mpr rfl
      simp only [collect_cons_eq_some hfield]
      constructor
      · rintro ⟨fields, hnew, d, hd, h⟩ f hf
        have hrest := ih.mp ⟨fields, h⟩ f hf
        rw [valuesOf_cons]
        split_ifs with hname
        · obtain rfl := (eq_of_field? hnames hfield hf).mp hname.symm
          rw [← hname, lookup_append_self hnew] at hrest
          simp only [reduceCtorEq, false_and, or_false] at hrest
          rw [← hname, hrest]
          exact .inr ⟨hnew, m.value, d, rfl, hd⟩
        · rwa [lookup_append_of_ne (Ne.symm hname)] at hrest
      · intro hall
        have hself := hall g hg
        rw [valuesOf_cons, if_pos hgname.symm] at hself
        obtain ⟨hnew, v, d, hv, hd⟩ := hself.resolve_left (List.cons_ne_nil _ _)
        obtain ⟨rfl, hnone⟩ := List.cons.inj hv
        rw [hgname] at hnew
        have hcollect : ∃ fields, collect shape (acc ++ [(m.name, d)]) ms = some fields := by
          refine ih.mpr fun f hf => ?_
          have hrest := hall f hf
          rw [valuesOf_cons] at hrest
          split_ifs at hrest with hname
          · obtain rfl := (eq_of_field? hnames hfield hf).mp hname.symm
            exact .inl hnone
          · rwa [lookup_append_of_ne (Ne.symm hname)]
        obtain ⟨fields, h⟩ := hcollect
        exact ⟨fields, hnew, d, hd, h⟩

end Collect

/-! ## Records of object texts -/

section Record

variable {shape : Shape} {fields : Fields} {o : ObjectText}

theorem complete_iff :
    shape.complete fields = true ↔
      ∀ f ∈ shape.fields, f.required = true → ∃ d, fields.lookup f.name = some d := by
  simp only [Shape.complete, Shape.missing?, Option.isNone_iff_eq_none, List.find?_eq_none,
    Bool.and_eq_true, not_and, ← ne_eq, Option.ne_none_iff_exists']

theorem readRecord_eq_ok_iff (hframed : FramedIn shape o.members) :
    readWhole (readRecord shape) o.octets = .ok fields ↔
      collect shape [] o.members = some fields ∧ shape.complete fields = true := by
  rw [← toOption_eq_some, toOption_readRecord hframed, Option.filter_eq_some_iff]

/-- A field of a record is read from the first value under its name. -/
theorem lookup_of_readRecord (hframed : FramedIn shape o.members) (hnames : shape.NamesDiffer)
    (h : readWhole (readRecord shape) o.octets = .ok fields) {f : Field} (hf : f ∈ shape.fields) :
    fields.lookup f.name = (o.values f.name).head?.bind (datumOf? f.kind) :=
  lookup_of_collect hnames ((readRecord_eq_ok_iff hframed).mp h).1 hf

/-- **An object text is a record** if each field is there once with a value of its kind, or is
optional and not there. -/
theorem exists_readRecord_iff (hframed : FramedIn shape o.members) (hnames : shape.NamesDiffer) :
    (∃ fields, readWhole (readRecord shape) o.octets = .ok fields) ↔
      ∀ f ∈ shape.fields, (f.required = false ∧ o.values f.name = []) ∨
        ∃ v d, o.values f.name = [v] ∧ datumOf? f.kind v = some d := by
  simp only [readRecord_eq_ok_iff hframed]
  constructor
  · rintro ⟨fields, hcollect, hcomplete⟩ f hf
    rcases (exists_collect_iff hnames).mp ⟨fields, hcollect⟩ f hf with hnone | ⟨-, hone⟩
    · refine .inl ⟨?_, hnone⟩
      have hlookup := lookup_of_collect hnames hcollect hf
      rw [hnone] at hlookup
      by_contra hrequired
      obtain ⟨d, hd⟩ := complete_iff.mp hcomplete f hf (by simpa using hrequired)
      rw [hd] at hlookup
      cases hlookup
    · exact .inr hone
  · intro hall
    obtain ⟨fields, hcollect⟩ : ∃ fields, collect shape [] o.members = some fields :=
      (exists_collect_iff hnames).mpr fun f hf =>
        (hall f hf).imp And.right fun hone => ⟨rfl, hone⟩
    refine ⟨fields, hcollect, complete_iff.mpr fun f hf hrequired => ?_⟩
    rcases hall f hf with ⟨hoptional, -⟩ | ⟨v, d, hv, hd⟩
    · rw [hoptional] at hrequired
      cases hrequired
    · have hlookup := lookup_of_collect hnames hcollect hf
      rw [show valuesOf o.members f.name = [v] from hv] at hlookup
      exact ⟨d, hlookup.trans hd⟩

end Record

/-! ## Records of strings -/

/-- A name is there once, with a string of these characters. -/
def ObjectText.Gives (o : ObjectText) (name s : String) : Prop :=
  ∃ v, o.values name = [v] ∧ Spells v s

theorem ObjectText.isValue_of_values {o : ObjectText} {name : String} {v : Octets}
    (h : v ∈ o.values name) : IsValue v := by
  obtain ⟨m, -, rfl⟩ := List.mem_map.mp h
  exact m.isValue

theorem ObjectText.Gives.unique {o : ObjectText} {name s t : String} (hs : o.Gives name s)
    (ht : o.Gives name t) : s = t := by
  obtain ⟨v, hv, hs⟩ := hs
  obtain ⟨v', hv', ht⟩ := ht
  obtain rfl := (List.cons.inj (hv.symm.trans hv')).1
  exact hs.unique ht

/-- Values in another order give the same. -/
theorem ObjectText.gives_congr {o o' : ObjectText} {name s : String}
    (h : (o.values name).Perm (o'.values name)) : o.Gives name s ↔ o'.Gives name s := by
  refine exists_congr fun v => and_congr_left fun _ => ?_
  rw [← List.perm_singleton, ← List.perm_singleton]
  exact ⟨h.symm.trans, h.trans⟩

/-- All fields of a shape are strings, under different names. -/
structure Shape.Textual (s : Shape) : Prop where
  kinds : ∀ f ∈ s.fields, f.kind = .text
  names : s.NamesDiffer

section Text

variable {shape : Shape} {fields : Fields} {o : ObjectText}

theorem Shape.Textual.framed (htextual : shape.Textual) {ms : List Member} :
    FramedIn shape ms := by
  intro m _ f hf
  rw [htextual.kinds f (List.mem_of_find?_eq_some hf)]
  exact framedAt_text m.isValue

/-- A record of strings is there if each name is there once with a string, or is optional and not
there. -/
theorem exists_readRecord_text_iff (htextual : shape.Textual) :
    (∃ fields, readWhole (readRecord shape) o.octets = .ok fields) ↔
      ∀ f ∈ shape.fields, (f.required = false ∧ o.values f.name = []) ∨ ∃ s, o.Gives f.name s := by
  rw [exists_readRecord_iff htextual.framed htextual.names]
  refine forall₂_congr fun f hf => or_congr_right ?_
  rw [htextual.kinds f hf]
  constructor
  · rintro ⟨v, d, hv, hd⟩
    have hvalue := ObjectText.isValue_of_values (hv ▸ List.mem_singleton_self v)
    obtain ⟨s, hs, -⟩ := (datumOf?_text hvalue).mp hd
    exact ⟨s, v, hv, hs⟩
  · rintro ⟨s, v, hv, hs⟩
    have hvalue := ObjectText.isValue_of_values (hv ▸ List.mem_singleton_self v)
    exact ⟨v, .text s, hv, (datumOf?_text hvalue).mpr ⟨s, hs, rfl⟩⟩

/-- The text of a field of a record is what its name gives. -/
theorem text?_of_readRecord (htextual : shape.Textual)
    (h : readWhole (readRecord shape) o.octets = .ok fields) {f : Field} (hf : f ∈ shape.fields)
    {s : String} :
    fields.text? f.name = some s ↔ o.Gives f.name s := by
  have hlookup := lookup_of_readRecord htextual.framed htextual.names h hf
  rw [htextual.kinds f hf] at hlookup
  unfold Fields.text?
  rcases (exists_readRecord_text_iff htextual).mp ⟨fields, h⟩ f hf with
    ⟨-, hnone⟩ | ⟨t, v, hv, ht⟩
  · rw [hnone] at hlookup
    simp [hlookup, ObjectText.Gives, hnone]
  · have hvalue := ObjectText.isValue_of_values (hv ▸ List.mem_singleton_self v)
    rw [hv, List.head?_cons, Option.bind_some, (datumOf?_text hvalue).mpr ⟨t, ht, rfl⟩] at hlookup
    rw [hlookup]
    constructor
    · rintro hsome
      obtain rfl := Option.some.inj hsome
      exact ⟨v, hv, ht⟩
    · intro hs
      rw [ObjectText.Gives.unique ⟨v, hv, ht⟩ hs]

/-- What is built from a record of strings. -/
theorem readRecordWith_eq_ok_iff {α : Type} {build : Fields → Option α} {a : α} :
    readRecordWith shape build o.octets = .ok a ↔
      ∃ fields, readWhole (readRecord shape) o.octets = .ok fields ∧ build fields = some a := by
  unfold readRecordWith
  rw [bind_eq_ok]
  refine exists_congr fun fields => and_congr_right fun _ => ?_
  cases build fields <;> simp [failAt]

end Text

end MarketFeed.Json
