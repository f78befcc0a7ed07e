import Mathlib.Tactic.MkIffOfInductiveProp
import MarketFeed.Proofs.Decimal.RoundTrip
import MarketFeed.Proofs.Json.RoundTrip

/-!
# Written data and records of them

What a field of a record is written as, and that a field of its kind reads it back wherever the
value stands: strings and names through their escapes, integers of 64 bits through their digits,
decimals through their exact texts, and a text that is not there through `null`. So a record is
read back from every object text that has the written values under the names of its fields, in any
order and among any other members.

* `Datum.value`, `Datum.readsAs`: the value that a datum is written as, and reading it.
* `ObjectText.Holds`: the object texts that have some entries among their members.
* `readRecord_of_holds`: the record of such a text.
* `ComesBack`, `comesBack_of_data`: records that are read back.
-/

namespace MarketFeed.Json

/-- The kind of the fields that hold a datum. -/
def Datum.kind : Datum → Kind
  | .text _ => .text
  | .int64 _ => .int64
  | .decimal _ => .decimal
  | .provider _ => .provider
  | .optionalText _ => .optionalText

/-- The value that a datum is written as. -/
def Datum.value : Datum → Value
  | .text s => .string s
  | .int64 i => .int i.toInt
  | .decimal d => .string d.render
  | .provider p => .string p.name
  | .optionalText none => .null
  | .optionalText (some s) => .string s

/-- Reading a value as one of a kind gives a datum, whatever stands around the value. -/
def ReadsAs (kind : Kind) (v : Octets) (d : Datum) : Prop :=
  ∀ ⦃gap rest : Octets⦄, IsBlank gap → Ends rest →
    readDatum kind (gap ++ (v ++ rest)) = .ok (d, rest)

section ReadsAs

variable {kind : Kind} {v : Octets} {d : Datum}

theorem ReadsAs.datumOf? (h : ReadsAs kind v d) : datumOf? kind v = some d := by
  have hread := h .nil .nil
  rw [List.nil_append, List.append_nil] at hread
  rw [Json.datumOf?, hread]
  rfl

theorem ReadsAs.framedAt (h : ReadsAs kind v d) : FramedAt kind v := by
  intro gap rest hgap hrest
  rw [h hgap hrest, h.datumOf?]
  rfl

end ReadsAs

/-! ## Strings -/

theorem octets_string (s : String) : (Value.string s).octets = 0x22 :: (bodyOf s ++ [0x22]) := by
  rw [Value.octets, Value.written, octetsOf_writtenString]

/-- A reader that stands before a written string gets to it over the blanks. -/
theorem skipSpace_string {gap : Octets} (hgap : IsBlank gap) (s : String) (rest : Octets) :
    skipSpace (gap ++ ((Value.string s).octets ++ rest)) = 0x22 :: (bodyOf s ++ 0x22 :: rest) := by
  rw [skipSpace_append hgap, octets_string, List.cons_append, skipSpace_cons (by decide),
    List.append_assoc, List.singleton_append]

theorem readString_body (s : String) (rest : Octets) :
    readString (bodyOf s ++ 0x22 :: rest) = .ok (s, rest) :=
  readString_of_denotes (denotes_bodyOf s) rest

theorem readText_string {gap : Octets} (hgap : IsBlank gap) (s : String) (rest : Octets) :
    readText (gap ++ ((Value.string s).octets ++ rest)) = .ok (s, rest) := by
  simp only [readText, readTextAs, skipSpace_string hgap, ↓reduceIte, readString_body]

theorem readsAs_text (s : String) : ReadsAs .text (Value.string s).octets (.text s) := by
  intro gap rest hgap _
  rw [readDatum, readText_string hgap]
  rfl

theorem readsAs_optionalText (s : Option String) :
    ReadsAs .optionalText (Datum.optionalText s).value.octets (.optionalText s) := by
  intro gap rest hgap _
  cases s with
  | none =>
    have hnull : (Datum.optionalText none).value.octets = 0x6e :: ascii "ull" := rfl
    have hread : readOptionalText (gap ++ ((Datum.optionalText none).value.octets ++ rest)) =
        .ok (none, rest) := by
      rw [readOptionalText, skipSpace_append hgap, hnull, List.cons_append,
        skipSpace_cons (by decide)]
      simp only [readIdent_append, bind, Except.bind]
    rw [readDatum, hread]
    rfl
  | some s =>
    have hread : readOptionalText (gap ++ ((Value.string s).octets ++ rest)) =
        .ok (some s, rest) := by
      rw [readOptionalText, skipSpace_string hgap, readText_string hgap]
      rfl
    rw [readDatum, Datum.value, hread]
    rfl

/-! ## Providers and decimals -/

theorem providerOfText_name (p : Provider) : providerOfText p.name = .ok p := by
  cases p <;> rfl

theorem readsAs_provider (p : Provider) :
    ReadsAs .provider (Value.string p.name).octets (.provider p) := by
  intro gap rest hgap _
  have hread : readProvider (gap ++ ((Value.string p.name).octets ++ rest)) = .ok (p, rest) := by
    simp only [readProvider, skipSpace_string hgap, ↓reduceIte, readString_body, bind, Except.bind,
      providerOfText_name, placed]
  rw [readDatum, hread]
  rfl

/-- The text of a decimal has no digits to be rounded away. -/
theorem decimalOfText_render (d : Decimal) : decimalOfText d.render = .ok d := by
  rw [decimalOfText, Decimal.readRounded, Decimal.readPlain_render]

theorem readsAs_decimal (d : Decimal) :
    ReadsAs .decimal (Value.string d.render).octets (.decimal d) := by
  intro gap rest hgap _
  have hread : readDecimal (gap ++ ((Value.string d.render).octets ++ rest)) = .ok (d, rest) := by
    simp [readDecimal, skipSpace_string hgap, isDigit, readString_body, bind, Except.bind,
      decimalOfText_render, placed]
  rw [readDatum, hread]
  rfl

/-! ## Integers -/

/-- An integer of 64 bits is a number that is written as what it is, and it is read from it. -/
theorem ofInt_toInt (i : Int64) :
    (Number.ofInt i.toInt).IsWritten ∧ (Number.ofInt i.toInt).int64? = .ok i := by
  have hlo := i.le_toInt
  have hhi := i.toInt_lt
  have hmax : Int64.maxValue.toInt = 2 ^ 63 - 1 := rfl
  have hsize : UInt64.size = 2 ^ 64 := rfl
  unfold Number.ofInt
  split
  · rename_i hneg
    refine ⟨?_, congrArg Except.ok (Int64.ofInt_toInt i)⟩
    have hwritten : (Number.negative (-(i.toInt.natAbs : Int))).IsWritten :=
      .negative (by omega) (by omega)
    rwa [show -(i.toInt.natAbs : Int) = i.toInt by omega] at hwritten
  · rename_i hneg
    obtain ⟨n, hn⟩ := Int.eq_ofNat_of_zero_le (Int.not_lt.mp hneg)
    rw [hn, Int.toNat_natCast]
    refine ⟨.natural (by omega), ?_⟩
    rw [Number.int64?, if_pos (by omega)]
    refine congrArg Except.ok (Int64.toInt_inj.mp ?_)
    rw [Int64.toInt_ofNat_of_lt (by omega), hn]

theorem readInt64_number {n : Number} {i : Int64} (hn : n.IsWritten) (hi : n.int64? = .ok i)
    {gap rest : Octets} (hgap : IsBlank gap) (hrest : Ends rest) :
    readInt64 (gap ++ ((Value.number n).octets ++ rest)) = .ok (i, rest) := by
  obtain ⟨positive, ds, hds, hwhole, hread⟩ := readNumber_written hn hrest
  rw [Value.octets, Value.written, hds, readInt64, skipSpace_append hgap]
  cases positive with
  | false =>
    rw [if_neg Bool.false_ne_true, List.cons_append, skipSpace_cons (by decide)]
    simp [hread, hi, bind, Except.bind]
  | true =>
    obtain ⟨d, more, rfl, hd, -⟩ := hwhole.1.exists_cons
    have hminus : d ≠ 0x2d := by
      rintro rfl
      cases hd
    rw [List.cons_append] at hread
    rw [if_pos rfl, List.cons_append, skipSpace_cons (isSpace_of_isDigit hd)]
    simp [hminus, hd, hread, hi, bind, Except.bind]

theorem readsAs_int64 (i : Int64) : ReadsAs .int64 (Value.int i.toInt).octets (.int64 i) := by
  intro gap rest hgap hrest
  obtain ⟨hwritten, hint⟩ := ofInt_toInt i
  rw [readDatum, Value.int, readInt64_number hwritten hint hgap hrest]
  rfl

/-! ## All data -/

/-- **A datum that was written** is read back by the fields of its kind. -/
theorem Datum.readsAs (d : Datum) : ReadsAs d.kind d.value.octets d := by
  cases d with
  | text s => exact readsAs_text s
  | int64 i => exact readsAs_int64 i
  | decimal d => exact readsAs_decimal d
  | provider p => exact readsAs_provider p
  | optionalText s => exact readsAs_optionalText s

/-- What a datum is written as has a text of its own. -/
theorem Datum.fits (d : Datum) : d.value.Fits 0 := by
  match d with
  | .text s => exact .string s
  | .int64 i => exact .number (ofInt_toInt i).1
  | .decimal d => exact .string d.render
  | .provider p => exact .string p.name
  | .optionalText none => exact .null
  | .optionalText (some s) => exact .string s

/-! ## Records of data -/

/-- The entries that data are written as. -/
def Fields.written (data : Fields) : List (String × Value) := data.map fun e => (e.1, e.2.value)

/-- The names of data with their kinds. -/
def Fields.kinds (data : Fields) : List (String × Kind) := data.map fun e => (e.1, e.2.kind)

/-- Data of some kinds make up a record: each one is for a field of its own, and none is missing
that is required. -/
@[mk_iff]
structure Shape.Admits (s : Shape) (kinds : List (String × Kind)) : Prop where
  differ : s.NamesDiffer
  nodup : (kinds.map Prod.fst).Nodup
  known : ∀ e ∈ kinds, ∃ f ∈ s.fields, f.name = e.1 ∧ f.kind = e.2
  complete : ∀ f ∈ s.fields, f.required = true → f.name ∈ kinds.map Prod.fst

instance (s : Shape) (kinds : List (String × Kind)) : Decidable (s.Admits kinds) :=
  decidable_of_iff _ (Shape.admits_iff s kinds).symm

/-- The members of an object text whose names belong to a shape. -/
def ObjectText.known (o : ObjectText) (s : Shape) : List (String × Octets) :=
  (o.members.filter fun m => (s.field? m.name).isSome).map fun m => (m.name, m.value)

/-- An object text has these entries among its members, in any order, and no other members whose
names belong to the shape. -/
def ObjectText.Holds (o : ObjectText) (s : Shape) (entries : List (String × Value)) : Prop :=
  (o.known s).Perm (entries.map fun e => (e.1, e.2.octets))

/-- Where no key is repeated, what is under a key is what a look-up finds. -/
theorem filter_key_eq_lookup {α : Type} {entries : List (String × α)}
    (h : (entries.map Prod.fst).Nodup) (key : String) :
    (entries.filter (·.1 = key)).map Prod.snd = (entries.lookup key).toList := by
  induction entries with
  | nil => rfl
  | cons e entries ih =>
    obtain ⟨name, a⟩ := e
    obtain ⟨hnew, hnodup⟩ := List.nodup_cons.mp h
    by_cases hkey : name = key
    · subst hkey
      have hnone : entries.filter (·.1 = name) = [] := List.filter_eq_nil_iff.mpr fun x hx => by
        have hne : x.1 ≠ name := fun heq => hnew (List.mem_map.mpr ⟨x, hx, heq⟩)
        simpa using hne
      simp [hnone]
    · rw [List.filter_cons_of_neg (by simpa using hkey), ih hnodup, lookup_cons_eq_ite,
        if_neg (Ne.symm hkey)]

section Record

variable {s : Shape} {data : Fields} {o : ObjectText}

/-- A datum is of the kind of its field. -/
theorem Shape.Admits.kind_eq (h : s.Admits data.kinds) {f : Field} (hf : f ∈ s.fields) {d : Datum}
    (hd : data.lookup f.name = some d) : d.kind = f.kind := by
  obtain ⟨before, after, hdata, -⟩ := List.lookup_eq_some_iff.mp hd
  have hmem : (f.name, d.kind) ∈ data.kinds := by simp [Fields.kinds, hdata]
  obtain ⟨g, hg, hname, hkind⟩ := h.known _ hmem
  obtain rfl : g = f := (eq_of_field? h.differ (h.differ f hf) hg).mp hname
  exact hkind.symm

/-- What a field is read from is what its datum is written as. -/
theorem ObjectText.Holds.values (h : o.Holds s data.written) (hadmits : s.Admits data.kinds)
    {f : Field} (hf : f ∈ s.fields) :
    o.values f.name = ((data.lookup f.name).map fun d => d.value.octets).toList := by
  have hfilter : o.members.filter (·.name = f.name) =
      (o.members.filter fun m => (s.field? m.name).isSome).filter (·.name = f.name) := by
    rw [List.filter_filter]
    refine List.filter_congr fun m _ => ?_
    by_cases hm : m.name = f.name
    · simp [hm, hadmits.differ f hf]
    · simp [hm]
  have hvalues : o.values f.name = ((o.known s).filter (·.1 = f.name)).map Prod.snd := by
    rw [ObjectText.values, valuesOf, hfilter, ObjectText.known, List.filter_map, List.map_map]
    rfl
  have hwritten : ((data.written.map fun e => (e.1, e.2.octets)).filter (·.1 = f.name)).map
      Prod.snd = ((data.lookup f.name).map fun d => d.value.octets).toList := by
    have hnodup : (data.map Prod.fst).Nodup := by
      simpa [Fields.kinds, Function.comp_def] using hadmits.nodup
    have hlookup := congrArg (List.map fun d => d.value.octets)
      (filter_key_eq_lookup hnodup f.name)
    rw [Option.toList_map, ← hlookup]
    simp [Fields.written, List.filter_map, Function.comp_def]
  have hperm := (h.filter (·.1 = f.name)).map Prod.snd
  rw [← hvalues, hwritten] at hperm
  cases hd : data.lookup f.name with
  | none =>
    rw [hd] at hperm
    exact hperm.eq_nil
  | some d =>
    rw [hd] at hperm
    exact List.perm_singleton.mp hperm

/-- What stands under the names of the fields can be read wherever it stands. -/
theorem ObjectText.Holds.framed (h : o.Holds s data.written) (hadmits : s.Admits data.kinds) :
    FramedIn s o.members := by
  intro m hm f hf
  have hmem : f ∈ s.fields := List.mem_of_find?_eq_some hf
  have hname : f.name = m.name := (eq_of_field? hadmits.differ hf hmem).mpr rfl
  have hvalue : m.value ∈ o.values f.name :=
    List.mem_map_of_mem (List.mem_filter.mpr ⟨hm, by simpa using hname.symm⟩)
  rw [h.values hadmits hmem, Option.mem_toList, Option.map_eq_some_iff] at hvalue
  obtain ⟨d, hd, hv⟩ := hvalue
  rw [← hv, ← hadmits.kind_eq hmem hd]
  exact d.readsAs.framedAt

/-- **A record of data** is read back from every object text that has the data in it. -/
theorem readRecord_of_holds (h : o.Holds s data.written) (hadmits : s.Admits data.kinds) :
    ∃ fields, readWhole (readRecord s) o.octets = .ok fields ∧
      ∀ f ∈ s.fields, fields.lookup f.name = data.lookup f.name := by
  have hframed := h.framed hadmits
  have hread : ∀ {f : Field}, f ∈ s.fields → ∀ {d : Datum}, data.lookup f.name = some d →
      datumOf? f.kind d.value.octets = some d := by
    intro f hf d hd
    rw [← hadmits.kind_eq hf hd]
    exact d.readsAs.datumOf?
  have hexists : ∃ fields, readWhole (readRecord s) o.octets = .ok fields := by
    refine (exists_readRecord_iff hframed hadmits.differ).mpr fun f hf => ?_
    rw [h.values hadmits hf]
    cases hd : data.lookup f.name with
    | none =>
      refine .inl ⟨?_, rfl⟩
      by_contra hrequired
      have hmem := hadmits.complete f hf (by simpa using hrequired)
      rw [Fields.kinds, List.map_map] at hmem
      obtain ⟨e, he, hname⟩ := List.mem_map.mp hmem
      exact absurd hname.symm (by simpa using List.lookup_eq_none_iff.mp hd e he)
    | some d => exact .inr ⟨_, d, rfl, hread hf hd⟩
  obtain ⟨fields, hfields⟩ := hexists
  refine ⟨fields, hfields, fun f hf => ?_⟩
  rw [lookup_of_readRecord hframed hadmits.differ hfields hf, h.values hadmits hf]
  cases hd : data.lookup f.name with
  | none => rfl
  | some d => exact hread hf hd

end Record

/-! ## Reading back -/

/-- The entries of an object. -/
def Value.entries : Value → List (String × Value)
  | .object entries => entries
  | _ => []

/-- A record is read back from the text of a value, and from every object text that has the entries
of the value among its members. -/
structure ComesBack {α : Type} (s : Shape) (read : Octets → Except Failure α) (v : Value) (a : α) :
    Prop where
  written : read (Text.encode v.render) = .ok a
  rearranged : ∀ o : ObjectText, o.Holds s v.entries → read o.octets = .ok a

/-- The text of an object has some entries in it, if these are its entries with names of the shape
in another order. -/
theorem holds_ofEntries {s : Shape} {entries written : List (String × Value)}
    (hvalues : ∀ e ∈ entries, IsValue e.2.octets)
    (hperm : (entries.filter fun e => (s.field? e.1).isSome).Perm written) :
    (ObjectText.ofEntries entries hvalues).Holds s written := by
  have hmembers : (ObjectText.ofEntries entries hvalues).members.map
      (fun m => (m.name, m.value)) = entries.map fun e => (e.1, e.2.octets) := by
    rw [ObjectText.ofEntries, List.map_pmap]
    exact List.pmap_eq_map (f := fun e => (e.1, e.2.octets)) hvalues
  have hknown := congrArg (List.filter fun e => (s.field? e.1).isSome) hmembers
  rw [List.filter_map, List.filter_map] at hknown
  exact (List.Perm.of_eq hknown).trans (hperm.map _)

/-- What is built from the fields of a shape does not depend on anything else. -/
def Shape.Determines {α : Type} (s : Shape) (build : Fields → Option α) : Prop :=
  ∀ ⦃fields data : Fields⦄, (∀ f ∈ s.fields, fields.lookup f.name = data.lookup f.name) →
    build fields = build data

section ReadBack

variable {α : Type} {s : Shape} {data : Fields} {build : Fields → Option α} {a : α}

/-- What is built from data is read from every object text that has the data in it. -/
theorem readRecordWith_of_holds {o : ObjectText} (h : o.Holds s data.written)
    (hadmits : s.Admits data.kinds) (hdetermines : s.Determines build)
    (hbuild : build data = some a) : readRecordWith s build o.octets = .ok a := by
  obtain ⟨fields, hread, hlookup⟩ := readRecord_of_holds h hadmits
  exact readRecordWith_eq_ok_iff.mpr ⟨fields, hread, (hdetermines hlookup).trans hbuild⟩

/-- **What is built from data comes back** from the object that the data are written as. -/
theorem comesBack_of_data (hadmits : s.Admits data.kinds) (hdetermines : s.Determines build)
    (hbuild : build data = some a) :
    ComesBack s (readRecordWith s build) (.object data.written) a := by
  have hvalues : ∀ e ∈ data.written, IsValue e.2.octets := by
    intro e he
    obtain ⟨x, -, rfl⟩ := List.mem_map.mp he
    exact x.2.fits.isValue
  have hknown : data.written.filter (fun e => (s.field? e.1).isSome) = data.written := by
    refine List.filter_eq_self.mpr fun e he => ?_
    obtain ⟨x, hx, rfl⟩ := List.mem_map.mp he
    obtain ⟨f, hf, hname, -⟩ := hadmits.known (x.1, x.2.kind) (List.mem_map.mpr ⟨x, hx, rfl⟩)
    rw [← hname, hadmits.differ f hf]
    rfl
  refine ⟨?_, fun o ho => readRecordWith_of_holds ho hadmits hdetermines hbuild⟩
  rw [encode_render, ← ObjectText.octets_ofEntries hvalues]
  exact readRecordWith_of_holds (holds_ofEntries hvalues (.of_eq hknown)) hadmits hdetermines
    hbuild

end ReadBack

end MarketFeed.Json
