import MarketFeed.Proofs.Exchange.Drafts
import MarketFeed.Proofs.Json.Ordered
import MarketFeed.Proofs.Market.Respelling

/-!
# Messages with many entries

A message of Osmosis is an object with an entry per pair. What an entry brings is a matter of its
own key and value: an object under the spelling of a pair is a ticker, a list holds candles, and
whatever is not well-formed is left out. A message brings what its entries bring, one after the
other, so that an invalid part costs nothing but itself.

* `updatesOf`: what an entry brings, from its values alone.
* `decodeEntries_eq_updates`: entries bring what each of them does, in their order.
* `decode_entries`: the message as a whole, and what replacing a part of it changes.
-/

namespace MarketFeed.Osmosis

open Json

/-! ## What an entry brings -/

/-- The text under a key. -/
def textAt? (entries : List (String × Value)) (name : String) : Option String :=
  match entries.lookup name with
  | some (.string s) => some s
  | _ => none

/-- The integer of 64 bits under a key. -/
def int64At? (entries : List (String × Value)) (name : String) : Option Int64 :=
  match entries.lookup name with
  | some (.number n) => n.int64?.toOption
  | _ => none

/-- The ticker of an object: its price and its volume are texts that read as decimals. -/
def ticker? (fields : List (String × Value)) : Option Ticker := do
  let price ← textAt? fields "Price"
  let volume ← textAt? fields "Volume"
  some ⟨← (Decimal.read price).toOption, ← (Decimal.read volume).toOption⟩

/-- The texts and the time of a candle: in an object, or as a list of the three. -/
def candleParts? : Value → Option (String × String × Int64)
  | .object fields => do
    some (← textAt? fields "Close", ← textAt? fields "Volume", ← int64At? fields "EndTime")
  | .array [.string close, .string volume, .number n] =>
    n.int64?.toOption.map fun endTime => (close, volume, endTime)
  | _ => none

/-- The candle of a value: its parts are there and its texts read as decimals. -/
def candle? (v : Value) : Option Candle := do
  let (close, volume, endTime) ← candleParts? v
  some ⟨← (Decimal.read close).toOption, ← (Decimal.read volume).toOption, endTime⟩

/-- What an entry brings: under the spelling of a pair at most one ticker or any number of candles,
else nothing. -/
def updatesOf (entry : String × Value) : List Update :=
  match Pair.ofSeparated? separator entry.1, entry.2 with
  | some pair, .object fields => ((ticker? fields).map fun t => .ticker pair.symbol t).toList
  | some pair, .array items => (items.filterMap candle?).map fun c => .candle pair.symbol c
  | _, _ => []

/-! ## Records of tickers and candles -/

section Record

variable {shape : Shape} {entries : List (String × Value)} {fields : Fields}

theorem text?_of_recordOfValue (hnames : shape.NamesDiffer)
    (h : recordOfValue shape (.object entries) = .ok fields) {name : String}
    (hf : ⟨name, .text, true⟩ ∈ shape.fields) : fields.text? name = textAt? entries name := by
  have hlookup := lookup_of_recordOfValue hnames h hf
  unfold Fields.text? textAt?
  rw [hlookup]
  cases entries.lookup name with
  | none => rfl
  | some v => cases v <;> rfl

theorem int64?_of_recordOfValue (hnames : shape.NamesDiffer)
    (h : recordOfValue shape (.object entries) = .ok fields) {name : String}
    (hf : ⟨name, .int64, true⟩ ∈ shape.fields) : fields.int64? name = int64At? entries name := by
  have hlookup := lookup_of_recordOfValue hnames h hf
  unfold Fields.int64? int64At?
  rw [hlookup]
  cases entries.lookup name with
  | none => rfl
  | some v =>
    cases v with
    | number n => cases hn : n.int64? <;> simp [Value.datum, Value.int64, hn, Except.map,
        Except.toOption]
    | _ => rfl

theorem accepts_of_textAt? {name s : String} (h : textAt? entries name = some s) :
    Field.Accepts ⟨name, .text, true⟩ (entries.lookup name) := by
  unfold textAt? at h
  split at h
  · rename_i hlookup
    rw [hlookup]
    exact ⟨_, rfl⟩
  · cases h

theorem accepts_of_int64At? {name : String} {i : Int64} (h : int64At? entries name = some i) :
    Field.Accepts ⟨name, .int64, true⟩ (entries.lookup name) := by
  unfold int64At? at h
  split at h
  · rename_i n hlookup
    rw [hlookup]
    exact ⟨.int64 i, map_eq_ok.mpr ⟨i, toOption_eq_some.mp h, rfl⟩⟩
  · cases h

/-- What is built from a record, as an option. -/
theorem toOption_recordOfValueWith {α : Type} {build : Fields → Option α} {v : Value}
    {built : Option α} (hsome : ∀ fields, recordOfValue shape v = .ok fields → build fields = built)
    (hnone : (¬ ∃ fields, recordOfValue shape v = .ok fields) → built = none) :
    (recordOfValueWith shape build v).toOption = built := by
  unfold recordOfValueWith
  cases h : recordOfValue shape v with
  | error cause =>
    rw [hnone (by simp [h])]
    rfl
  | ok fields =>
    rw [← hsome fields h]
    cases hbuild : build fields <;> simp [bind, Except.bind, hbuild, Except.toOption]

end Record

theorem tickerShape_namesDiffer : tickerShape.NamesDiffer := by decide

theorem candleShape_namesDiffer : candleShape.NamesDiffer := by decide

theorem toOption_refused {α : Type} (r : Except Cause α) : (refused r).toOption = r.toOption := by
  cases r <;> rfl

/-- The ticker of an object is what its values say. -/
theorem toOption_tickerOfValue {fields : List (String × Value)} (hkeys : KeysIncrease fields) :
    (tickerOfValue (.object fields)).toOption = ticker? fields := by
  have hrecord : (recordOfValueWith tickerShape (fun f => do
      some (← f.text? "Price", ← f.text? "Volume")) (.object fields)).toOption =
      (do some (← textAt? fields "Price", ← textAt? fields "Volume")) := by
    refine toOption_recordOfValueWith (fun read h => ?_) fun hnot => ?_
    · rw [text?_of_recordOfValue tickerShape_namesDiffer h (by decide),
        text?_of_recordOfValue tickerShape_namesDiffer h (by decide)]
    · refine Option.eq_none_iff_forall_ne_some.mpr fun texts hsome => hnot ?_
      simp only [Option.bind_eq_bind, Option.bind_eq_some_iff] at hsome
      obtain ⟨price, hprice, volume, hvolume, -⟩ := hsome
      refine (exists_recordOfValue_iff tickerShape_namesDiffer hkeys).mpr ?_
      simp only [tickerShape, List.forall_mem_cons]
      exact ⟨accepts_of_textAt? hprice, accepts_of_textAt? hvolume, List.forall_mem_nil _⟩
  unfold tickerOfValue ticker?
  rw [toOption_bind, toOption_refused, hrecord]
  simp only [toOption_bind, Option.bind_eq_bind, Option.bind_assoc, Option.bind_some]
  rfl

/-- The parts of a candle in an object. -/
theorem toOption_candleRecord_object {fields : List (String × Value)}
    (hkeys : KeysIncrease fields) :
    (recordOfValueWith candleShape (fun f => do
        some (← f.text? "Close", ← f.text? "Volume", ← f.int64? "EndTime"))
      (.object fields)).toOption = candleParts? (.object fields) := by
  refine toOption_recordOfValueWith (fun read h => ?_) fun hnot => ?_
  · rw [text?_of_recordOfValue candleShape_namesDiffer h (by decide),
      text?_of_recordOfValue candleShape_namesDiffer h (by decide),
      int64?_of_recordOfValue candleShape_namesDiffer h (by decide)]
    rfl
  · refine Option.eq_none_iff_forall_ne_some.mpr fun parts hsome => hnot ?_
    simp only [candleParts?, Option.bind_eq_bind, Option.bind_eq_some_iff] at hsome
    obtain ⟨close, hclose, volume, hvolume, endTime, hendTime, -⟩ := hsome
    refine (exists_recordOfValue_iff candleShape_namesDiffer hkeys).mpr ?_
    simp only [candleShape, List.forall_mem_cons]
    exact ⟨accepts_of_textAt? hclose, accepts_of_textAt? hvolume, accepts_of_int64At? hendTime,
      List.forall_mem_nil _⟩

/-- The parts of a candle in a list. -/
theorem toOption_candleRecord_array (items : List Value) :
    (recordOfValueWith candleShape (fun f => do
      some (← f.text? "Close", ← f.text? "Volume", ← f.int64? "EndTime")) (.array items)).toOption =
      candleParts? (.array items) := by
  rcases items with - | ⟨a, - | ⟨b, - | ⟨c, - | ⟨d, more⟩⟩⟩⟩
  · rfl
  · cases a <;> rfl
  · cases a <;> cases b <;> rfl
  · cases a with
    | string close =>
      cases b with
      | string volume =>
        cases c with
        | number n =>
          cases hn : n.int64? <;> simp [recordOfValueWith, recordOfValue, candleShape,
            fieldsOfItems, Value.datum, Value.text, Value.int64, hn, candleParts?, Except.map,
            Except.toOption, bind, Except.bind, Fields.text?, Fields.int64?, List.lookup_cons]
        | _ => rfl
      | _ => rfl
    | _ => rfl
  · -- Three values may be read, but a list of more is refused.
    refine toOption_recordOfValueWith (fun fields h => ?_) fun _ => by simp [candleParts?]
    obtain ⟨read, -, h⟩ := bind_eq_ok.mp h
    rw [if_pos (by simp [candleShape])] at h
    cases h

/-- The candle of a value is what the value says. -/
theorem toOption_candleOfValue {v : Value} (h : v.Ordered) :
    (candleOfValue v).toOption = candle? v := by
  have hrecord : (recordOfValueWith candleShape (fun f => do
      some (← f.text? "Close", ← f.text? "Volume", ← f.int64? "EndTime")) v).toOption =
      candleParts? v := by
    cases h with
    | object hkeys _ => exact toOption_candleRecord_object hkeys
    | array _ => exact toOption_candleRecord_array _
    | _ => rfl
  unfold candleOfValue candle?
  rw [toOption_bind, toOption_refused, hrecord]
  simp only [toOption_bind]
  rfl

/-! ## What a message brings -/

theorem finished_entryDrafts {entry : String × Value} (h : entry.2.Ordered) :
    finished (entryDrafts entry) = updatesOf entry := by
  obtain ⟨key, value⟩ := entry
  unfold finished entryDrafts updatesOf
  dsimp only at h ⊢
  cases Pair.ofSeparated? separator key with
  | none => rfl
  | some pair =>
    cases h with
    | @object fields hkeys _ =>
      have hticker : (tickerDraft pair.symbol (.object fields) >>= Draft.finish).toOption =
          (ticker? fields).map fun t => Update.ticker pair.symbol t := by
        rw [← ticker_eq, toOption_map, toOption_tickerOfValue hkeys]
      dsimp only
      rw [List.filterMap_cons, hticker]
      cases ticker? fields <;> rfl
    | @array items hitems =>
      have hcandle : ∀ item ∈ items, (candleDraft pair.symbol item >>= Draft.finish).toOption =
          (candle? item).map fun c => Update.candle pair.symbol c := fun item hitem => by
        rw [← candle_eq, toOption_map, toOption_candleOfValue (hitems item hitem)]
      dsimp only
      rw [List.filterMap_map, List.map_filterMap]
      exact List.filterMap_congr hcandle
    | _ => rfl

/-- Entries bring what each of them brings. -/
theorem decodeEntries_eq_updates {entries : List (String × Value)}
    (hordered : ∀ e ∈ entries, e.2.Ordered) :
    (decodeEntries entries).result = .ok (.updates (entries.flatMap updatesOf)) := by
  rw [result_decodeEntries, List.flatMap_congr fun e he => finished_entryDrafts (hordered e he)]

theorem updatesOf_of_invalid {key : String} {items more : List Value} {v : Value}
    (h : candle? v = none) :
    updatesOf (key, .array (items ++ v :: more)) = updatesOf (key, .array (items ++ more)) := by
  unfold updatesOf
  dsimp only
  cases Pair.ofSeparated? separator key with
  | none => rfl
  | some pair => simp [h]

theorem spelling_of_updatesOf {e : String × Value} (h : updatesOf e ≠ []) :
    Pair.SplitsOnce separator e.1 := by
  refine Pair.exists_ofSeparated?_iff.mp (Option.ne_none_iff_exists'.mp fun hnone => h ?_)
  rw [updatesOf, hnone]

/-- A message with some entries, and messages that differ from it in one part. -/
structure Isolates (octets : Octets) (entries : List (String × Value)) : Prop where
  keys : KeysIncrease entries
  /-- Only under a key with one slash between two names is there anything. -/
  spelling : ∀ {e}, updatesOf e ≠ [] → Pair.SplitsOnce separator e.1
  /-- A message brings what its entries bring, in their order. -/
  updates : (decode octets).result = .ok (.updates (entries.flatMap updatesOf))
  /-- Alone, an entry brings the same. -/
  alone : ∀ e ∈ entries, (decodeEntries [e]).result = .ok (.updates (updatesOf e))
  /-- With an entry that brings nothing in the place of another, all others bring what they did. -/
  entry : ∀ {before e after before' e' after' octets'}, entries = before ++ e :: after →
    Value.read octets' = .ok (.object (before' ++ e' :: after')) →
    before' ++ after' = before ++ after → updatesOf e' = [] →
    (decode octets').result = .ok (.updates (before.flatMap updatesOf ++ after.flatMap updatesOf))
  /-- With an invalid candle in the place of another, all others are brought as before. -/
  element : ∀ {before key items v more after v' octets'},
    entries = before ++ (key, .array (items ++ v :: more)) :: after →
    Value.read octets' = .ok (.object (before ++ (key, .array (items ++ v' :: more)) :: after)) →
    candle? v' = none →
    (decode octets').result = .ok (.updates (before.flatMap updatesOf ++
      updatesOf (key, .array (items ++ more)) ++ after.flatMap updatesOf))

theorem decode_eq_updates {octets : Octets} {entries : List (String × Value)}
    (hread : Value.read octets = .ok (.object entries)) :
    (decode octets).result = .ok (.updates (entries.flatMap updatesOf)) := by
  rw [decode_object hread]
  exact decodeEntries_eq_updates (ordered_of_read_object hread).2

/-- **What the parts of a message bring** is theirs alone. -/
theorem decode_entries {octets : Octets} {entries : List (String × Value)}
    (hread : Value.read octets = .ok (.object entries)) : Isolates octets entries := by
  obtain ⟨hkeys, hordered⟩ := ordered_of_read_object hread
  refine ⟨hkeys, spelling_of_updatesOf, decode_eq_updates hread, fun e he => ?_, ?_, ?_⟩
  · have halone : (decodeEntries [e]).result = .ok (.updates ([e].flatMap updatesOf)) :=
      decodeEntries_eq_updates (List.forall_mem_singleton.mpr (hordered e he))
    rwa [List.flatMap_singleton] at halone
  · intro before e after before' e' after' octets' _ hread' hothers hnone
    rw [decode_eq_updates hread', List.flatMap_append, List.flatMap_cons, hnone,
      List.nil_append, ← List.flatMap_append, hothers, List.flatMap_append]
  · intro before key items v more after v' octets' _ hread' hinvalid
    rw [decode_eq_updates hread', List.flatMap_append, List.flatMap_cons,
      updatesOf_of_invalid hinvalid, List.append_assoc]

/-- A ticker. -/
def tickerValue (price volume : String) : Value :=
  .object [("Price", .string price), ("Volume", .string volume)]

/-- A candle with its end. -/
def candleValue (close volume : String) (endTime : Nat) : Value :=
  .object [("Close", .string close), ("EndTime", .nat endTime), ("Volume", .string volume)]

/-- A message with two good parts among others. -/
def mixed : Octets :=
  ascii (Value.object [("ATOM/USDT", tickerValue "10.5" "1000"),
    ("JUNO/USDT", .array [candleValue "1.1" "oops" 1, candleValue "1.2" "2" 2]),
    ("OSMO/USDT", tickerValue "1.5e-4294967295" "1"), ("UMEE/USDT", .nat 42),
    ("not-a-pair", tickerValue "1" "1")]).render

/-- The entries of a message. -/
def entriesOf? (octets : Octets) : Option (List (String × Value)) :=
  match Value.read octets with
  | .ok (.object entries) => some entries
  | _ => none

theorem read_of_entriesOf? {octets : Octets} {entries : List (String × Value)}
    (h : entriesOf? octets = some entries) : Value.read octets = .ok (.object entries) := by
  unfold entriesOf? at h
  split at h
  · rename_i hread
    rw [hread, Option.some.inj h]
  · cases h

/-- The parts of such a message are judged one by one. -/
theorem decode_entries_mixed :
    ∃ entries, Value.read mixed = .ok (.object entries) ∧ Isolates mixed entries ∧
      entries.map Prod.fst = ["ATOM/USDT", "JUNO/USDT", "OSMO/USDT", "UMEE/USDT", "not-a-pair"] ∧
      (decode mixed).result = .ok (.updates
        [.ticker "ATOMUSDT" ⟨⟨105, 1, by decide, by decide⟩, ⟨1000, 0, by decide, by decide⟩⟩,
          .candle "JUNOUSDT"
            ⟨⟨12, 1, by decide, by decide⟩, ⟨2, 0, by decide, by decide⟩, 2⟩]) := by
  have hall : ((entriesOf? mixed).map fun entries =>
      (entries.map Prod.fst, (decode mixed).result.toOption)) =
      some (["ATOM/USDT", "JUNO/USDT", "OSMO/USDT", "UMEE/USDT", "not-a-pair"],
        some (.updates
          [.ticker "ATOMUSDT" ⟨⟨105, 1, by decide, by decide⟩, ⟨1000, 0, by decide, by decide⟩⟩,
            .candle "JUNOUSDT"
              ⟨⟨12, 1, by decide, by decide⟩, ⟨2, 0, by decide, by decide⟩, 2⟩])) := by
    rw [mixed, ascii_render]
    decide +kernel
  obtain ⟨entries, hentries, hrest⟩ := Option.map_eq_some_iff.mp hall
  obtain ⟨hnames, hresult⟩ := Prod.mk.inj hrest
  have hread := read_of_entriesOf? hentries
  exact ⟨entries, hread, decode_entries hread, hnames, toOption_eq_some.mp hresult⟩

end MarketFeed.Osmosis
