import MarketFeed.Proofs.Exchange.Drafts
import MarketFeed.Proofs.Json.Members
import MarketFeed.Proofs.Market.Respelling

/-!
# Messages with a type

A message of Coinbase is an object whose `type` says what else is looked at in it. What it decodes
to depends on the strings under the names that belong to its type, and on nothing else in it: other
members may hold any value, and the order of the members does not count. A string is one of
characters here; half a surrogate pair is none.

* `ownNames`: the names that belong to a type.
* `TickerFrame`, `TradeFrame`, `Settles`: what messages with updates come to.
* `decode_objectText`: what any message with a type comes to, and what it depends on.
-/

namespace MarketFeed.Coinbase

open Json

/-! ## What a message says -/

theorem envelopeShape_textual : envelopeShape.Textual := ⟨by decide, by decide⟩

theorem tickerShape_textual : tickerShape.Textual := ⟨by decide, by decide⟩

theorem tradeShape_textual : tradeShape.Textual := ⟨by decide, by decide⟩

theorem errorShape_textual : errorShape.Textual := ⟨by decide, by decide⟩

section Read

variable {o : ObjectText}

theorem readType_eq_ok_iff {type : String} :
    readType o.octets = .ok type ↔ o.Gives "type" type := by
  have htype : (⟨"type", .text, true⟩ : Field) ∈ envelopeShape.fields := by decide
  rw [readType, readRecordWith_eq_ok_iff]
  constructor
  · rintro ⟨fields, h, hbuild⟩
    exact (text?_of_readRecord envelopeShape_textual h htype).mp hbuild
  · intro hgives
    obtain ⟨fields, h⟩ := (exists_readRecord_text_iff (o := o) envelopeShape_textual).mpr (by
      simpa [envelopeShape] using ⟨type, hgives⟩)
    exact ⟨fields, h, (text?_of_readRecord envelopeShape_textual h htype).mpr hgives⟩

theorem readTicker_eq_ok_iff {m : TickerMessage} :
    readTicker o.octets = .ok m ↔
      o.Gives "product_id" m.productId ∧ o.Gives "price" m.price ∧
        o.Gives "volume_24h" m.volume := by
  have htext {fields : Fields} (h : readWhole (readRecord tickerShape) o.octets = .ok fields)
      {name : String} (hf : ⟨name, .text, true⟩ ∈ tickerShape.fields) (s : String) :=
    text?_of_readRecord tickerShape_textual h hf (s := s)
  rw [readTicker, readRecordWith_eq_ok_iff]
  simp only [Option.bind_eq_bind, Option.bind_eq_some_iff]
  constructor
  · rintro ⟨fields, h, product, hproduct, price, hprice, volume, hvolume, hm⟩
    cases hm
    exact ⟨(htext h (by decide) _).mp hproduct, (htext h (by decide) _).mp hprice,
      (htext h (by decide) _).mp hvolume⟩
  · rintro ⟨hproduct, hprice, hvolume⟩
    obtain ⟨fields, h⟩ := (exists_readRecord_text_iff (o := o) tickerShape_textual).mpr (by
      simpa [tickerShape] using ⟨⟨_, hproduct⟩, ⟨_, hprice⟩, ⟨_, hvolume⟩⟩)
    exact ⟨fields, h, _, (htext h (by decide) _).mpr hproduct, _,
      (htext h (by decide) _).mpr hprice, _, (htext h (by decide) _).mpr hvolume, rfl⟩

theorem readTrade_eq_ok_iff {m : TradeMessage} :
    readTrade o.octets = .ok m ↔
      o.Gives "product_id" m.productId ∧ o.Gives "time" m.time ∧ o.Gives "size" m.size ∧
        o.Gives "price" m.price := by
  have htext {fields : Fields} (h : readWhole (readRecord tradeShape) o.octets = .ok fields)
      {name : String} (hf : ⟨name, .text, true⟩ ∈ tradeShape.fields) (s : String) :=
    text?_of_readRecord tradeShape_textual h hf (s := s)
  rw [readTrade, readRecordWith_eq_ok_iff]
  simp only [Option.bind_eq_bind, Option.bind_eq_some_iff]
  constructor
  · rintro ⟨fields, h, product, hproduct, time, htime, size, hsize, price, hprice, hm⟩
    cases hm
    exact ⟨(htext h (by decide) _).mp hproduct, (htext h (by decide) _).mp htime,
      (htext h (by decide) _).mp hsize, (htext h (by decide) _).mp hprice⟩
  · rintro ⟨hproduct, htime, hsize, hprice⟩
    obtain ⟨fields, h⟩ := (exists_readRecord_text_iff (o := o) tradeShape_textual).mpr (by
      simpa [tradeShape] using ⟨⟨_, hproduct⟩, ⟨_, htime⟩, ⟨_, hsize⟩, ⟨_, hprice⟩⟩)
    exact ⟨fields, h, _, (htext h (by decide) _).mpr hproduct, _,
      (htext h (by decide) _).mpr htime, _, (htext h (by decide) _).mpr hsize, _,
      (htext h (by decide) _).mpr hprice, rfl⟩

/-- A name is not there, for which the text is empty, or it is there once with a string. -/
def Says (o : ObjectText) (name s : String) : Prop :=
  o.Gives name s ∨ o.values name = [] ∧ s = ""

theorem Says.unique {name s t : String} (hs : Says o name s) (ht : Says o name t) : s = t := by
  rcases hs with hs | ⟨hnone, rfl⟩ <;> rcases ht with ht | ⟨hnone', rfl⟩
  · exact hs.unique ht
  · obtain ⟨v, hv, -⟩ := hs
    simp [hnone'] at hv
  · obtain ⟨v, hv, -⟩ := ht
    simp [hnone] at hv
  · rfl

theorem exists_says_iff {name : String} :
    (∃ s, Says o name s) ↔ o.values name = [] ∨ ∃ s, o.Gives name s := by
  constructor
  · rintro ⟨s, hs | ⟨hnone, -⟩⟩
    · exact .inr ⟨s, hs⟩
    · exact .inl hnone
  · rintro (hnone | ⟨s, hs⟩)
    · exact ⟨"", .inr ⟨hnone, rfl⟩⟩
    · exact ⟨s, .inl hs⟩

/-- The two texts of an error are said, or both are empty. -/
theorem readError_eq_iff {message reason : String} :
    readError o.octets = (message, reason) ↔
      Says o "message" message ∧ Says o "reason" reason ∨
        (¬ ∃ s t, Says o "message" s ∧ Says o "reason" t) ∧ message = "" ∧ reason = "" := by
  have hexists : (∃ fields, readWhole (readRecord errorShape) o.octets = .ok fields) ↔
      ∃ s t, Says o "message" s ∧ Says o "reason" t := by
    rw [exists_readRecord_text_iff errorShape_textual]
    simp [errorShape, exists_says_iff]
  have hsays {fields : Fields} (h : readWhole (readRecord errorShape) o.octets = .ok fields)
      {name : String} (hf : ⟨name, .text, false⟩ ∈ errorShape.fields) :
      Says o name ((fields.text? name).getD "") := by
    have htext := fun s => text?_of_readRecord errorShape_textual h hf (s := s)
    cases hs : fields.text? name with
    | some s => exact .inl ((htext s).mp hs)
    | none =>
      refine .inr ⟨?_, rfl⟩
      rcases (exists_readRecord_text_iff errorShape_textual).mp ⟨fields, h⟩ _ hf with
        ⟨-, hnone⟩ | ⟨s, hgives⟩
      · exact hnone
      · rw [(htext s).mpr hgives] at hs
        cases hs
  by_cases h : ∃ fields, readWhole (readRecord errorShape) o.octets = .ok fields
  · obtain ⟨fields, h⟩ := h
    have hmessage : Says o "message" ((fields.text? "message").getD "") := hsays h (by decide)
    have hreason : Says o "reason" ((fields.text? "reason").getD "") := hsays h (by decide)
    have hread : readError o.octets =
        ((fields.text? "message").getD "", (fields.text? "reason").getD "") := by
      have hbuilt : readRecordWith errorShape (fun f =>
          some ((f.text? "message").getD "", (f.text? "reason").getD "")) o.octets =
          .ok ((fields.text? "message").getD "", (fields.text? "reason").getD "") :=
        readRecordWith_eq_ok_iff.mpr ⟨fields, h, rfl⟩
      simp only [readError, hbuilt]
    rw [hread]
    constructor
    · intro heq
      obtain ⟨rfl, rfl⟩ := Prod.mk.inj heq
      exact .inl ⟨hmessage, hreason⟩
    · rintro (⟨hm, hr⟩ | ⟨hnot, -⟩)
      · rw [hmessage.unique hm, hreason.unique hr]
      · exact absurd ⟨_, _, hmessage, hreason⟩ hnot
  · have hread : readError o.octets = ("", "") := by
      simp only [readError]
      split
      · rename_i texts hok
        obtain ⟨fields, hfields, -⟩ := readRecordWith_eq_ok_iff.mp hok
        exact absurd ⟨fields, hfields⟩ h
      · rfl
    rw [hread, Prod.mk.injEq]
    constructor
    · rintro ⟨rfl, rfl⟩
      exact .inr ⟨fun hsaid => h (hexists.mpr hsaid), rfl, rfl⟩
    · rintro (⟨hm, hr⟩ | ⟨-, rfl, rfl⟩)
      · exact absurd (hexists.mpr ⟨_, _, hm, hr⟩) h
      · exact ⟨rfl, rfl⟩

end Read

/-! ## What a message comes to -/

/-- What a message with the texts of an update comes to: one update if there is a draft of which
both decimals can be read, and else none. -/
structure Settles (draft? : Option Draft) (result : Except FrameError Frame) : Prop where
  update : ∀ u, result = .ok (.updates [u]) ↔ ∃ d a b, draft? = some d ∧
    Decimal.read d.first = .ok a ∧ Decimal.read d.second = .ok b ∧ u = d.build a b
  none : result = .ok (.updates []) ↔ ¬ ∃ d a b, draft? = some d ∧
    Decimal.read d.first = .ok a ∧ Decimal.read d.second = .ok b

theorem finish_eq_ok {d : Draft} {u : Update} :
    d.finish = .ok u ↔ ∃ a b, Decimal.read d.first = .ok a ∧ Decimal.read d.second = .ok b ∧
      u = d.build a b := by
  simp only [Draft.finish, bind_eq_ok, Except.ok.injEq]
  constructor
  · rintro ⟨a, ha, b, hb, rfl⟩
    exact ⟨a, b, ha, hb, rfl⟩
  · rintro ⟨a, b, ha, hb, rfl⟩
    exact ⟨a, ha, b, hb, rfl⟩

theorem keepValid_eq_update {read : Except FeedError Update} {u : Update} :
    (keepValid read).result = .ok (.updates [u]) ↔ read = .ok u := by
  cases read with
  | ok v => simp [keepValid]
  | error e => cases e <;> simp [keepValid]

theorem keepValid_eq_none {read : Except FeedError Update} (h : ∀ f, read ≠ .error (.fault f)) :
    (keepValid read).result = .ok (.updates []) ↔ ∀ u, read ≠ .ok u := by
  cases read with
  | ok v => simp [keepValid]
  | error e =>
    cases e with
    | fault f => exact absurd rfl (h f)
    | _ => simp [keepValid]

/-- Finishing what could be made of a message. -/
theorem settles_keepValid {read : Except FeedError Draft} (h : ∀ f, read ≠ .error (.fault f)) :
    Settles read.toOption (keepValid (read >>= Draft.finish)).result := by
  have hupdate : ∀ u, (read >>= Draft.finish) = .ok u ↔ ∃ d a b, read.toOption = some d ∧
      Decimal.read d.first = .ok a ∧ Decimal.read d.second = .ok b ∧ u = d.build a b := fun u => by
    simp only [bind_eq_ok, finish_eq_ok, toOption_eq_some, exists_and_left]
  refine ⟨fun u => keepValid_eq_update.trans (hupdate u), ?_⟩
  rw [keepValid_eq_none (bind_finish_ne_fault h)]
  constructor
  · rintro hnone ⟨d, a, b, hd, ha, hb⟩
    exact hnone _ ((hupdate _).mpr ⟨d, a, b, hd, ha, hb, rfl⟩)
  · intro hnone u hu
    obtain ⟨d, a, b, hd, ha, hb, -⟩ := (hupdate u).mp hu
    exact hnone ⟨d, a, b, hd, ha, hb⟩

/-- The draft of a ticker, if the product is the spelling of a pair. -/
def tickerDraft? (product price volume : String) : Option Draft := do
  let pair ← Pair.ofSeparated? separator product
  some ⟨price, volume, fun price volume => .ticker pair.symbol ⟨price, volume⟩⟩

/-- The draft of a trade, if moreover the time is an instant. -/
def tradeDraft? (product time size price : String) : Option Draft := do
  let t ← (Instant.read time).toOption
  let pair ← Pair.ofSeparated? separator product
  some ⟨size, price, fun size price => .trade ⟨pair.symbol, t, size, price⟩⟩

theorem exists_tickerDraft?_iff {product price volume : String} :
    (∃ d, tickerDraft? product price volume = some d) ↔ Pair.SplitsOnce separator product := by
  rw [← Pair.exists_ofSeparated?_iff]
  cases h : Pair.ofSeparated? separator product <;> simp [tickerDraft?, h]

theorem exists_tradeDraft?_iff {product time size price : String} :
    (∃ d, tradeDraft? product time size price = some d) ↔
      Pair.SplitsOnce separator product ∧ ∃ t, Instant.read time = .ok t := by
  rw [← Pair.exists_ofSeparated?_iff]
  cases ht : Instant.read time <;> cases h : Pair.ofSeparated? separator product <;>
    simp [tradeDraft?, ht, h, Except.toOption]

theorem toOption_canonicalSymbol (product : String) :
    (canonicalSymbol product).toOption =
      (Pair.ofSeparated? separator product).map Pair.symbol := by
  unfold canonicalSymbol
  cases Pair.ofSeparated? separator product <;> rfl

theorem toOption_tickerMessage_draft (m : TickerMessage) :
    m.draft.toOption = tickerDraft? m.productId m.price m.volume := by
  rw [TickerMessage.draft, toOption_bind, toOption_canonicalSymbol, tickerDraft?]
  cases Pair.ofSeparated? separator m.productId <;> rfl

theorem toOption_tradeMessage_draft (m : TradeMessage) :
    m.draft.toOption = tradeDraft? m.productId m.time m.size m.price := by
  have htime : m.timestamp.toOption = (Instant.read m.time).toOption := by
    unfold TradeMessage.timestamp
    cases Instant.read m.time <;> rfl
  rw [TradeMessage.draft, toOption_bind, htime, tradeDraft?]
  cases (Instant.read m.time).toOption with
  | none => rfl
  | some t =>
    simp only [Option.bind_some, toOption_bind, toOption_canonicalSymbol]
    cases Pair.ofSeparated? separator m.productId <;> rfl

/-- What is read of a message with an update, or why it is refused. -/
def judged {α : Type} (frame : List UInt8) (read : Except Failure α)
    (update : α → Except FeedError Update) : Decoded :=
  match read with
  | .ok m => keepValid (update m)
  | .error e => malformed frame e

theorem judged_malformed_iff {α : Type} {frame : List UInt8} {read : Except Failure α}
    {update : α → Except FeedError Update} :
    (∃ reason, (judged frame read update).result = .error (.malformed reason)) ↔
      ¬ ∃ m, read = .ok m := by
  cases read with
  | error e => simp [judged, malformed]
  | ok m =>
    simp only [judged]
    cases update m with
    | ok u => simp [keepValid]
    | error e => cases e <;> simp [keepValid]

/-- What a ticker message comes to. -/
structure TickerFrame (o : ObjectText) : Prop where
  malformed : (∃ reason, (decode o.octets).result = .error (.malformed reason)) ↔
    ∃ name ∈ ["product_id", "price", "volume_24h"], ¬ ∃ s, o.Gives name s
  spelled : ∀ {product price volume},
    (∃ d, tickerDraft? product price volume = some d) ↔ Pair.SplitsOnce separator product
  settles : ∀ {product price volume}, o.Gives "product_id" product → o.Gives "price" price →
    o.Gives "volume_24h" volume →
    Settles (tickerDraft? product price volume) (decode o.octets).result

/-- What a trade message comes to. -/
structure TradeFrame (o : ObjectText) : Prop where
  malformed : (∃ reason, (decode o.octets).result = .error (.malformed reason)) ↔
    ∃ name ∈ ["product_id", "time", "size", "price"], ¬ ∃ s, o.Gives name s
  spelled : ∀ {product time size price}, (∃ d, tradeDraft? product time size price = some d) ↔
    Pair.SplitsOnce separator product ∧ ∃ t, Instant.read time = .ok t
  settles : ∀ {product time size price}, o.Gives "product_id" product → o.Gives "time" time →
    o.Gives "size" size → o.Gives "price" price →
    Settles (tradeDraft? product time size price) (decode o.octets).result

theorem decode_ticker {frame : List UInt8} (h : readType frame = .ok "ticker") :
    decode frame = judged frame (readTicker frame) TickerMessage.update := by
  cases hread : readTicker frame <;> simp [decode, h, judged, hread]

theorem decode_trade {frame : List UInt8} {type : String} (h : readType frame = .ok type)
    (htype : type = "match" ∨ type = "last_match") :
    decode frame = judged frame (readTrade frame) TradeMessage.update := by
  rcases htype with rfl | rfl <;> cases hread : readTrade frame <;>
    simp [decode, h, judged, hread]

theorem decode_error {frame : List UInt8} (h : readType frame = .ok "error") :
    decode frame = ⟨.ok (.exchangeError
      (Text.trim ((readError frame).1 ++ " " ++ (readError frame).2))), []⟩ := by
  simp [decode, h]

theorem tickerFrame {o : ObjectText} (h : readType o.octets = .ok "ticker") : TickerFrame o := by
  refine ⟨?_, exists_tickerDraft?_iff, fun {product price volume} hproduct hprice hvolume => ?_⟩
  · rw [decode_ticker h, judged_malformed_iff, not_iff_comm]
    simp only [List.mem_cons, List.not_mem_nil, or_false, exists_eq_or_imp, exists_eq_left, not_or,
      not_not]
    constructor
    · rintro ⟨⟨product, hproduct⟩, ⟨price, hprice⟩, ⟨volume, hvolume⟩⟩
      exact ⟨⟨product, price, volume⟩, readTicker_eq_ok_iff.mpr ⟨hproduct, hprice, hvolume⟩⟩
    · rintro ⟨m, hm⟩
      obtain ⟨hproduct, hprice, hvolume⟩ := readTicker_eq_ok_iff.mp hm
      exact ⟨⟨_, hproduct⟩, ⟨_, hprice⟩, ⟨_, hvolume⟩⟩
  · have hread : readTicker o.octets = .ok ⟨product, price, volume⟩ :=
      readTicker_eq_ok_iff.mpr ⟨hproduct, hprice, hvolume⟩
    rw [decode_ticker h, hread, judged, TickerMessage.update_eq,
      ← toOption_tickerMessage_draft ⟨product, price, volume⟩]
    exact settles_keepValid (TickerMessage.draft_ne_fault _)

theorem tradeFrame {o : ObjectText} {type : String} (h : readType o.octets = .ok type)
    (htype : type = "match" ∨ type = "last_match") : TradeFrame o := by
  refine ⟨?_, exists_tradeDraft?_iff,
    fun {product time size price} hproduct htime hsize hprice => ?_⟩
  · rw [decode_trade h htype, judged_malformed_iff, not_iff_comm]
    simp only [List.mem_cons, List.not_mem_nil, or_false, exists_eq_or_imp, exists_eq_left, not_or,
      not_not]
    constructor
    · rintro ⟨⟨product, hproduct⟩, ⟨time, htime⟩, ⟨size, hsize⟩, ⟨price, hprice⟩⟩
      exact ⟨⟨product, time, size, price⟩,
        readTrade_eq_ok_iff.mpr ⟨hproduct, htime, hsize, hprice⟩⟩
    · rintro ⟨m, hm⟩
      obtain ⟨hproduct, htime, hsize, hprice⟩ := readTrade_eq_ok_iff.mp hm
      exact ⟨⟨_, hproduct⟩, ⟨_, htime⟩, ⟨_, hsize⟩, ⟨_, hprice⟩⟩
  · have hread : readTrade o.octets = .ok ⟨product, time, size, price⟩ :=
      readTrade_eq_ok_iff.mpr ⟨hproduct, htime, hsize, hprice⟩
    rw [decode_trade h htype, hread, judged, TradeMessage.update_eq,
      ← toOption_tradeMessage_draft ⟨product, time, size, price⟩]
    exact settles_keepValid (TradeMessage.draft_ne_fault _)

theorem decode_control {frame : List UInt8} {type : String} (h : readType frame = .ok type)
    (htype : type = "subscriptions" ∨ type = "heartbeat") :
    decode frame = ⟨.ok (.control type), []⟩ := by
  rcases htype with rfl | rfl <;> simp [decode, h]

theorem decode_other {frame : List UInt8} {type : String} (h : readType frame = .ok type)
    (htype : type ∉ ["error", "subscriptions", "heartbeat", "ticker", "match", "last_match"]) :
    decode frame = ⟨.ok (.unrecognized type), []⟩ := by
  simp only [List.mem_cons, List.not_mem_nil, or_false, not_or] at htype
  simp [decode, h, htype]

/-! ## What a message depends on -/

/-- Two messages come to the same, up to the wording of why they are malformed. -/
def Alike (d d' : Decoded) : Prop :=
  d = d' ∨ ∃ reason reason', d = ⟨.error (.malformed reason), []⟩ ∧
    d' = ⟨.error (.malformed reason'), []⟩

/-- The names that belong to a type. -/
def ownNames (type : String) : List String :=
  if type = "ticker" then ["product_id", "price", "volume_24h"]
  else if type = "match" ∨ type = "last_match" then ["product_id", "time", "size", "price"]
  else if type = "error" then ["message", "reason"]
  else []

theorem judged_alike {α : Type} {frame frame' : List UInt8} {read read' : Except Failure α}
    (update : α → Except FeedError Update) (h : ∀ m, read = .ok m ↔ read' = .ok m) :
    Alike (judged frame read update) (judged frame' read' update) := by
  cases read with
  | ok m =>
    rw [(h m).mp rfl]
    exact .inl rfl
  | error e =>
    cases read' with
    | ok m => cases (h m).mpr rfl
    | error e' => exact .inr ⟨_, _, rfl, rfl⟩

section Congr

variable {o o' : ObjectText}

theorem says_congr {name s : String} (h : (o.values name).Perm (o'.values name)) :
    Says o name s ↔ Says o' name s := by
  have hnil : o.values name = [] ↔ o'.values name = [] :=
    ⟨fun hnone => (hnone ▸ h).symm.eq_nil, fun hnone => (hnone ▸ h).eq_nil⟩
  rw [Says, Says, ObjectText.gives_congr h, hnil]

theorem readError_congr (hmessage : (o.values "message").Perm (o'.values "message"))
    (hreason : (o.values "reason").Perm (o'.values "reason")) :
    readError o.octets = readError o'.octets := by
  have h : readError o'.octets = ((readError o'.octets).1, (readError o'.octets).2) ↔ _ :=
    readError_eq_iff
  simp only [← says_congr hmessage, ← says_congr hreason] at h
  exact readError_eq_iff.mpr (h.mp trivial)

end Congr

/-- A message is decoded by its type and by the names that belong to it. -/
structure Decodes (o : ObjectText) (type : String) : Prop where
  /-- Whatever else there is in an error, it is reported. -/
  error : type = "error" → ∃ message reason,
    (Says o "message" message ∧ Says o "reason" reason ∨
      (¬ ∃ s t, Says o "message" s ∧ Says o "reason" t) ∧ message = "" ∧ reason = "") ∧
    decode o.octets = ⟨.ok (.exchangeError (Text.trim (message ++ " " ++ reason))), []⟩
  control : type = "subscriptions" ∨ type = "heartbeat" →
    decode o.octets = ⟨.ok (.control type), []⟩
  ticker : type = "ticker" → TickerFrame o
  trade : type = "match" ∨ type = "last_match" → TradeFrame o
  other : type ∉ ["error", "subscriptions", "heartbeat", "ticker", "match", "last_match"] →
    decode o.octets = ⟨.ok (.unrecognized type), []⟩
  /-- Other members, and the order of all, make no difference. -/
  own : ∀ o' : ObjectText, o'.Gives "type" type →
    (∀ name ∈ ownNames type, (o.values name).Perm (o'.values name)) →
    Alike (decode o.octets) (decode o'.octets)

/-- **What a message with a type comes to.** -/
theorem decode_objectText {o : ObjectText} {type : String} (htype : o.Gives "type" type) :
    Decodes o type := by
  have h := readType_eq_ok_iff.mpr htype
  refine ⟨?_, decode_control h, ?_, tradeFrame h, decode_other h, ?_⟩
  · rintro rfl
    exact ⟨_, _, readError_eq_iff.mp rfl, decode_error h⟩
  · rintro rfl
    exact tickerFrame h
  · intro o' htype' hvalues
    have h' := readType_eq_ok_iff.mpr htype'
    by_cases hticker : type = "ticker"
    · subst hticker
      simp only [ownNames, ↓reduceIte, List.forall_mem_cons] at hvalues
      obtain ⟨hproduct, hprice, hvolume, -⟩ := hvalues
      rw [decode_ticker h, decode_ticker h']
      refine judged_alike _ fun m => ?_
      rw [readTicker_eq_ok_iff, readTicker_eq_ok_iff, ObjectText.gives_congr hproduct,
        ObjectText.gives_congr hprice, ObjectText.gives_congr hvolume]
    · by_cases htrade : type = "match" ∨ type = "last_match"
      · simp only [ownNames, hticker, htrade, ↓reduceIte, List.forall_mem_cons] at hvalues
        obtain ⟨hproduct, htime, hsize, hprice, -⟩ := hvalues
        rw [decode_trade h htrade, decode_trade h' htrade]
        refine judged_alike _ fun m => ?_
        rw [readTrade_eq_ok_iff, readTrade_eq_ok_iff, ObjectText.gives_congr hproduct,
          ObjectText.gives_congr htime, ObjectText.gives_congr hsize,
          ObjectText.gives_congr hprice]
      · by_cases herror : type = "error"
        · subst herror
          simp only [ownNames, hticker, htrade, ↓reduceIte, List.forall_mem_cons] at hvalues
          obtain ⟨hmessage, hreason, -⟩ := hvalues
          rw [decode_error h, decode_error h', readError_congr hmessage hreason]
          exact .inl rfl
        · by_cases hcontrol : type = "subscriptions" ∨ type = "heartbeat"
          · rw [decode_control h hcontrol, decode_control h' hcontrol]
            exact .inl rfl
          · have hother : type ∉
                ["error", "subscriptions", "heartbeat", "ticker", "match", "last_match"] := by
              simp only [List.mem_cons, List.not_mem_nil, or_false]
              tauto
            rw [decode_other h hother, decode_other h' hother]
            exact .inl rfl

/-- A ticker message with another member in front, which holds an empty list. -/
def tickerText (price volume : String) (hprice : IsPlainText price) (hvolume : IsPlainText volume) :
    ObjectText where
  before := []
  inner := []
  members := [
    { Member.ofText "trades" "" (by decide) (by decide) with
      value := [0x5b, 0x5d]
      isValue := .list (show IsText (.first .list) ([] ++ [Frame.list.close]) from .empty .nil) },
    Member.ofText "volume_24h" volume (by decide) hvolume,
    Member.ofText "type" "ticker" (by decide) (by decide),
    Member.ofText "price" price (by decide) hprice,
    Member.ofText "product_id" "ATOM-USDT" (by decide) (by decide)]
  after := []
  before_blank := .nil
  inner_blank := .nil
  after_blank := .nil

theorem gives_ofText {o : ObjectText} {name s : String} (hs : IsPlainText s)
    (h : o.values name = [0x22 :: (ascii s ++ [0x22])]) : o.Gives name s :=
  ⟨_, h, ascii s, rfl, .plain hs.1 hs.2⟩

/-- What such a message gives under its own names. -/
theorem tickerText_gives {price volume : String} (hprice : IsPlainText price)
    (hvolume : IsPlainText volume) :
    (tickerText price volume hprice hvolume).Gives "type" "ticker" ∧
      (tickerText price volume hprice hvolume).Gives "product_id" "ATOM-USDT" ∧
      (tickerText price volume hprice hvolume).Gives "price" price ∧
      (tickerText price volume hprice hvolume).Gives "volume_24h" volume :=
  ⟨gives_ofText (by decide) rfl, gives_ofText (by decide) rfl,
    gives_ofText hprice rfl, gives_ofText hvolume rfl⟩

/-- Such a message has the ticker that its own names give, or none if the price is no decimal. -/
theorem decode_objectText_ticker :
    (∃ o : ObjectText, o.Gives "type" "ticker" ∧ Decodes o "ticker" ∧
      (decode o.octets).result = .ok (.updates [.ticker "ATOMUSDT"
        ⟨⟨105, 1, by decide, by decide⟩, ⟨1000, 0, by decide, by decide⟩⟩])) ∧
    ∃ o : ObjectText, o.Gives "price" "1.5e-4294967295" ∧
      (decode o.octets).result = .ok (.updates []) := by
  have hread : (Decimal.read "10.5").toOption = some ⟨105, 1, by decide, by decide⟩ := by
    decide +kernel
  have hread' : (Decimal.read "1000").toOption = some ⟨1000, 0, by decide, by decide⟩ := by
    decide +kernel
  have hnone : (Decimal.read "1.5e-4294967295").toOption = none := by decide +kernel
  constructor
  · obtain ⟨htype, hproduct, hprice, hvolume⟩ := tickerText_gives
      (show IsPlainText "10.5" by decide) (show IsPlainText "1000" by decide)
    have hdecodes := decode_objectText htype
    have hsettles := (hdecodes.ticker rfl).settles hproduct hprice hvolume
    exact ⟨_, htype, hdecodes, (hsettles.update _).mpr
      ⟨_, _, _, rfl, toOption_eq_some.mp hread, toOption_eq_some.mp hread', rfl⟩⟩
  · obtain ⟨htype, hproduct, hprice, hvolume⟩ := tickerText_gives
      (show IsPlainText "1.5e-4294967295" by decide) (show IsPlainText "1" by decide)
    have hsettles := ((decode_objectText htype).ticker rfl).settles hproduct hprice hvolume
    refine ⟨_, hprice, hsettles.none.mpr ?_⟩
    rintro ⟨d, a, b, hd, ha, -⟩
    obtain rfl := Option.some.inj hd
    rw [toOption_eq_some.mpr ha] at hnone
    cases hnone

end MarketFeed.Coinbase
