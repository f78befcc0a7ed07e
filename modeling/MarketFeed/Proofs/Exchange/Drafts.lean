import Mathlib.Data.List.Basic
import MarketFeed.Proofs.Decimal.Reading
import MarketFeed.Proofs.Exchange.Carried

/-!
# Updates before their decimals are read

What a message has to say about markets, told apart from the reading of its decimals: a draft is
an update with two texts in the place of its decimals. A draft that cannot be finished is dropped
alone. Nothing that is read here faults, so every message is decoded.

* `Draft.finish`, `finished`: the update of a draft, and those of some drafts.
* `drafts`: the drafts of a message, and the errors in the place of those that could not be made.
* `outcome_decode`: a message decodes to its finished drafts.
-/

namespace MarketFeed

/-- An update whose two decimals are still texts. -/
structure Draft where
  first : String
  second : String
  build : Decimal → Decimal → Update

namespace Draft

/-- Reads the texts of a draft, the second one only after the first. -/
def finish (d : Draft) : Except FeedError Update := do
  let first ← Decimal.read d.first
  let second ← Decimal.read d.second
  .ok (d.build first second)

/-- Reading two decimals and making an update of what they make is finishing a draft. -/
theorem map_eq_finish {α : Type} (first second : String) (make : Decimal → Decimal → α)
    (update : α → Update) :
    (Decimal.read first >>= fun a => Decimal.read second >>= fun b =>
      .ok (make a b)).map update = finish ⟨first, second, fun a b => update (make a b)⟩ := by
  unfold finish
  cases Decimal.read first with
  | error e => rfl
  | ok a => cases Decimal.read second <;> rfl

theorem finish_ne_fault (d : Draft) (f : Fault) : d.finish ≠ .error (.fault f) := by
  simp [finish, bind_eq_error, Decimal.read_ne_fault]

end Draft

/-- The updates of the drafts that can be finished, in their order. -/
def finished (reads : List (Except FeedError Draft)) : List Update :=
  reads.filterMap fun read => (read >>= Draft.finish).toOption

theorem finished_singleton (read : Except FeedError Draft) :
    finished [read] = (read >>= Draft.finish).toOption.toList := by
  unfold finished
  rw [List.filterMap_cons]
  cases (read >>= Draft.finish).toOption <;> rfl

/-- Finishing a draft does not fault if making it did not. -/
theorem bind_finish_ne_fault {read : Except FeedError Draft} (h : ∀ f, read ≠ .error (.fault f))
    (f : Fault) : (read >>= Draft.finish) ≠ .error (.fault f) := by
  simp [bind_eq_error, h, Draft.finish_ne_fault]

/-- The updates of a decoded message, or its fault; any other message has none. -/
def Decoded.outcome (d : Decoded) : Except Fault (List Update) :=
  match d.result with
  | .ok (.updates us) => .ok us
  | .error (.fault f) => .error f
  | _ => .ok []

/-! ## Coinbase -/

namespace Coinbase

/-- The draft of a ticker message. -/
def TickerMessage.draft (m : TickerMessage) : Except FeedError Draft := do
  let symbol ← canonicalSymbol m.productId
  .ok ⟨m.price, m.volume, fun price volume => .ticker symbol ⟨price, volume⟩⟩

/-- The draft of a trade message. -/
def TradeMessage.draft (m : TradeMessage) : Except FeedError Draft := do
  let timestamp ← m.timestamp
  let symbol ← canonicalSymbol m.productId
  .ok ⟨m.size, m.price, fun size price => .trade ⟨symbol, timestamp, size, price⟩⟩

theorem TickerMessage.update_eq (m : TickerMessage) : m.update = (m.draft >>= Draft.finish) := by
  unfold TickerMessage.update TickerMessage.draft
  cases canonicalSymbol m.productId <;> rfl

theorem TradeMessage.update_eq (m : TradeMessage) : m.update = (m.draft >>= Draft.finish) := by
  unfold TradeMessage.update TradeMessage.draft
  cases m.timestamp with
  | error e => rfl
  | ok t => cases canonicalSymbol m.productId <;> rfl

/-- The draft of a ticker or trade message. -/
def drafts (octets : List UInt8) : List (Except FeedError Draft) :=
  match readType octets with
  | .ok type =>
    if type = "ticker" then ((readTicker octets).toOption.map (·.draft)).toList
    else if type = "match" ∨ type = "last_match" then
      ((readTrade octets).toOption.map (·.draft)).toList
    else []
  | .error _ => []

theorem canonicalSymbol_ne_fault (productId : String) (f : Fault) :
    canonicalSymbol productId ≠ .error (.fault f) := by
  unfold canonicalSymbol
  split <;> simp

theorem timestamp_ne_fault (m : TradeMessage) (f : Fault) : m.timestamp ≠ .error (.fault f) := by
  unfold TradeMessage.timestamp
  split <;> simp

theorem TickerMessage.draft_ne_fault (m : TickerMessage) (f : Fault) :
    m.draft ≠ .error (.fault f) := by
  simp [draft, bind_eq_error, canonicalSymbol_ne_fault]

theorem TradeMessage.draft_ne_fault (m : TradeMessage) (f : Fault) :
    m.draft ≠ .error (.fault f) := by
  simp [draft, bind_eq_error, canonicalSymbol_ne_fault, timestamp_ne_fault]

/-- A draft alone is finished or dropped. -/
theorem outcome_keepValid {read : Except FeedError Draft} (h : ∀ f, read ≠ .error (.fault f)) :
    (keepValid (read >>= Draft.finish)).outcome = .ok (finished [read]) := by
  have hfinish := bind_finish_ne_fault h
  rw [finished_singleton]
  cases hread : read >>= Draft.finish with
  | ok u => rfl
  | error e =>
    cases e with
    | fault f => exact absurd hread (hfinish f)
    | _ => rfl

theorem outcome_decode (octets : List UInt8) :
    (decode octets).outcome = .ok (finished (drafts octets)) := by
  unfold decode drafts
  cases htype : readType octets with
  | error e => rfl
  | ok type =>
    dsimp only
    by_cases herror : type = "error"
    · subst herror
      rfl
    · rw [if_neg herror]
      by_cases hcontrol : type = "subscriptions" ∨ type = "heartbeat"
      · rcases hcontrol with rfl | rfl <;> rfl
      · rw [if_neg hcontrol]
        by_cases hticker : type = "ticker"
        · rw [if_pos hticker, if_pos hticker]
          cases readTicker octets with
          | error e => rfl
          | ok m =>
            dsimp only
            rw [m.update_eq]
            exact outcome_keepValid m.draft_ne_fault
        · rw [if_neg hticker, if_neg hticker]
          by_cases htrade : type = "match" ∨ type = "last_match"
          · rw [if_pos htrade, if_pos htrade]
            cases readTrade octets with
            | error e => rfl
            | ok m =>
              dsimp only
              rw [m.update_eq]
              exact outcome_keepValid m.draft_ne_fault
          · rw [if_neg htrade, if_neg htrade]
            rfl

end Coinbase

/-! ## Osmosis -/

namespace Osmosis

/-- The draft of a ticker. -/
def tickerDraft (symbol : String) (v : Json.Value) : Except FeedError Draft := do
  let (price, volume) ← refused (Json.recordOfValueWith tickerShape (fun f => do
    some (← f.text? "Price", ← f.text? "Volume")) v)
  .ok ⟨price, volume, fun price volume => .ticker symbol ⟨price, volume⟩⟩

/-- The draft of a candle. -/
def candleDraft (symbol : String) (v : Json.Value) : Except FeedError Draft := do
  let (close, volume, endTime) ← refused (Json.recordOfValueWith candleShape (fun f => do
    some (← f.text? "Close", ← f.text? "Volume", ← f.int64? "EndTime")) v)
  .ok ⟨close, volume, fun price volume => .candle symbol ⟨price, volume, endTime⟩⟩

/-- The drafts of one entry of a message. -/
def entryDrafts (entry : String × Json.Value) : List (Except FeedError Draft) :=
  match Pair.ofSeparated? separator entry.1, entry.2 with
  | some pair, .object fields => [tickerDraft pair.symbol (.object fields)]
  | some pair, .array items => items.map (candleDraft pair.symbol)
  | _, _ => []

/-- The drafts of all entries, in their order. -/
def drafts (octets : List UInt8) : List (Except FeedError Draft) :=
  match Json.Value.read octets with
  | .ok (.object entries) => entries.flatMap entryDrafts
  | _ => []

theorem ticker_eq (symbol : String) (v : Json.Value) :
    (tickerOfValue v).map (fun t => Update.ticker symbol t) =
      (tickerDraft symbol v >>= Draft.finish) := by
  unfold tickerOfValue tickerDraft
  cases refused (Json.recordOfValueWith tickerShape (fun f => do
    some (← f.text? "Price", ← f.text? "Volume")) v) with
  | error e => rfl
  | ok texts =>
    obtain ⟨price, volume⟩ := texts
    exact Draft.map_eq_finish price volume Ticker.mk (.ticker symbol)

theorem candle_eq (symbol : String) (v : Json.Value) :
    (candleOfValue v).map (fun c => Update.candle symbol c) =
      (candleDraft symbol v >>= Draft.finish) := by
  unfold candleOfValue candleDraft
  cases refused (Json.recordOfValueWith candleShape (fun f => do
    some (← f.text? "Close", ← f.text? "Volume", ← f.int64? "EndTime")) v) with
  | error e => rfl
  | ok texts =>
    obtain ⟨close, volume, endTime⟩ := texts
    exact Draft.map_eq_finish close volume (fun a b => Candle.mk a b endTime) (.candle symbol)

theorem refused_ne_fault {α : Type} (r : Except Json.Cause α) (f : Fault) :
    refused r ≠ .error (.fault f) := by
  cases r <;> simp [refused]

theorem tickerDraft_ne_fault (symbol : String) (v : Json.Value) (f : Fault) :
    tickerDraft symbol v ≠ .error (.fault f) := by
  simp [tickerDraft, bind_eq_error, refused_ne_fault]

theorem candleDraft_ne_fault (symbol : String) (v : Json.Value) (f : Fault) :
    candleDraft symbol v ≠ .error (.fault f) := by
  simp [candleDraft, bind_eq_error, refused_ne_fault]

theorem gatherOne_finish (what key : String) {read : Except FeedError Draft}
    (h : ∀ f, read ≠ .error (.fault f)) :
    ∃ events, gatherOne what key (read >>= Draft.finish) = .ok (finished [read], events) := by
  have hfinish := bind_finish_ne_fault h
  rw [finished_singleton]
  cases hread : read >>= Draft.finish with
  | ok u => exact ⟨_, rfl⟩
  | error e =>
    cases e with
    | fault f => exact absurd hread (hfinish f)
    | _ => exact ⟨_, rfl⟩

/-- If no part faults, all parts give what each of them gives, in their order. -/
theorem gatherAll_map {α : Type} (items : List α) {gather : α → Gathered}
    {updates : α → List Update} (h : ∀ a, ∃ events, gather a = .ok (updates a, events)) :
    ∃ events, gatherAll (items.map gather) = .ok (items.flatMap updates, events) := by
  induction items with
  | nil => exact ⟨[], rfl⟩
  | cons a items ih =>
    obtain ⟨events, hfirst⟩ := h a
    obtain ⟨more, hrest⟩ := ih
    exact ⟨events ++ more, by simp [gatherAll, hfirst, hrest]⟩

theorem gatherEntry_finished (entry : String × Json.Value) :
    ∃ events, gatherEntry entry = .ok (finished (entryDrafts entry), events) := by
  obtain ⟨key, value⟩ := entry
  unfold gatherEntry entryDrafts
  dsimp only
  cases Pair.ofSeparated? separator key with
  | none => exact ⟨[], rfl⟩
  | some pair =>
    cases value with
    | object fields =>
      dsimp only
      rw [ticker_eq]
      exact gatherOne_finish _ _ (tickerDraft_ne_fault _ _)
    | array items =>
      obtain ⟨events, hitems⟩ := gatherAll_map items fun item =>
        candle_eq pair.symbol item ▸
          gatherOne_finish "candle" key (candleDraft_ne_fault pair.symbol item)
      refine ⟨events, hitems.trans ?_⟩
      rw [finished, List.filterMap_map, List.filterMap_eq_flatMap_toList]
      simp only [finished_singleton]
      rfl
    | _ => exact ⟨[], rfl⟩

/-- Entries bring their finished drafts, in their order. -/
theorem result_decodeEntries (entries : List (String × Json.Value)) :
    (decodeEntries entries).result =
      .ok (.updates (entries.flatMap fun entry => finished (entryDrafts entry))) := by
  obtain ⟨events, hall⟩ := gatherAll_map entries gatherEntry_finished
  rw [decodeEntries, hall]

theorem decode_object {octets : List UInt8} {entries : List (String × Json.Value)}
    (h : Json.Value.read octets = .ok (.object entries)) :
    decode octets = decodeEntries entries := by
  have hack : octets ≠ Json.ascii "ack" := by
    rintro rfl
    have hread : (Json.Value.read (Json.ascii "ack")).toOption.isNone = true := by decide +kernel
    rw [h] at hread
    cases hread
  unfold decode
  rw [if_neg hack, h]

theorem outcome_decode (octets : List UInt8) :
    (decode octets).outcome = .ok (finished (drafts octets)) := by
  unfold drafts
  cases hread : Json.Value.read octets with
  | error e =>
    unfold decode
    rw [hread]
    split <;> rfl
  | ok v =>
    cases v with
    | object entries =>
      rw [decode_object hread, Decoded.outcome, result_decodeEntries]
      exact congrArg _ (List.filterMap_flatMap ..).symm
    | _ =>
      unfold decode
      rw [hread]
      split <;> rfl

end Osmosis

/-! ## Both exchanges -/

/-- The drafts of a message of a provider. -/
def drafts : Provider → List UInt8 → List (Except FeedError Draft)
  | .coinbase => Coinbase.drafts
  | .osmosisV2 => Osmosis.drafts

/-- **A bad field drops its own update and no other**, and no field faults. -/
theorem outcome_decode (provider : Provider) (octets : List UInt8) :
    ((Service.exchangeOf provider).decode octets).outcome =
      .ok (finished (drafts provider octets)) := by
  cases provider with
  | coinbase => exact Coinbase.outcome_decode octets
  | osmosisV2 => exact Osmosis.outcome_decode octets

end MarketFeed
