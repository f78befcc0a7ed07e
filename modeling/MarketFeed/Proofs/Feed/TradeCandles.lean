import MarketFeed.Proofs.Candles.Closing
import MarketFeed.Proofs.Feed.Attribution
import MarketFeed.Proofs.Feed.Query
import MarketFeed.Proofs.Instant.Range

/-!
# Candles cut from the trades of a run

The store has the trades of a symbol newest first, and the candles are cut from them in that order
when they are asked for. Trades that come in the same millisecond keep it; so the candle closes
with the one of them that was handled first.

* `handledTrades`: the trades of a symbol that a run accepts, in the order of handling.
* `tradesOf_eq_reverse`: if all of them are kept, the store has them newest first.
* `candlesOf_eq_ok`: the candles of a run are those of these trades, the newest handed in first.
* `candles_close_with_oldest`: when candles are given, and with which prices.
* `candles_not_close_with_newest`: the prices are not always those of the newest trades.
-/

namespace MarketFeed

namespace Store

/-- Was every entry of a history fresh at all writes after its own? -/
def Kept {α : Type} (period : Int64) (time : α → Int64) (history : List (α × Int64)) : Prop :=
  history.Pairwise fun w later => Fresh period later.2 (time w.1)

/-- All entries of a history that was kept are still there, the newest first. -/
theorem survivors_of_kept {α : Type} {period : Int64} {time : α → Int64}
    {history : List (α × Int64)} (h : Kept period time history) :
    survivors period time history = (history.map (·.1)).reverse := by
  induction history with
  | nil => rfl
  | cons w later ih =>
    obtain ⟨hfirst, hlater⟩ := List.pairwise_cons.mp h
    simp only [survivors, ih hlater, if_pos hfirst, List.map_cons, List.reverse_cons]

end Store

namespace Feed

/-! ## The trades of a run -/

/-- The trades of a symbol that a run accepts, with their readings of the clock. -/
def handledTrades (f : Feed) (steps : List Step) (symbol : String) : List (Trade × Int64) :=
  (writesOf (f.accepted steps)).filterMap (·.trade? symbol)

theorem mem_accepted_of_handled {f : Feed} {steps : List Step} {symbol : String} {t : Trade}
    {now : Int64} (h : (t, now) ∈ f.handledTrades steps symbol) :
    (Update.trade t, now) ∈ f.accepted steps := by
  obtain ⟨w, hw, htrade⟩ := List.mem_filterMap.mp h
  obtain ⟨⟨u, now'⟩, hu, rfl⟩ := List.mem_map.mp hw
  cases u with
  | trade t' =>
    simp only [Update.write, Store.Write.trade?, Option.ite_none_right_eq_some,
      Option.some.injEq] at htrade
    obtain ⟨-, htrade⟩ := htrade
    obtain ⟨rfl, rfl⟩ := Prod.mk.inj htrade
    exact hu
  | ticker | candle => cases htrade

section Run

variable {configured : Option Endpoint} {options : FeedOptions} {pairs : List Pair}
  {listing : Listing} {f₀ f : Feed} {steps : List Step} {symbol : String}

/-- The times of the trades of a run are instants. -/
theorem handledTrades_time
    (hopen : (open? .coinbase configured options pairs listing).result = .ok f₀)
    {t : Trade} {now : Int64} (h : (t, now) ∈ f₀.handledTrades steps symbol) :
    t.timestamp.toInt.natAbs < Instant.bound := by
  obtain ⟨clock, octets, -, hin⟩ := exists_frame_of_accepted (mem_accepted_of_handled h)
  obtain ⟨us, hdecode, hu⟩ := mem_updatesIn hin
  rw [open_exchange hopen] at hdecode
  obtain ⟨wire, hcarries⟩ := Coinbase.exists_carries hdecode hu
  obtain ⟨s, hread⟩ := hcarries.time
  exact Instant.read_bound hread

/-- If all trades of a symbol are kept, the store has them newest first. -/
theorem tradesOf_eq_reverse
    (hopen : (open? .coinbase configured options pairs listing).result = .ok f₀)
    (hrun : f₀.run steps = .ok f)
    (hkept : Store.Kept (Int64.ofNat options.candlePeriod) Trade.timestamp
      (f₀.handledTrades steps symbol)) :
    f.store.tradesOf symbol =
      if f₀.handledTrades steps symbol = [] then .error (.candleNotFound .coinbase symbol)
      else .ok ((f₀.handledTrades steps symbol).map (·.1)).reverse := by
  obtain ⟨hwrites, hreflects⟩ := run_writes hopen hrun
  obtain ⟨hperiod, hprovider⟩ := Store.writeAll_period hwrites
  have hperiod : f.store.period = Int64.ofNat options.candlePeriod := hperiod
  have hprovider : f.store.provider = .coinbase := hprovider
  rw [hreflects.tradesOf symbol, hperiod, hprovider]
  unfold Store.answerOf
  rw [← handledTrades, Store.survivors_of_kept hkept]
  simp only [List.isEmpty_iff]

/-! ## The candles of a run -/

theorem agesFit_handledTrades
    (hopen : (open? .coinbase configured options pairs listing).result = .ok f₀) :
    Candles.AgesFit ((f₀.handledTrades steps symbol).map (·.1)).reverse := by
  intro a ha b hb
  obtain ⟨⟨a, now⟩, hmemA, rfl⟩ := List.mem_map.mp (List.mem_reverse.mp ha)
  obtain ⟨⟨b, now'⟩, hmemB, rfl⟩ := List.mem_map.mp (List.mem_reverse.mp hb)
  exact Instant.fitsInt64_sub (handledTrades_time hopen hmemA) (handledTrades_time hopen hmemB)

/-- If all trades of a symbol are kept, its candles are cut from them, the newest handed in
first. -/
theorem candlesOf_eq_ok
    (hopen : (open? .coinbase configured options pairs listing).result = .ok f₀)
    (hrun : f₀.run steps = .ok f)
    (hkept : Store.Kept (Int64.ofNat options.candlePeriod) Trade.timestamp
      (f₀.handledTrades steps symbol)) {candles : List Candle} :
    f.candlesOf symbol = .ok candles ↔ f₀.handledTrades steps symbol ≠ [] ∧
      Candles.ofTrades ((f₀.handledTrades steps symbol).map (·.1)).reverse = .ok candles := by
  have hexchange : f.exchange = .coinbase :=
    (run_ingested hrun).exchange.trans (open_exchange hopen)
  have hsource : f.exchange.candleSource = .trades := by rw [hexchange]; rfl
  unfold candlesOf
  rw [hsource, tradesOf_eq_reverse hopen hrun hkept]
  by_cases hnone : f₀.handledTrades steps symbol = []
  · simp [hnone, bind, Except.bind]
  · rw [if_neg hnone]
    simp only [bind, Except.bind, ne_eq, hnone, not_false_eq_true, true_and]
    cases hof : Candles.ofTrades ((f₀.handledTrades steps symbol).map (·.1)).reverse <;> simp

/-- **Closing prices.** Let a Coinbase feed be opened and run without a fault, and let all trades
of a pair be kept. A query for the pair gives candles if and only if there are trades and the sizes
in each window have a sum. There is one candle for each window then, and it closes with the trade
of the last millisecond of the window that was handled first. It closes with the one that was
handled last if and only if that one has the same price. -/
theorem candles_close_with_oldest
    (hopen : (open? .coinbase configured options pairs listing).result = .ok f₀)
    (hrun : f₀.run steps = .ok f) (p : Pair)
    (hkept : Store.Kept (Int64.ofNat options.candlePeriod) Trade.timestamp
      (f₀.handledTrades steps p.symbol)) :
    ∃ handled inOrder ws,
      handled = (f₀.handledTrades steps p.symbol).map (·.1) ∧
      inOrder.Perm handled ∧ Candles.InOrder inOrder ∧ Candles.IsCut inOrder ws ∧
      ((∃ table, (f.candles [p]).result = .ok table) ↔
        handled ≠ [] ∧ ∀ w ∈ ws, (Candles.volume? w).isSome) ∧
      ∀ table, (f.candles [p]).result = .ok table → ∃ candles,
        table = Table.empty.put p.symbol candles ∧
        List.Forall₂ (Candles.ClosesWith Candles.oldestAt handled) ws candles ∧
        (List.Forall₂ (Candles.ClosesWith Candles.newestAt handled) ws candles ↔
          ∀ c ∈ candles, (Candles.newestAt c.timestamp handled).map (·.price) =
            (Candles.oldestAt c.timestamp handled).map (·.price)) := by
  have hcandles {candles : List Candle} : f.candlesOf p.symbol = .ok candles ↔ _ :=
    candlesOf_eq_ok hopen hrun hkept
  have hfit : Candles.AgesFit ((f₀.handledTrades steps p.symbol).map (·.1)).reverse :=
    agesFit_handledTrades hopen
  refine ⟨_, Candles.sorted ((f₀.handledTrades steps p.symbol).map (·.1)).reverse, _, rfl,
    (List.mergeSort_perm _ _).trans (List.reverse_perm _), Candles.sorted_pairwise _,
    Candles.windows_isCut _, ?_, fun table htable => ?_⟩
  · rw [← Candles.exists_ofTrades_iff hfit, ne_eq, List.map_eq_nil_iff]
    constructor
    · rintro ⟨table, htable⟩
      obtain ⟨candles, hfound, -⟩ := candles_singleton_eq_ok.mp htable
      obtain ⟨hsome, hof⟩ := hcandles.mp hfound
      exact ⟨hsome, candles, hof⟩
    · rintro ⟨hsome, candles, hof⟩
      exact ⟨_, candles_singleton_eq_ok.mpr ⟨candles, hcandles.mpr ⟨hsome, hof⟩, rfl⟩⟩
  · obtain ⟨candles, hfound, htable⟩ := candles_singleton_eq_ok.mp htable
    obtain ⟨-, hof⟩ := hcandles.mp hfound
    exact ⟨candles, htable, Candles.closesWith_oldest hof, Candles.closesWith_newest_iff hof⟩

end Run

/-- A trade message as Coinbase sends it. -/
def coinbaseTrade (product time size price : String) : List UInt8 :=
  Json.ascii (Json.Value.object [("type", .string "match"), ("product_id", .string product),
    ("time", .string time), ("size", .string size), ("price", .string price)]).render

/-- Two trades of one millisecond, at the prices 2 and then 3. -/
def sameMillisecond : List Step := [
  .frame (5 : Int64) (coinbaseTrade "ATOM-USDT" "2022-03-15T08:01:27.000100Z" "1" "2"),
  .frame (6 : Int64) (coinbaseTrade "ATOM-USDT" "2022-03-15T08:01:27.000900Z" "1" "3")]

/-- A small whole number. -/
def whole (n : Nat) : Decimal := (Decimal.ofDigits? false n 0).getD .zero

/-- The trades of that run. -/
def sameMillisecondTrades : List (Trade × Int64) := [
  (⟨"ATOMUSDT", 1647331287000, whole 1, whole 2⟩, 5),
  (⟨"ATOMUSDT", 1647331287000, whole 1, whole 3⟩, 6)]

/-- The candle that the run gives: the price is 2. -/
def sameMillisecondCandle : Candle := ⟨whole 2, whole 2, 1647331287000⟩

private theorem kept_sameMillisecond :
    Store.Kept (Int64.ofNat FeedOptions.default.candlePeriod) Trade.timestamp
      sameMillisecondTrades := by
  unfold Store.Kept Store.Fresh
  decide

private theorem ofTrades_sameMillisecond :
    Candles.ofTrades (sameMillisecondTrades.map (·.1)).reverse = .ok [sameMillisecondCandle] := by
  have hsorted : Candles.sorted (sameMillisecondTrades.map (·.1)).reverse =
      (sameMillisecondTrades.map (·.1)).reverse :=
    List.mergeSort_of_pairwise (by decide)
  unfold Candles.ofTrades
  rw [hsorted]
  decide +kernel

private theorem exists_sameMillisecond :
    ∃ f₀ f,
      (open? .coinbase none .default [.of "atom" "usdt"]
        (.ok (coinbaseListing [.of "atom" "usdt"]))).result = .ok f₀ ∧
      f₀.run sameMillisecond = .ok f ∧
      f₀.handledTrades sameMillisecond "ATOMUSDT" = sameMillisecondTrades ∧
      (f.candles [.of "atom" "usdt"]).result =
        .ok (Table.empty.put "ATOMUSDT" [sameMillisecondCandle]) := by
  have hall : ((open? .coinbase none .default [.of "atom" "usdt"]
      (.ok (coinbaseListing [.of "atom" "usdt"]))).result.toOption.bind fun f₀ =>
        (f₀.run sameMillisecond).toOption.map fun _ =>
          f₀.handledTrades sameMillisecond "ATOMUSDT") = some sameMillisecondTrades := by
    simp only [sameMillisecond, coinbaseListing, coinbaseTrade, Json.ascii_render]
    decide +kernel
  obtain ⟨f₀, hopen, hrest⟩ := Option.bind_eq_some_iff.mp hall
  obtain ⟨f, hrun, hhandled⟩ := Option.map_eq_some_iff.mp hrest
  rw [toOption_eq_some] at hopen hrun
  have hcandles := (candlesOf_eq_ok hopen hrun (hhandled.symm ▸ kept_sameMillisecond)).mpr
    ⟨by rw [hhandled]; decide, by rw [hhandled]; exact ofTrades_sameMillisecond⟩
  exact ⟨f₀, f, hopen, hrun, hhandled, candles_singleton_eq_ok.mpr ⟨_, hcandles, rfl⟩⟩

/-- The trades of that run are kept; its candle has the price of the one handled first. -/
theorem candles_close_with_oldest_sameMillisecond :
    ∃ f₀ f candles,
      (open? .coinbase none .default [.of "atom" "usdt"]
        (.ok (coinbaseListing [.of "atom" "usdt"]))).result = .ok f₀ ∧
      f₀.run sameMillisecond = .ok f ∧
      Store.Kept (Int64.ofNat FeedOptions.default.candlePeriod) Trade.timestamp
        (f₀.handledTrades sameMillisecond "ATOMUSDT") ∧
      (f.candles [.of "atom" "usdt"]).result = .ok (Table.empty.put "ATOMUSDT" candles) ∧
      ∃ ws, List.Forall₂
        (Candles.ClosesWith Candles.oldestAt (sameMillisecondTrades.map (·.1))) ws candles := by
  obtain ⟨f₀, f, hopen, hrun, hhandled, hcandles⟩ := exists_sameMillisecond
  have hkept := hhandled.symm ▸ kept_sameMillisecond
  obtain ⟨handled, -, ws, rfl, -, -, -, -, hclose⟩ :=
    candles_close_with_oldest hopen hrun (.of "atom" "usdt") hkept
  obtain ⟨candles, htable, holdest, -⟩ := hclose _ hcandles
  have hsymbol : (Pair.of "atom" "usdt").symbol = "ATOMUSDT" := by decide
  rw [hsymbol] at htable holdest
  rw [hhandled] at holdest
  exact ⟨f₀, f, candles, hopen, hrun, hkept, htable ▸ hcandles, ws, holdest⟩

/-- Candles do not always close with the trades handled last: all trades of that run are kept, and
its candle has not the price of the second one. -/
theorem candles_not_close_with_newest :
    ∃ f₀ f candles,
      (open? .coinbase none .default [.of "atom" "usdt"]
        (.ok (coinbaseListing [.of "atom" "usdt"]))).result = .ok f₀ ∧
      f₀.run sameMillisecond = .ok f ∧
      Store.Kept (Int64.ofNat FeedOptions.default.candlePeriod) Trade.timestamp
        (f₀.handledTrades sameMillisecond "ATOMUSDT") ∧
      (f.candles [.of "atom" "usdt"]).result = .ok (Table.empty.put "ATOMUSDT" candles) ∧
      ∀ ws, ¬ List.Forall₂ (Candles.ClosesWith Candles.newestAt
        ((f₀.handledTrades sameMillisecond "ATOMUSDT").map (·.1))) ws candles := by
  obtain ⟨f₀, f, hopen, hrun, hhandled, hcandles⟩ := exists_sameMillisecond
  refine ⟨f₀, f, _, hopen, hrun, hhandled.symm ▸ kept_sameMillisecond, hcandles,
    fun ws hclose => ?_⟩
  rw [hhandled] at hclose
  obtain ⟨w, -, ⟨-, t, -, -, hprice, hpick⟩, -⟩ := List.forall₂_cons_right_iff.mp hclose
  have hnewest : (Candles.newestAt sameMillisecondCandle.timestamp
      (sameMillisecondTrades.map (·.1))).map (·.price) = some sameMillisecondCandle.price := by
    rw [hpick, Option.map_some, hprice]
  revert hnewest
  decide

end Feed

end MarketFeed
