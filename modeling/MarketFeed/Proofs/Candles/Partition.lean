import MarketFeed.Proofs.Candles.Closing

/-!
# Candles and windows

What makes lists of trades the windows of trades leaves no choice: there is one way to cut. So the
candles of trades can be told without the program that cuts, by the only lists that are windows of
the sorted trades.

* `IsCut.unique`: trades are cut into windows in one way.
* `candles_pairwise`: the times of candles increase.
* `ofTrades_partition`: what the candles of trades are.
-/

namespace MarketFeed.Candles

/-! ## One way to cut -/

section Cut

variable {trades w : List Trade} {ws ws' : List (List Trade)}

/-- The lists behind the first one are the windows of the trades behind it. -/
theorem IsCut.tail (h : IsCut trades (w :: ws)) : IsCut ws.flatten ws where
  flatten := rfl
  nonempty u hu := h.nonempty u (List.mem_cons_of_mem w hu)
  within u hu := h.within u (List.mem_cons_of_mem w hu)
  later := (List.isChain_cons.mp h.later).2

/-- The first window is as long as possible. -/
theorem IsCut.eq_takeWhile {t : Trade} {rest : List Trade} (h : IsCut (t :: rest) (w :: ws)) :
    w = (t :: rest).takeWhile (Within t.timestamp ·) := by
  have hsplit : w ++ ws.flatten = t :: rest := h.flatten
  have hhead : w.head? = some t := by
    rw [← List.head?_append_of_ne_nil w (h.nonempty w List.mem_cons_self), hsplit, List.head?_cons]
  have hown : ∀ u ∈ w, decide (Within t.timestamp u) = true := fun u hu =>
    decide_eq_true (h.within w List.mem_cons_self t hhead u hu)
  -- The trade behind it opens the next window, so it comes too late for this one.
  have hbehind : ws.flatten.takeWhile (Within t.timestamp ·) = [] := by
    cases ws with
    | nil => rfl
    | cons next later =>
      obtain ⟨b, more, rfl⟩ := List.exists_cons_of_ne_nil (h.nonempty next (by simp))
      have hlate := (List.isChain_cons.mp h.later).1 _ rfl t hhead b rfl
      rw [List.flatten_cons, List.cons_append, List.takeWhile_cons_of_neg (by simpa using hlate)]
  rw [← hsplit, List.takeWhile_append_of_pos hown, hbehind, List.append_nil]

/-- Trades are cut into windows in one way. -/
theorem IsCut.unique (h : IsCut trades ws) (h' : IsCut trades ws') : ws = ws' := by
  induction ws generalizing trades ws' with
  | nil => exact (h'.eq_nil_iff.mpr (h.eq_nil_iff.mp rfl)).symm
  | cons w ws ih =>
    cases ws' with
    | nil => exact absurd (h.eq_nil_iff.mpr (h'.eq_nil_iff.mp rfl)) (List.cons_ne_nil _ _)
    | cons w' ws' =>
      obtain ⟨t, rest, rfl⟩ := List.exists_cons_of_ne_nil
        (mt h.eq_nil_iff.mpr (List.cons_ne_nil _ _))
      obtain rfl : w = w' := h.eq_takeWhile.trans h'.eq_takeWhile.symm
      have hbehind : ws'.flatten = ws.flatten :=
        List.append_cancel_left (h'.flatten.trans h.flatten.symm)
      rw [ih h.tail (hbehind ▸ h'.tail)]

end Cut

/-! ## The times of candles -/

/-- A candle has the time of a trade of its window. -/
theorem exists_mem_of_candle? {w : List Trade} {c : Candle} (h : candle? w = some c) :
    ∃ t ∈ w, t.timestamp = c.timestamp := by
  obtain ⟨last, hlast, -, -, htime⟩ := candle?_eq_some.mp h
  exact ⟨last, List.mem_of_getLast? hlast, htime.symm⟩

/-- If windows lie one before the other, so do the times of their candles. -/
theorem candles_pairwise {ws : List (List Trade)} {candles : List Candle}
    (hws : ws.Pairwise Before) (h : List.Forall₂ (candle? · = some ·) ws candles) :
    candles.Pairwise fun c later => c.timestamp.toInt < later.timestamp.toInt := by
  have hlength := h.length_eq
  rw [List.pairwise_iff_getElem] at hws ⊢
  intro i j hi hj hij
  obtain ⟨a, ha, hatime⟩ := exists_mem_of_candle? (h.get (hlength ▸ hi) hi)
  obtain ⟨b, hb, hbtime⟩ := exists_mem_of_candle? (h.get (hlength ▸ hj) hj)
  have hbefore := hws i j (hlength ▸ hi) (hlength ▸ hj) hij a ha b hb
  rwa [hatime, hbtime] at hbefore

/-! ## The candles of trades -/

/-- **Candles.** Let trades have candles. Sorting them keeps the trades and the order of those of a
time. The sorted trades can be cut in one way into lists that are windows, so that each trade is in
one window, and there is one candle for each window, in their order: it has the price and the time
of the last trade of its window and the sum of the sizes from the first one on. The times of the
candles increase, and there are none if and only if there are no trades. -/
theorem ofTrades_partition {trades : List Trade} {candles : List Candle}
    (h : ofTrades trades = .ok candles) :
    (InOrder (sorted trades) ∧ (sorted trades).Perm trades ∧
      ∀ time, (sorted trades).filter (·.timestamp = time) =
        trades.filter (·.timestamp = time)) ∧
    (∃ ws, IsCut (sorted trades) ws ∧ (∀ ws', IsCut (sorted trades) ws' → ws' = ws) ∧
      ws.flatten.Perm trades ∧
      List.Forall₂ (fun w c => ∃ last, w.getLast? = some last ∧ c.price = last.price ∧
        c.timestamp = last.timestamp ∧ volume? w = some c.volume) ws candles) ∧
    candles.Pairwise (fun c later => c.timestamp.toInt < later.timestamp.toInt) ∧
    (candles = [] ↔ trades = []) := by
  have hcut := windows_isCut (sorted trades)
  have hcandles := candles_of_ofTrades h
  refine ⟨⟨sorted_pairwise trades, sorted_perm trades, fun time => filter_sorted time trades⟩,
    ⟨_, hcut, fun ws' h' => h'.unique hcut, flatten_windows_perm trades, ?_⟩,
    candles_pairwise (windows_pairwise (sorted_pairwise trades)) hcandles, ofTrades_eq_nil_iff h⟩
  refine hcandles.imp fun w c hc => ?_
  obtain ⟨last, hlast, hvolume, hprice, htime⟩ := candle?_eq_some.mp hc
  exact ⟨last, hlast, hprice, htime, hvolume⟩

/-- A trade with the digits and the scale of its size and a price without fraction digits. -/
def tradeOf (timestamp : Int64) (size scale price : Nat) : Trade :=
  ⟨"ATOMUSDT", timestamp, (Decimal.ofDigits? false size scale).getD .zero,
    (Decimal.ofDigits? false price 0).getD .zero⟩

/-- Trades over more than a minute, the last of them first and two of one time. -/
def acrossMinute : List Trade :=
  [tradeOf 60001 1 0 10, tradeOf 60000 2 0 20, tradeOf 0 3 0 30, tradeOf 60000 4 0 40]

/-- The window that opens first takes the trades a minute later. -/
theorem ofTrades_partition_acrossMinute :
    ∃ ws candles, ofTrades acrossMinute = .ok candles ∧
      candles.map (fun c => (c.timestamp, c.volume.render, c.price.render)) =
        [(60000, "9", "40"), (60001, "1", "10")] ∧
      (∀ ws', IsCut (sorted acrossMinute) ws' → ws' = ws) ∧
      candles.Pairwise fun c later => c.timestamp.toInt < later.timestamp.toInt := by
  have hsorted : sorted acrossMinute =
      [tradeOf 0 3 0 30, tradeOf 60000 2 0 20, tradeOf 60000 4 0 40, tradeOf 60001 1 0 10] := by
    simp [sorted, acrossMinute, tradeOf, List.mergeSort, List.MergeSort.Internal.splitInTwo]
  have hall : (ofTrades acrossMinute).toOption.map
      (List.map fun c => (c.timestamp, c.volume.render, c.price.render)) =
        some [(60000, "9", "40"), (60001, "1", "10")] := by
    unfold ofTrades
    rw [hsorted]
    decide +kernel
  obtain ⟨candles, hcandles, hfields⟩ := Option.map_eq_some_iff.mp hall
  rw [toOption_eq_some] at hcandles
  obtain ⟨-, ⟨ws, -, hunique, -, -⟩, hincrease, -⟩ := ofTrades_partition hcandles
  exact ⟨ws, candles, hcandles, hfields, hunique, hincrease⟩

end MarketFeed.Candles
