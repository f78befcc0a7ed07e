import MarketFeed.Proofs.Store.Writes

/-!
# The history of a store

What a store holds after a run of writes, told from the writes alone. Entries leave a list only
when the same list is written to, so an entry is there as long as no later write to its list has
found it stale; the clock may run in any way meanwhile.

* `survivors`: the entries of a history that are still there.
* `Reflects`: a store holds what a run of writes has left. `Reflects.write` is the step and
  `Reflects.writeAll` the run.
* `queries_writeAll_new`: what every query answers after a run of writes to an empty store.
-/

namespace MarketFeed

namespace Store

variable {α : Type}

/-! ## The entries of a history -/

/-- The entries of a history that all later writes have found fresh, the newest first. A history
holds the entries in the order of writing, each with the reading of the clock at its write. -/
def survivors (period : Int64) (time : α → Int64) : List (α × Int64) → List α
  | [] => []
  | (a, _) :: later =>
    survivors period time later ++
      if ∀ w ∈ later, Fresh period w.2 (time a) then [a] else []

/-- One more write drops the entries that it finds stale and puts its own in front. -/
theorem survivors_concat (period : Int64) (time : α → Int64) (history : List (α × Int64)) (item : α)
    (now : Int64) :
    survivors period time (history ++ [(item, now)]) =
      item :: (survivors period time history).filter fun a => Fresh period now (time a) := by
  induction history with
  | nil => simp [survivors]
  | cons w later ih =>
    obtain ⟨a, n⟩ := w
    simp only [List.cons_append, survivors, ih, List.filter_append]
    congr 2
    by_cases hlater : ∀ w ∈ later, Fresh period w.2 (time a)
    · by_cases hnow : Fresh period now (time a)
      · have hall : ∀ w ∈ later ++ [(item, now)], Fresh period w.2 (time a) :=
          List.forall_mem_append.mpr ⟨hlater, List.forall_mem_singleton.mpr hnow⟩
        rw [if_pos hall, if_pos hlater]
        simp [hnow]
      · have hnot : ¬ ∀ w ∈ later ++ [(item, now)], Fresh period w.2 (time a) :=
          fun h => hnow (h (item, now) (by simp))
        rw [if_neg hnot, if_pos hlater]
        simp [hnow]
    · have hnot : ¬ ∀ w ∈ later ++ [(item, now)], Fresh period w.2 (time a) :=
        fun h => hlater fun w hw => h w (List.mem_append_left _ hw)
      rw [if_neg hnot, if_neg hlater]
      rfl

/-- The last entry of a history is always there. -/
theorem survivors_ne_nil {period : Int64} {time : α → Int64} {history : List (α × Int64)}
    (h : history ≠ []) : survivors period time history ≠ [] := by
  rw [← List.dropLast_concat_getLast h]
  obtain ⟨item, now⟩ := history.getLast h
  rw [survivors_concat]
  exact List.cons_ne_nil _ _

/-- The list that a history leaves behind. There is none before the first write. -/
def remaining (period : Int64) (time : α → Int64) (history : List (α × Int64)) :
    Option (List α) :=
  if history.isEmpty then none else some (survivors period time history)

theorem remaining_ne_some_nil (period : Int64) (time : α → Int64) (history : List (α × Int64)) :
    remaining period time history ≠ some [] := by
  unfold remaining
  split
  · exact (Option.some_ne_none _).symm
  · rename_i hsome
    rw [ne_eq, Option.some.injEq]
    exact survivors_ne_nil (mt List.isEmpty_iff.mpr hsome)

theorem remaining_concat (period : Int64) (time : α → Int64) (history : List (α × Int64))
    (item : α) (now : Int64) :
    remaining period time (history ++ [(item, now)]) =
      some (item :: ((remaining period time history).getD []).filter
        fun a => Fresh period now (time a)) := by
  unfold remaining
  rw [survivors_concat]
  cases history with
  | nil => simp [survivors]
  | cons w later => simp

/-- Inserting into a table of lists extends the history of the key by one write. -/
theorem get?_insertFresh_remaining {t : Table (List α)} {period now : Int64} {time : α → Int64}
    {key symbol : String} {history : List (α × Int64)}
    (h : t.get? symbol = remaining period time history) (item : α) :
    (insertFresh period now time key item t).get? symbol =
      remaining period time
        (history ++ (if key = symbol then some (item, now) else none).toList) := by
  rw [get?_insertFresh]
  by_cases hk : key = symbol
  · subst hk
    rw [if_pos rfl, if_pos rfl, Option.toList_some, remaining_concat, h]
  · rw [if_neg (Ne.symm hk), if_neg hk, Option.toList_none, List.append_nil, h]

/-! ## The store of a history -/

/-- A store holds what a run of writes has left. -/
structure Reflects (s : Store) (writes : List Write) : Prop where
  tickers : ∀ symbol, s.tickers.get? symbol = (writes.filterMap (·.ticker? symbol)).getLast?
  candles : ∀ symbol, s.candles.get? symbol =
    remaining s.period Candle.timestamp (writes.filterMap (·.candle? symbol))
  trades : ∀ symbol, s.trades.get? symbol =
    remaining s.period Trade.timestamp (writes.filterMap (·.trade? symbol))

theorem reflects_new (provider : Provider) (millis : Nat) : (new provider millis).Reflects [] where
  tickers _ := rfl
  candles _ := rfl
  trades _ := rfl

private theorem filterMap_concat {β : Type} (f : Write → Option β) (ws : List Write) (w : Write) :
    (ws ++ [w]).filterMap f = ws.filterMap f ++ (f w).toList := by
  rw [List.filterMap_append]
  cases h : f w <;> simp [h]

private theorem filterMap_concat_none {β : Type} {f : Write → Option β} {w : Write}
    (h : f w = none) (ws : List Write) : (ws ++ [w]).filterMap f = ws.filterMap f := by
  rw [filterMap_concat, h, Option.toList_none, List.append_nil]

/-- The step: a write extends what a store reflects. -/
theorem Reflects.write {s s' : Store} {ws : List Write} {w : Write} (h : s.Reflects ws)
    (hw : s.write w = .ok s') : s'.Reflects (ws ++ [w]) := by
  cases w with
  | ticker key t =>
    obtain rfl := Except.ok.inj hw
    refine ⟨fun symbol => ?_, fun symbol => ?_, fun symbol => ?_⟩
    · rw [filterMap_concat]
      simp only [setTicker, Table.get?_put, Write.ticker?, h.tickers symbol]
      by_cases hk : key = symbol
      · simp [hk]
      · rw [if_neg (Ne.symm hk), if_neg hk, Option.toList_none, List.append_nil]
    · rw [filterMap_concat_none rfl]
      exact h.candles symbol
    · rw [filterMap_concat_none rfl]
      exact h.trades symbol
  | candle key c now =>
    obtain ⟨-, rfl⟩ := setCandle_eq_ok.mp hw
    refine ⟨fun symbol => ?_, fun symbol => ?_, fun symbol => ?_⟩
    · rw [filterMap_concat_none rfl]
      exact h.tickers symbol
    · rw [filterMap_concat]
      exact get?_insertFresh_remaining (h.candles symbol) c
    · rw [filterMap_concat_none rfl]
      exact h.trades symbol
  | trade t now =>
    obtain ⟨-, rfl⟩ := setTrade_eq_ok.mp hw
    refine ⟨fun symbol => ?_, fun symbol => ?_, fun symbol => ?_⟩
    · rw [filterMap_concat_none rfl]
      exact h.tickers symbol
    · rw [filterMap_concat_none rfl]
      exact h.candles symbol
    · rw [filterMap_concat]
      exact get?_insertFresh_remaining (h.trades symbol) t

theorem Reflects.writeAll {s s' : Store} {ws more : List Write} (h : s.Reflects ws)
    (hm : s.writeAll more = .ok s') : s'.Reflects (ws ++ more) := by
  induction more using List.reverseRecOn generalizing s' with
  | nil =>
    obtain rfl := Except.ok.inj hm
    simpa using h
  | append_singleton more w ih =>
    obtain ⟨mid, hmid, hw⟩ := writeAll_concat.mp hm
    rw [← List.append_assoc]
    exact (ih hmid).write hw

/-! ## Queries -/

/-- The answer to a query for a list: what a history has left of it. -/
def answerOf (period : Int64) (time : α → Int64) (missing : FeedError)
    (history : List (α × Int64)) : Except FeedError (List α) :=
  if history.isEmpty then .error missing else .ok (survivors period time history)

theorem Reflects.ticker {s : Store} {ws : List Write} (h : s.Reflects ws) (symbol : String) :
    s.ticker symbol =
      match (ws.filterMap (·.ticker? symbol)).getLast? with
      | some t => .ok t
      | none => .error (.tickerNotFound s.provider symbol) := by
  have hget := h.tickers symbol
  unfold Store.ticker
  cases hlast : (ws.filterMap (·.ticker? symbol)).getLast? with
  | some t =>
    rw [hlast] at hget
    rw [hget]
  | none =>
    rw [hlast] at hget
    rw [hget]

theorem Reflects.candlesOf {s : Store} {ws : List Write} (h : s.Reflects ws) (symbol : String) :
    s.candlesOf symbol = answerOf s.period Candle.timestamp (.candleNotFound s.provider symbol)
      (ws.filterMap (·.candle? symbol)) := by
  unfold Store.candlesOf answerOf
  rw [h.candles symbol, remaining]
  split <;> simp_all

theorem Reflects.tradesOf {s : Store} {ws : List Write} (h : s.Reflects ws) (symbol : String) :
    s.tradesOf symbol = answerOf s.period Trade.timestamp (.candleNotFound s.provider symbol)
      (ws.filterMap (·.trade? symbol)) := by
  unfold Store.tradesOf answerOf
  rw [h.trades symbol, remaining]
  split <;> simp_all

/-- **History law.** A run of writes to an empty store whose cutoffs fit has a result. There the
ticker of a symbol is the last one written to it; its candles, and its trades, are not found if
none was written, and else they are the ones that every later write to the same list has found
fresh, the newest first. One more write changes no answer that it is not about. -/
theorem queries_writeAll_new (provider : Provider) (millis : Nat) (writes : List Write)
    (h : ∀ w ∈ writes, w.InRange (Int64.ofNat millis)) :
    ∃ s, (new provider millis).writeAll writes = .ok s ∧
      (∀ symbol, s.ticker symbol =
        match (writes.filterMap (·.ticker? symbol)).getLast? with
        | some t => .ok t
        | none => .error (.tickerNotFound provider symbol)) ∧
      (∀ symbol, s.candlesOf symbol = answerOf (Int64.ofNat millis) Candle.timestamp
        (.candleNotFound provider symbol) (writes.filterMap (·.candle? symbol))) ∧
      (∀ symbol, s.tradesOf symbol = answerOf (Int64.ofNat millis) Trade.timestamp
        (.candleNotFound provider symbol) (writes.filterMap (·.trade? symbol))) ∧
      (∀ w s', s.write w = .ok s' → ∀ symbol,
        (w.ticker? symbol = none → s'.ticker symbol = s.ticker symbol) ∧
        (w.candle? symbol = none → s'.candlesOf symbol = s.candlesOf symbol) ∧
        (w.trade? symbol = none → s'.tradesOf symbol = s.tradesOf symbol)) := by
  obtain ⟨s, hs⟩ := exists_writeAll (s := new provider millis) h
  obtain ⟨hperiod, hprovider⟩ := writeAll_period hs
  have hr : s.Reflects writes := by simpa using (reflects_new provider millis).writeAll hs
  have hp : s.period = Int64.ofNat millis := hperiod
  have hq : s.provider = provider := hprovider
  refine ⟨s, hs, fun symbol => ?_, fun symbol => ?_, fun symbol => ?_,
    fun w s' hw => write_frame hw⟩
  · rw [hr.ticker symbol, hq]
  · rw [hr.candlesOf symbol, hp, hq]
  · rw [hr.tradesOf symbol, hp, hq]

/-- With a retention of 60 and a clock that runs back: a later write finds one of two candles
stale, keeps the other and its own, which is older than its own cutoff. -/
theorem queries_writeAll_new_clock_runs_back :
    ∃ s, (new .coinbase 60).writeAll
        [.candle "A" ⟨.zero, .zero, 100⟩ 150, .candle "A" ⟨.zero, .zero, 50⟩ 90,
          .candle "B" ⟨.zero, .zero, 7⟩ 5000, .trade ⟨"A", 1, .zero, .zero⟩ 5000,
          .candle "A" ⟨.zero, .zero, 20⟩ 130] = .ok s ∧
      s.candlesOf "A" = .ok [⟨.zero, .zero, 20⟩, ⟨.zero, .zero, 100⟩] ∧
      s.candlesOf "B" = .ok [⟨.zero, .zero, 7⟩] ∧
      s.tradesOf "B" = .error (.candleNotFound .coinbase "B") := by
  obtain ⟨s, hs, -, hcandles, htrades, -⟩ := queries_writeAll_new .coinbase 60
    [.candle "A" ⟨.zero, .zero, 100⟩ 150, .candle "A" ⟨.zero, .zero, 50⟩ 90,
      .candle "B" ⟨.zero, .zero, 7⟩ 5000, .trade ⟨"A", 1, .zero, .zero⟩ 5000,
      .candle "A" ⟨.zero, .zero, 20⟩ 130] (by decide)
  exact ⟨s, hs, (hcandles "A").trans (by decide), (hcandles "B").trans (by decide),
    (htrades "B").trans (by decide)⟩

end Store

end MarketFeed
