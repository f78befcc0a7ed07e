import MarketFeed.Proofs.Candles.Partition
import MarketFeed.Proofs.Decimal.Rounding

/-!
# A newer trade

A trade that is newer than all others comes last in the order of times. So it joins the last window
or opens one behind it, and all windows before stay what they were, and their candles with them.

* `sorted_cons_of_newer`: the place of a newer trade.
* `windows_join`, `windows_reopen`: the windows with a newer trade.
* `ofTrades_newer`: the candles with a newer trade.
-/

namespace MarketFeed.Candles

variable {trades more w : List Trade} {ws : List (List Trade)} {a t : Trade}

/-- A newer trade comes last. -/
theorem sorted_cons_of_newer (h : ∀ u ∈ trades, u.timestamp.toInt < t.timestamp.toInt) :
    sorted (t :: trades) = sorted trades ++ [t] := by
  obtain ⟨before, after, hwith, hwithout, -⟩ :=
    List.mergeSort_cons earlier_trans earlier_total t trades
  have horder := sorted_pairwise (t :: trades)
  rw [sorted, hwith] at horder
  have hlater := (List.pairwise_cons.mp (List.pairwise_append.mp horder).2.1).1
  obtain rfl : after = [] := by
    refine List.eq_nil_iff_forall_not_mem.mpr fun u hu => ?_
    have hmem : u ∈ trades := List.mem_mergeSort.mp (hwithout ▸ List.mem_append_right before hu)
    exact absurd (h u hmem) (Int.not_lt.mpr (hlater u hu))
  rw [sorted, sorted, hwith, hwithout, List.append_nil]

/-! ## Windows -/

/-- A trade within a minute of the first one of the last window joins it. -/
theorem IsCut.join (h : IsCut trades (ws ++ [a :: more])) (hin : Within a.timestamp t) :
    IsCut (trades ++ [t]) (ws ++ [a :: (more ++ [t])]) := by
  obtain ⟨hflatten, hnonempty, hwithin, hlater⟩ := h
  rw [List.forall_mem_append, List.forall_mem_singleton] at hnonempty hwithin
  refine ⟨?_, ?_, ?_, ?_⟩
  · rw [← hflatten]
    simp
  · rw [List.forall_mem_append, List.forall_mem_singleton]
    exact ⟨hnonempty.1, List.cons_ne_nil _ _⟩
  · rw [List.forall_mem_append, List.forall_mem_singleton]
    refine ⟨hwithin.1, fun b hb u hu => ?_⟩
    obtain rfl : a = b := Option.some.inj hb
    rw [← List.cons_append, List.mem_append, List.mem_singleton] at hu
    rcases hu with hu | rfl
    · exact hwithin.2 a rfl u hu
    · exact hin
  · rw [List.isChain_append] at hlater ⊢
    exact ⟨hlater.1, .singleton _, by simpa using hlater.2.2⟩

/-- A later one opens the next window. -/
theorem IsCut.reopen (h : IsCut trades (ws ++ [a :: more])) (hlate : ¬ Within a.timestamp t) :
    IsCut (trades ++ [t]) (ws ++ [a :: more] ++ [[t]]) := by
  obtain ⟨hflatten, hnonempty, hwithin, hlater⟩ := h
  refine ⟨?_, ?_, ?_, ?_⟩
  · rw [List.flatten_append, hflatten]
    rfl
  · rw [List.forall_mem_append, List.forall_mem_singleton]
    exact ⟨hnonempty, List.cons_ne_nil _ _⟩
  · rw [List.forall_mem_append, List.forall_mem_singleton]
    refine ⟨hwithin, fun b hb u hu => ?_⟩
    obtain rfl : t = b := Option.some.inj hb
    obtain rfl := List.mem_singleton.mp hu
    exact within_self u
  · rw [List.isChain_append]
    exact ⟨hlater, .singleton _, by simpa using hlate⟩

theorem windows_join (hws : windows trades = ws ++ [a :: more]) (hin : Within a.timestamp t) :
    windows (trades ++ [t]) = ws ++ [a :: (more ++ [t])] :=
  (windows_isCut (trades ++ [t])).unique ((hws ▸ windows_isCut trades).join hin)

theorem windows_reopen (hws : windows trades = ws ++ [a :: more])
    (hlate : ¬ Within a.timestamp t) :
    windows (trades ++ [t]) = ws ++ [a :: more] ++ [[t]] :=
  (windows_isCut (trades ++ [t])).unique ((hws ▸ windows_isCut trades).reopen hlate)

/-! ## Candles of windows -/

section Candles

variable {candles others later : List Candle} {last c : Candle}

/-- The last window has the last candle. -/
theorem exists_of_candles_concat (h : List.Forall₂ (candle? · = some ·) (ws ++ [w]) candles) :
    ∃ closed last, candles = closed ++ [last] ∧ List.Forall₂ (candle? · = some ·) ws closed ∧
      candle? w = some last := by
  induction ws generalizing candles with
  | nil =>
    obtain ⟨last, rest, hlast, hrest, rfl⟩ := List.forall₂_cons_left_iff.mp h
    obtain rfl := List.forall₂_nil_left_iff.mp hrest
    exact ⟨[], last, rfl, .nil, hlast⟩
  | cons first ws ih =>
    obtain ⟨c, rest, hc, hrest, rfl⟩ := List.forall₂_cons_left_iff.mp h
    obtain ⟨closed, last, rfl, hclosed, hlast⟩ := ih hrest
    exact ⟨c :: closed, last, rfl, .cons hc hclosed, hlast⟩

/-- Windows have one list of candles. -/
theorem candles_unique (h : List.Forall₂ (candle? · = some ·) ws candles)
    (h' : List.Forall₂ (candle? · = some ·) ws others) : candles = others := by
  refine Relator.RightUnique.forall₂ (fun w c c' hc hc' => ?_) h h'
  exact Option.some.inj (hc.symm.trans hc')

/-- A window that takes one more trade. -/
theorem candle?_concat (hlast : candle? w = some last) (hc : candle? (w ++ [t]) = some c) :
    ∃ volume, last.volume.add? t.size = some volume ∧ c = ⟨t.price, volume, t.timestamp⟩ := by
  obtain ⟨-, -, hvolume, -, -⟩ := candle?_eq_some.mp hlast
  obtain ⟨newest, hnewest, hsum, hprice, htime⟩ := candle?_eq_some.mp hc
  obtain rfl : t = newest := by simpa using hnewest
  rw [volume?_append hvolume, List.foldlM_cons, Option.bind_eq_bind] at hsum
  obtain ⟨volume, hadd, hsame⟩ := Option.bind_eq_some_iff.mp hsum
  obtain rfl := Option.some.inj hsame
  exact ⟨c.volume, hadd, by rw [← hprice, ← htime]⟩

/-! ## Candles of trades -/

/-- What is cut from the first trades can be cut without the trades behind them. -/
theorem exists_cut_of_append {w : Window} {rest : List Trade}
    (h : cut w (rest ++ more) = .ok later) : ∃ candles, cut w rest = .ok candles := by
  induction rest generalizing w later with
  | nil => exact ⟨[w.candle], rfl⟩
  | cons u rest ih =>
    obtain ⟨hfit, h⟩ := cut_cons.mp h
    by_cases hin : Within w.start u
    · rw [if_pos hin] at h
      obtain ⟨next, hadd, hcut⟩ := h
      obtain ⟨candles, hcandles⟩ := ih hcut
      exact ⟨candles, cut_cons.mpr ⟨hfit, by rw [if_pos hin]; exact ⟨next, hadd, hcandles⟩⟩⟩
    · rw [if_neg hin] at h
      obtain ⟨behind, hcut, -⟩ := h
      obtain ⟨candles, hcandles⟩ := ih hcut
      exact ⟨w.candle :: candles,
        cut_cons.mpr ⟨hfit, by rw [if_neg hin]; exact ⟨candles, hcandles, rfl⟩⟩⟩

theorem exists_ofTrades_of_newer (hnewer : ∀ u ∈ trades, u.timestamp.toInt < t.timestamp.toInt)
    (h : ofTrades (t :: trades) = .ok later) : ∃ candles, ofTrades trades = .ok candles := by
  unfold ofTrades at h ⊢
  rw [sorted_cons_of_newer hnewer] at h
  cases hsorted : sorted trades with
  | nil => exact ⟨[], rfl⟩
  | cons u rest =>
    rw [hsorted] at h
    exact exists_cut_of_append h

theorem ofTrades_nil : ofTrades [] = .ok [] := by
  simp [ofTrades, sorted]

theorem ofTrades_singleton (t : Trade) :
    ofTrades [t] = .ok [⟨t.price, t.size, t.timestamp⟩] := by
  simp [ofTrades, sorted, cut, Window.open, Window.candle]

end Candles

/-- The first trade of the last window of trades. -/
def lastOpening (trades : List Trade) : Option Trade :=
  (windows (sorted trades)).getLast?.bind List.head?

/-- Does a trade that is newer than others open a window? It does if there are no others, or if it
is more than a minute later than the first trade of their last window. -/
def Reopens (trades : List Trade) (t : Trade) : Prop :=
  trades = [] ∨ ∃ first, lastOpening trades = some first ∧
    windowMillis < t.timestamp.toInt - first.timestamp.toInt

theorem exists_lastWindow (h : trades ≠ []) :
    ∃ ws a more, windows (sorted trades) = ws ++ [a :: more] ∧ lastOpening trades = some a := by
  have hcut := windows_isCut (sorted trades)
  have hsome : windows (sorted trades) ≠ [] := by
    rw [ne_eq, hcut.eq_nil_iff, ← List.length_eq_zero_iff, (sorted_perm trades).length_eq,
      List.length_eq_zero_iff]
    exact h
  obtain ⟨ws, w, hws⟩ := List.eq_nil_or_concat'  _ |>.resolve_left hsome
  obtain ⟨a, more, rfl⟩ := List.exists_cons_of_ne_nil
    (hcut.nonempty w (hws ▸ List.mem_append_right ws List.mem_cons_self))
  exact ⟨ws, a, more, hws, by simp [lastOpening, hws]⟩

theorem not_reopens_iff (hfirst : lastOpening trades = some a) (hsome : trades ≠ []) :
    ¬ Reopens trades t ↔ Within a.timestamp t := by
  simp [Reopens, hfirst, hsome, Within]

/-- **A newer trade.** Let a trade be newer than all others, and let them all have candles. Then
the others have candles as well. If the trade opens a window, its candle comes behind theirs. If it
does not, only the last candle changes: it gets the price and the time of the trade, and its volume
grows by the size. This sum is exact if and only if the exact one is a decimal. -/
theorem ofTrades_newer {trades : List Trade} {t : Trade} {later : List Candle}
    (hnewer : ∀ u ∈ trades, u.timestamp.toInt < t.timestamp.toInt)
    (h : ofTrades (t :: trades) = .ok later) :
    ∃ candles, ofTrades trades = .ok candles ∧
      (Reopens trades t → later = candles ++ [⟨t.price, t.size, t.timestamp⟩]) ∧
      (¬ Reopens trades t → ∃ closed last volume, candles = closed ++ [last] ∧
        last.volume.add? t.size = some volume ∧
        later = closed ++ [⟨t.price, volume, t.timestamp⟩] ∧
        (volume.toRat = last.volume.toRat + t.size.toRat ↔
          Decimal.Representable (last.volume.toRat + t.size.toRat))) := by
  obtain ⟨candles, hcandles⟩ := exists_ofTrades_of_newer hnewer h
  refine ⟨candles, hcandles, ?_⟩
  rcases eq_or_ne trades [] with rfl | hsome
  · obtain rfl := Except.ok.inj (ofTrades_nil.symm.trans hcandles)
    obtain rfl := Except.ok.inj ((ofTrades_singleton t).symm.trans h)
    exact ⟨fun _ => rfl, fun hstays => absurd (.inl rfl) hstays⟩
  · obtain ⟨ws, a, more, hws, hfirst⟩ := exists_lastWindow hsome
    have hold := candles_of_ofTrades hcandles
    have hnew := candles_of_ofTrades h
    rw [hws] at hold
    rw [sorted_cons_of_newer hnewer] at hnew
    obtain ⟨closed, last, rfl, hclosed, hlast⟩ := exists_of_candles_concat hold
    by_cases hin : Within a.timestamp t
    · have hstays := (not_reopens_iff hfirst hsome).mpr hin
      rw [windows_join hws hin] at hnew
      obtain ⟨closed', c, rfl, hclosed', hc⟩ := exists_of_candles_concat hnew
      obtain rfl := candles_unique hclosed hclosed'
      obtain ⟨volume, hadd, rfl⟩ := candle?_concat hlast hc
      exact ⟨fun hopens => absurd hopens hstays,
        fun _ => ⟨closed, last, volume, rfl, hadd, rfl, Decimal.toRat_add?_iff hadd⟩⟩
    · have hopens := not_not.mp (mt (not_reopens_iff hfirst hsome).mp hin)
      rw [windows_reopen hws hin] at hnew
      obtain ⟨before, c, rfl, hbefore, hc⟩ := exists_of_candles_concat hnew
      obtain rfl := candles_unique hold hbefore
      obtain rfl : (⟨t.price, t.size, t.timestamp⟩ : Candle) = c := Option.some.inj hc
      exact ⟨fun _ => rfl, fun hstays => absurd hopens hstays⟩

/-- Two trades half a minute apart, the newer one first. -/
def halfMinute : List Trade := [tradeOf 30000 2 0 20, tradeOf 0 3 0 30]

/-- A trade a whole minute after the first one of a window, and one a millisecond later. -/
def aroundMinute : Trade × Trade := (tradeOf 60000 1 0 10, tradeOf 60001 1 0 10)

theorem sorted_halfMinute : sorted halfMinute = [tradeOf 0 3 0 30, tradeOf 30000 2 0 20] := by
  simp [sorted, halfMinute, tradeOf, List.mergeSort, List.MergeSort.Internal.splitInTwo]

/-- The first of them changes the candle, the second one comes behind it. -/
theorem ofTrades_newer_aroundMinute :
    ∃ candles joined behind, ofTrades halfMinute = .ok candles ∧
      ofTrades (aroundMinute.1 :: halfMinute) = .ok joined ∧
      ofTrades (aroundMinute.2 :: halfMinute) = .ok behind ∧
      joined.map (fun c => (c.timestamp, c.volume.render, c.price.render)) =
        [(60000, "6", "10")] ∧
      (∃ closed last volume, candles = closed ++ [last] ∧
        last.volume.add? aroundMinute.1.size = some volume ∧
        joined = closed ++ [⟨aroundMinute.1.price, volume, 60000⟩]) ∧
      behind = candles ++ [⟨aroundMinute.2.price, aroundMinute.2.size, 60001⟩] := by
  have hnewer : ∀ u ∈ halfMinute, u.timestamp.toInt < aroundMinute.1.timestamp.toInt := by decide
  have hnewer' : ∀ u ∈ halfMinute, u.timestamp.toInt < aroundMinute.2.timestamp.toInt := by decide
  have hfirst : lastOpening halfMinute = some (tradeOf 0 3 0 30) := by
    rw [lastOpening, sorted_halfMinute]
    rfl
  have hstays : ¬ Reopens halfMinute aroundMinute.1 :=
    (not_reopens_iff hfirst (by decide)).mpr (by decide)
  have hopens : Reopens halfMinute aroundMinute.2 := .inr ⟨_, hfirst, by decide⟩
  have hjoined : (ofTrades (aroundMinute.1 :: halfMinute)).toOption.map
      (List.map fun c => (c.timestamp, c.volume.render, c.price.render)) =
        some [(60000, "6", "10")] := by
    unfold ofTrades
    rw [sorted_cons_of_newer hnewer, sorted_halfMinute]
    decide +kernel
  have hbehind : (ofTrades (aroundMinute.2 :: halfMinute)).toOption.isSome := by
    unfold ofTrades
    rw [sorted_cons_of_newer hnewer', sorted_halfMinute]
    decide +kernel
  obtain ⟨joined, hjoined, hfields⟩ := Option.map_eq_some_iff.mp hjoined
  obtain ⟨behind, hbehind⟩ := Option.isSome_iff_exists.mp hbehind
  rw [toOption_eq_some] at hjoined hbehind
  obtain ⟨candles, hcandles, -, hjoins⟩ := ofTrades_newer hnewer hjoined
  obtain ⟨closed, last, volume, hclosed, hadd, hlast, -⟩ := hjoins hstays
  obtain ⟨candles', hcandles', hbehinds, -⟩ := ofTrades_newer hnewer' hbehind
  obtain rfl := Except.ok.inj (hcandles.symm.trans hcandles')
  exact ⟨candles, joined, behind, hcandles, hjoined, hbehind, hfields,
    ⟨closed, last, volume, hclosed, hadd, hlast⟩, hbehinds hopens⟩

end MarketFeed.Candles
