import MarketFeed.Proofs.Candles.Overfull
import MarketFeed.Proofs.Candles.Partition
import Mathlib.Data.List.Nodup

/-!
# Trades in another order

Where trades are cut depends on their times and on nothing else, and the times come out of the
sorting in one order, whatever the order in which the trades went in. Prices and sizes of trades of
one time may change places, and then so do prices and sums.

* `times_sorted_of_perm`: sorting brings the times of trades into one order.
* `sorted_of_perm`: without two trades of one time, sorting brings the trades into one order.
* `cut_of_times`: trades of the same times are cut alike.
* `ofTrades_reordered`: the candles of trades that were handed in in another order.
-/

namespace MarketFeed.Candles

/-- The times of trades. -/
def times (trades : List Trade) : List Int64 := trades.map (·.timestamp)

section Sorting

variable {trades reordered : List Trade}

theorem sorted_perm_of_perm (h : reordered.Perm trades) :
    (sorted reordered).Perm (sorted trades) :=
  (sorted_perm reordered).trans (h.trans (sorted_perm trades).symm)

/-- Sorting brings the times of trades into one order. -/
theorem times_sorted_of_perm (h : reordered.Perm trades) :
    times (sorted reordered) = times (sorted trades) := by
  have hordered : ∀ trades, (times (sorted trades)).Pairwise (·.toInt ≤ ·.toInt) :=
    fun trades => List.pairwise_map.mpr (sorted_pairwise trades)
  refine List.Perm.eq_of_pairwise (fun a b _ _ hab hba => ?_) (hordered reordered)
    (hordered trades) ((sorted_perm_of_perm h).map _)
  exact Int64.toInt_inj.mp (Int.le_antisymm hab hba)

/-- Without two trades of one time, sorting brings the trades into one order. -/
theorem sorted_of_perm (h : reordered.Perm trades) (hdistinct : (times trades).Nodup) :
    sorted reordered = sorted trades := by
  refine List.Perm.eq_of_pairwise (fun a b ha hb hab hba => ?_) (sorted_pairwise reordered)
    (sorted_pairwise trades) (sorted_perm_of_perm h)
  have htime : a.timestamp = b.timestamp := Int64.toInt_inj.mp (Int.le_antisymm hab hba)
  exact List.inj_on_of_nodup_map hdistinct (h.subset ((sorted_perm reordered).subset ha))
    ((sorted_perm trades).subset hb) htime

end Sorting

/-! ## Two runs over trades of the same times -/

section Cut

variable {w : Window} {t : Trade} {rest : List Trade}

theorem cut_within (hfit : FitsInt64 (t.timestamp.toInt - w.start.toInt))
    (hin : Within w.start t) : cut w (t :: rest) = w.add t >>= fun next => cut next rest := by
  obtain ⟨age, hage⟩ := exists_checkedSub_iff.mpr hfit
  have hyoung : age.toInt ≤ windowMillis := checkedSub_eq_ok.mp hage ▸ hin
  simp only [cut, hage, bind, Except.bind, if_pos hyoung]

theorem cut_late (hfit : FitsInt64 (t.timestamp.toInt - w.start.toInt))
    (hlate : ¬ Within w.start t) :
    cut w (t :: rest) = (cut (Window.open t) rest).map (w.candle :: ·) := by
  obtain ⟨age, hage⟩ := exists_checkedSub_iff.mpr hfit
  have hold : ¬ age.toInt ≤ windowMillis := checkedSub_eq_ok.mp hage ▸ hlate
  simp only [cut, hage, bind, Except.bind, if_neg hold, Except.map]

/-- Two open windows have the same times. -/
structure Window.Alike (w other : Window) : Prop where
  start : other.start = w.start
  last : other.last = w.last

theorem Window.open_alike {u : Trade} (h : u.timestamp = t.timestamp) :
    (Window.open t).Alike (Window.open u) := ⟨h, h⟩

/-- The step: they have the same times after one more trade each, of the same time. -/
theorem Window.Alike.add {other next next' : Window} {u : Trade} (h : w.Alike other)
    (htime : u.timestamp = t.timestamp) (hadd : w.add t = .ok next)
    (hadd' : other.add u = .ok next') : next.Alike next' := by
  obtain ⟨volume, -, rfl⟩ := Window.add_eq_ok.mp hadd
  obtain ⟨volume', -, rfl⟩ := Window.add_eq_ok.mp hadd'
  exact ⟨h.start, htime⟩

/-- The run: from open windows of the same times on, trades of the same times are cut at the same
places. If the first run has candles, the second can fail in a sum only. -/
theorem cut_of_times {other : Window} {others : List Trade} {candles : List Candle}
    (hopen : w.Alike other) (htimes : times others = times rest) (h : cut w rest = .ok candles) :
    cut other others = .error .decimalSum ∨ ∃ more, cut other others = .ok more ∧
      more.map (·.timestamp) = candles.map (·.timestamp) := by
  induction rest generalizing w other others candles with
  | nil =>
    obtain rfl : others = [] := List.map_eq_nil_iff.mp htimes
    obtain rfl := Except.ok.inj h
    exact .inr ⟨[other.candle], rfl, by simp [Window.candle, hopen.last]⟩
  | cons t rest ih =>
    obtain ⟨u, others, rfl, (htime : u.timestamp = t.timestamp), htimes⟩ :=
      List.map_eq_cons_iff.mp htimes
    obtain ⟨hfit, h⟩ := cut_cons.mp h
    have hfit' : FitsInt64 (u.timestamp.toInt - other.start.toInt) := by rwa [htime, hopen.start]
    have hsame : Within other.start u ↔ Within w.start t := by
      unfold Within
      rw [htime, hopen.start]
    by_cases hin : Within w.start t
    · rw [if_pos hin] at h
      obtain ⟨next, hadd, hcut⟩ := h
      rw [cut_within hfit' (hsame.mpr hin)]
      cases hadd' : other.add u with
      | error fault =>
        obtain rfl := Window.add_eq_error hadd'
        exact .inl rfl
      | ok next' => exact ih (hopen.add htime hadd hadd') htimes hcut
    · rw [if_neg hin] at h
      obtain ⟨later, hcut, rfl⟩ := h
      rw [cut_late hfit' (mt hsame.mp hin)]
      rcases ih (Window.open_alike htime) htimes hcut with hfault | ⟨more, hmore, hmap⟩
      · rw [hfault]
        exact .inl rfl
      · rw [hmore]
        exact .inr ⟨other.candle :: more, rfl, by simp [Window.candle, hopen.last, hmap]⟩

end Cut

/-- **Order of trades.** Let trades be handed in in another order. If they had candles, they have
as many candles of the same times, unless a sum of sizes now leaves the decimals; and if no two
trades have one time, they have the same candles or fail in the same way. -/
theorem ofTrades_reordered {trades reordered : List Trade} (h : reordered.Perm trades) :
    (∀ candles, ofTrades trades = .ok candles →
      ofTrades reordered = .error .decimalSum ∨ ∃ others, ofTrades reordered = .ok others ∧
        others.map (·.timestamp) = candles.map (·.timestamp)) ∧
    ((times trades).Nodup → ofTrades reordered = ofTrades trades) := by
  constructor
  · intro candles hcandles
    have htimes := times_sorted_of_perm h
    unfold ofTrades at hcandles ⊢
    split at hcandles
    · rename_i hsorted
      rw [hsorted] at htimes
      rw [List.map_eq_nil_iff.mp htimes]
      exact .inr ⟨candles, hcandles, rfl⟩
    · rename_i t rest hsorted
      rw [hsorted] at htimes
      obtain ⟨u, others, hothers, (htime : u.timestamp = t.timestamp), hrest⟩ :=
        List.map_eq_cons_iff.mp htimes
      rw [hothers]
      exact cut_of_times (Window.open_alike htime) hrest hcandles
  · intro hdistinct
    unfold ofTrades
    rw [sorted_of_perm h hdistinct]

/-- Trades over more than a minute, no two of them of one time. -/
def apartInTime : List Trade := acrossMinute.take 3

/-- When two trades of one time change places, the candles keep their times, and the first one gets
another price. Where no two have one time, all candles stay. -/
theorem ofTrades_reordered_acrossMinute :
    acrossMinute.reverse.Perm acrossMinute ∧
    (∃ candles others, ofTrades acrossMinute = .ok candles ∧
      ofTrades acrossMinute.reverse = .ok others ∧
      others.map (·.timestamp) = candles.map (·.timestamp) ∧
      candles.map (·.price.render) = ["40", "10"] ∧ others.map (·.price.render) = ["20", "10"]) ∧
    (times apartInTime).Nodup ∧ ofTrades apartInTime.reverse = ofTrades apartInTime := by
  have hsorted : sorted acrossMinute =
      [tradeOf 0 3 0 30, tradeOf 60000 2 0 20, tradeOf 60000 4 0 40, tradeOf 60001 1 0 10] := by
    simp [sorted, acrossMinute, tradeOf, List.mergeSort, List.MergeSort.Internal.splitInTwo]
  have hreversed : sorted acrossMinute.reverse =
      [tradeOf 0 3 0 30, tradeOf 60000 4 0 40, tradeOf 60000 2 0 20, tradeOf 60001 1 0 10] := by
    simp [sorted, acrossMinute, tradeOf, List.mergeSort, List.MergeSort.Internal.splitInTwo]
  have hprices : (ofTrades acrossMinute).toOption.map (List.map (·.price.render)) =
      some ["40", "10"] := by
    unfold ofTrades
    rw [hsorted]
    decide +kernel
  have hothers : (ofTrades acrossMinute.reverse).toOption.map (List.map (·.price.render)) =
      some ["20", "10"] := by
    unfold ofTrades
    rw [hreversed]
    decide +kernel
  obtain ⟨candles, hcandles, hprices⟩ := Option.map_eq_some_iff.mp hprices
  obtain ⟨others, hok, hothers⟩ := Option.map_eq_some_iff.mp hothers
  rw [toOption_eq_some] at hcandles hok
  have hperm : acrossMinute.reverse.Perm acrossMinute := List.reverse_perm _
  have hdistinct : (times apartInTime).Nodup := by decide
  refine ⟨hperm, ⟨candles, others, hcandles, hok, ?_, hprices, hothers⟩, hdistinct,
    (ofTrades_reordered (List.reverse_perm apartInTime)).2 hdistinct⟩
  rcases (ofTrades_reordered hperm).1 candles hcandles with hfault | ⟨more, hmore, htimes⟩
  · rw [hok] at hfault
    cases hfault
  · rw [hok] at hmore
    rwa [Except.ok.inj hmore]

end MarketFeed.Candles
