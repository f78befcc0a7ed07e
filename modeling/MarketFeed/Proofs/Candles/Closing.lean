import MarketFeed.Proofs.Candles.Windows

/-!
# The trade that closes a window

Trades of one millisecond come out of the sorting in the order in which they went in, and no two
windows share a millisecond. The price of a candle is that of the last trade of its window; among
the trades of that millisecond this is the one that stood last before the sorting.

* `filter_sorted`: sorting keeps the order of the trades of a time.
* `filter_of_mem_windows`: a window holds all trades of the times in it.
* `closesWith_oldest`: if the trades are handed in newest first, the oldest trade of the last
  millisecond of a window gives the price.
-/

namespace MarketFeed.Candles

/-! ## Sorting -/

theorem earlier_trans (a b c : Trade) (hab : decide (a.timestamp ≤ b.timestamp) = true)
    (hbc : decide (b.timestamp ≤ c.timestamp) = true) :
    decide (a.timestamp ≤ c.timestamp) = true := by
  simp only [decide_eq_true_eq, Int64.le_iff_toInt_le] at hab hbc ⊢
  omega

theorem earlier_total (a b : Trade) :
    (decide (a.timestamp ≤ b.timestamp) || decide (b.timestamp ≤ a.timestamp)) = true := by
  simp only [Bool.or_eq_true, decide_eq_true_eq, Int64.le_iff_toInt_le]
  omega

theorem sorted_pairwise (trades : List Trade) :
    (sorted trades).Pairwise fun a b => a.timestamp.toInt ≤ b.timestamp.toInt := by
  refine (List.pairwise_mergeSort earlier_trans earlier_total trades).imp fun {a b} h => ?_
  simpa only [decide_eq_true_eq, Int64.le_iff_toInt_le] using h

/-- Sorting keeps the order of the trades of a time. -/
theorem filter_sorted (time : Int64) (trades : List Trade) :
    (sorted trades).filter (·.timestamp = time) = trades.filter (·.timestamp = time) := by
  have hties : (trades.filter (·.timestamp = time)).Pairwise
      fun a b => decide (a.timestamp ≤ b.timestamp) = true := by
    refine List.pairwise_of_forall_mem_list fun a ha b hb => ?_
    have ha' := of_decide_eq_true (List.mem_filter.mp ha).2
    have hb' := of_decide_eq_true (List.mem_filter.mp hb).2
    simp [ha', hb']
  have hsub : (trades.filter (·.timestamp = time)).Sublist (sorted trades) :=
    List.sublist_mergeSort earlier_trans earlier_total hties List.filter_sublist
  have hkept := hsub.filter (·.timestamp = time)
  rw [List.filter_filter] at hkept
  simp only [Bool.and_self] at hkept
  refine (hkept.eq_of_length ?_).symm
  exact (((sorted_perm trades).filter _).length_eq).symm

/-! ## Windows and times -/

/-- Trades in the order of their times. -/
abbrev InOrder (trades : List Trade) : Prop :=
  trades.Pairwise fun a b => a.timestamp.toInt ≤ b.timestamp.toInt

/-- What an open window takes is within a minute of its start, and what is behind it is not. -/
theorem cutOff_apart {start : Int64} {rest : List Trade} (h : InOrder rest) :
    (∀ t ∈ (cutOff start rest).1, Within start t) ∧
      ∀ w ∈ (cutOff start rest).2, ∀ t ∈ w, ¬ Within start t := by
  induction rest with
  | nil => simp [cutOff]
  | cons t rest ih =>
    obtain ⟨hfirst, hrest⟩ := List.pairwise_cons.mp h
    by_cases hin : Within start t
    · obtain ⟨hown, hlater⟩ := ih hrest
      simp only [cutOff, if_pos hin]
      exact ⟨List.forall_mem_cons.mpr ⟨hin, hown⟩, hlater⟩
    · simp only [cutOff, if_neg hin]
      refine ⟨by simp, fun w hw u hu => ?_⟩
      -- Whatever is cut off is the trade that came too late or one behind it.
      have hmem : u ∈ t :: rest := by
        rw [← (windows_isCut (t :: rest)).flatten]
        exact List.mem_flatten_of_mem hw hu
      unfold Within at hin ⊢
      rcases List.mem_cons.mp hmem with rfl | hmem
      · exact hin
      · have := hfirst u hmem
        omega

/-- The times of the first of two windows lie before those of the second. -/
def Before (w later : List Trade) : Prop :=
  ∀ a ∈ w, ∀ b ∈ later, a.timestamp.toInt < b.timestamp.toInt

/-- A window that opens with a trade lies before the windows behind it. -/
theorem before_cutOff {t : Trade} {rest : List Trade} (h : InOrder rest) :
    ∀ w ∈ (cutOff t.timestamp rest).2, Before (t :: (cutOff t.timestamp rest).1) w := by
  intro w hw a ha b hb
  have hin := List.forall_mem_cons.mpr ⟨within_self t, (cutOff_apart h).1⟩ a ha
  have hout := (cutOff_apart h).2 w hw b hb
  unfold Within at hin hout
  omega

theorem cutOff_pairwise {start : Int64} {rest : List Trade} (h : InOrder rest) :
    (cutOff start rest).2.Pairwise Before := by
  induction rest generalizing start with
  | nil => exact .nil
  | cons t rest ih =>
    obtain ⟨-, hrest⟩ := List.pairwise_cons.mp h
    by_cases hin : Within start t
    · simp only [cutOff, if_pos hin]
      exact ih hrest
    · simp only [cutOff, if_neg hin]
      exact .cons (before_cutOff hrest) (ih hrest)

/-- No two windows share a time. -/
theorem windows_pairwise {trades : List Trade} (h : InOrder trades) :
    (windows trades).Pairwise Before := by
  cases trades with
  | nil => exact .nil
  | cons t rest =>
    obtain ⟨-, hrest⟩ := List.pairwise_cons.mp h
    exact .cons (before_cutOff hrest) (cutOff_pairwise hrest)

/-- A window of trades in the order of their times holds all trades of the times in it. -/
theorem filter_of_mem_windows {trades w : List Trade} {t : Trade} (h : InOrder trades)
    (hw : w ∈ windows trades) (ht : t ∈ w) :
    trades.filter (·.timestamp = t.timestamp) = w.filter (·.timestamp = t.timestamp) := by
  obtain ⟨before, after, hws⟩ := List.append_of_mem hw
  have hpairwise := windows_pairwise h
  rw [hws, List.pairwise_append, List.pairwise_cons] at hpairwise
  obtain ⟨-, ⟨hafter, -⟩, hbefore⟩ := hpairwise
  have hnone : ∀ {us : List (List Trade)}, (∀ u ∈ us, ∀ a ∈ u, a.timestamp ≠ t.timestamp) →
      us.flatten.filter (·.timestamp = t.timestamp) = [] := by
    intro us hus
    simpa [List.filter_eq_nil_iff] using hus
  rw [← (windows_isCut trades).flatten, hws, List.flatten_append, List.flatten_cons,
    List.filter_append, List.filter_append, hnone, hnone, List.nil_append, List.append_nil]
  · intro u hu a ha heq
    have := hafter u hu t ht a ha
    rw [heq] at this
    omega
  · intro u hu a ha heq
    have := hbefore u hu w List.mem_cons_self a ha t ht
    rw [heq] at this
    omega

/-! ## The close -/

/-- The oldest trade of a time among trades in the order in which they were handled. -/
def oldestAt (time : Int64) (handled : List Trade) : Option Trade :=
  handled.find? (·.timestamp = time)

/-- The newest trade of a time among trades in the order in which they were handled. -/
def newestAt (time : Int64) (handled : List Trade) : Option Trade :=
  handled.reverse.find? (·.timestamp = time)

theorem mem_of_newestAt {time : Int64} {handled : List Trade} {t : Trade}
    (h : newestAt time handled = some t) : t ∈ handled ∧ t.timestamp = time := by
  have hfound := List.find?_some h
  exact ⟨List.mem_reverse.mp (List.mem_of_find?_eq_some h), by simpa using hfound⟩

/-- A candle has the last time of its window, and its price is that of the one trade of this time
that is picked among all that were handled. -/
def ClosesWith (pick : Int64 → List Trade → Option Trade) (handled w : List Trade) (c : Candle) :
    Prop :=
  (∀ t ∈ w, t.timestamp.toInt ≤ c.timestamp.toInt) ∧
    ∃ t ∈ w, t.timestamp = c.timestamp ∧ t.price = c.price ∧ pick c.timestamp handled = some t

/-- A window of sorted trades closes with the trade of its last time that stood last before. -/
theorem closes_of_candle? {trades w : List Trade} {c : Candle}
    (hw : w ∈ windows (sorted trades)) (hc : candle? w = some c) :
    (∀ t ∈ w, t.timestamp.toInt ≤ c.timestamp.toInt) ∧
      ∃ t ∈ w, t.timestamp = c.timestamp ∧ t.price = c.price ∧
        (trades.filter (·.timestamp = c.timestamp)).getLast? = some t := by
  obtain ⟨last, hlast, -, hprice, htime⟩ := candle?_eq_some.mp hc
  have hmem := List.mem_of_getLast? hlast
  have horder : InOrder w := by
    refine List.Pairwise.sublist ?_ (sorted_pairwise trades)
    rw [← (windows_isCut (sorted trades)).flatten]
    exact List.sublist_flatten_of_mem hw
  obtain ⟨before, rfl⟩ := List.getLast?_eq_some_iff.mp hlast
  refine ⟨fun t ht => ?_, last, hmem, htime.symm, hprice.symm, ?_⟩
  · rw [htime]
    rcases List.mem_append.mp ht with hbefore | hlast
    · exact (List.pairwise_append.mp horder).2.2 t hbefore last List.mem_cons_self
    · obtain rfl := List.mem_singleton.mp hlast
      exact Int.le_refl _
  · rw [htime, ← filter_sorted, filter_of_mem_windows (sorted_pairwise trades) hw hmem]
    simp

theorem getLast?_filter_reverse (p : Trade → Bool) (handled : List Trade) :
    (handled.reverse.filter p).getLast? = handled.find? p := by
  rw [List.filter_reverse, List.getLast?_reverse, List.head?_filter]

/-- **Closing price.** If trades are handed in newest first, the price of each candle is that of
the oldest trade of the last time of its window. -/
theorem closesWith_oldest {handled : List Trade} {candles : List Candle}
    (h : ofTrades handled.reverse = .ok candles) :
    List.Forall₂ (ClosesWith oldestAt handled) (windows (sorted handled.reverse)) candles := by
  obtain ⟨hlength, hcandles⟩ := List.forall₂_iff_zip.mp (candles_of_ofTrades h)
  refine List.forall₂_iff_zip.mpr ⟨hlength, fun {w c} hzip => ?_⟩
  obtain ⟨hnewest, t, ht, htime, hprice, hpick⟩ :=
    closes_of_candle? (List.of_mem_zip hzip).1 (hcandles hzip)
  rw [getLast?_filter_reverse] at hpick
  exact ⟨hnewest, t, ht, htime, hprice, hpick⟩

/-- A candle that closes with the oldest trade of a time closes with the newest one if and only if
both have the same price. -/
theorem closesWith_newest_iff_of_oldest {handled w : List Trade} {c : Candle}
    (hw : w ∈ windows (sorted handled.reverse)) (h : ClosesWith oldestAt handled w c) :
    ClosesWith newestAt handled w c ↔ (newestAt c.timestamp handled).map (·.price) =
      (oldestAt c.timestamp handled).map (·.price) := by
  obtain ⟨hlast, t, ht, htime, hprice, hpick⟩ := h
  rw [hpick, Option.map_some, hprice]
  constructor
  · rintro ⟨-, u, -, -, huprice, hupick⟩
    rw [hupick, Option.map_some, huprice]
  · intro hsame
    obtain ⟨u, hupick, huprice⟩ := Option.map_eq_some_iff.mp hsame
    obtain ⟨hmem, hutime⟩ := mem_of_newestAt hupick
    have hin : u ∈ w.filter (·.timestamp = t.timestamp) := by
      rw [← filter_of_mem_windows (sorted_pairwise _) hw ht, filter_sorted]
      exact List.mem_filter.mpr ⟨List.mem_reverse.mpr hmem, by simp [hutime, htime]⟩
    exact ⟨hlast, u, (List.mem_filter.mp hin).1, hutime, huprice, hupick⟩

/-- All candles close with the newest trades as well if and only if these have the same prices. -/
theorem closesWith_newest_iff {handled : List Trade} {candles : List Candle}
    (h : ofTrades handled.reverse = .ok candles) :
    List.Forall₂ (ClosesWith newestAt handled) (windows (sorted handled.reverse)) candles ↔
      ∀ c ∈ candles, (newestAt c.timestamp handled).map (·.price) =
        (oldestAt c.timestamp handled).map (·.price) := by
  obtain ⟨hlength, hclose⟩ := List.forall₂_iff_zip.mp (closesWith_oldest h)
  rw [List.forall₂_iff_zip]
  constructor
  · rintro ⟨-, hnewest⟩ c hc
    rw [← List.map_snd_zip hlength.ge] at hc
    obtain ⟨⟨w, c⟩, hzip, rfl⟩ := List.mem_map.mp hc
    exact (closesWith_newest_iff_of_oldest (List.of_mem_zip hzip).1 (hclose hzip)).mp (hnewest hzip)
  · intro hsame
    refine ⟨hlength, fun {w c} hzip => ?_⟩
    obtain ⟨hw, hc⟩ := List.of_mem_zip hzip
    exact (closesWith_newest_iff_of_oldest hw (hclose hzip)).mpr (hsame c hc)

end MarketFeed.Candles
