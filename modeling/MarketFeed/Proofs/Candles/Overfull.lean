import MarketFeed.Proofs.Candles.Windows
import MarketFeed.Proofs.Decimal.Sums

/-!
# Trades without candles

The sizes in a window are summed up from its first trade on. A window is overfull if one of these
sums leaves the decimals; then its trades have no candles at all.

* `Overfull`: the first sizes in a window have a sum, and with the next one they have none.
* `volume?_eq_none_iff`: the windows without a volume.
* `ofTrades_eq_error_iff`: trades whose times lie close together have no candles if and only if
  one of their windows is overfull.
-/

namespace MarketFeed.Candles

/-- The sum of the sizes before some trade is a decimal, and with the size of this trade it comes
to half a unit below `2 ^ 96` or more. -/
def Overfull (w : List Trade) : Prop :=
  ∃ taken t more volume, w = taken ++ t :: more ∧ volume? taken = some volume ∧
    (Decimal.bound : ℚ) - 1 / 2 ≤ |volume.toRat + t.size.toRat|

/-- A fold stops at the first element that has no result. -/
theorem foldlM_eq_none_iff {α β : Type} {f : β → α → Option β} {xs : List α} {b : β} :
    xs.foldlM f b = none ↔
      ∃ before x after b', xs = before ++ x :: after ∧ before.foldlM f b = some b' ∧
        f b' x = none := by
  induction xs generalizing b with
  | nil => simp
  | cons x xs ih =>
    rw [List.foldlM_cons]
    cases hx : f b x with
    | none => exact iff_of_true rfl ⟨[], x, xs, b, rfl, rfl, hx⟩
    | some b₁ =>
      simp only [Option.bind_eq_bind, Option.bind_some, ih]
      constructor
      · rintro ⟨before, y, after, b', rfl, hbefore, hy⟩
        refine ⟨x :: before, y, after, b', rfl, ?_, hy⟩
        rw [List.foldlM_cons, hx]
        exact hbefore
      · rintro ⟨before, y, after, b', hxs, hbefore, hy⟩
        cases before with
        | nil =>
          obtain ⟨rfl, -⟩ := List.cons.inj hxs
          obtain rfl := Option.some.inj hbefore
          rw [hx] at hy
          cases hy
        | cons z before =>
          obtain ⟨rfl, rfl⟩ := List.cons.inj hxs
          rw [List.foldlM_cons, hx] at hbefore
          exact ⟨before, y, after, b', rfl, hbefore, hy⟩

/-- **Windows without a volume.** -/
theorem volume?_eq_none_iff {w : List Trade} (hw : w ≠ []) : volume? w = none ↔ Overfull w := by
  cases w with
  | nil => exact absurd rfl hw
  | cons first rest =>
    unfold Overfull
    simp only [volume?, foldlM_eq_none_iff, Decimal.add?_eq_none_iff]
    constructor
    · rintro ⟨before, t, after, volume, rfl, hbefore, hover⟩
      exact ⟨first :: before, t, after, volume, rfl, hbefore, hover⟩
    · rintro ⟨taken, t, more, volume, hsplit, htaken, hover⟩
      cases taken with
      | nil => cases htaken
      | cons a taken =>
        obtain ⟨rfl, rfl⟩ := List.cons.inj hsplit
        exact ⟨taken, t, more, volume, rfl, htaken, hover⟩

theorem Window.add_eq_error {w : Window} {t : Trade} {fault : Fault}
    (h : w.add t = .error fault) : fault = .decimalSum := by
  unfold Window.add at h
  split at h
  · cases h
  · exact (Except.error.inj h).symm

/-- If the ages of trades fit into 64 bits, only a sum can fault. -/
theorem cut_eq_error {w : Window} {rest : List Trade} {fault : Fault} (hfit : AgesFit rest)
    (hstart : ∀ t ∈ rest, FitsInt64 (t.timestamp.toInt - w.start.toInt))
    (h : cut w rest = .error fault) : fault = .decimalSum := by
  induction rest generalizing w with
  | nil => cases h
  | cons t rest ih =>
    obtain ⟨ht, hrest⟩ := List.forall_mem_cons.mp hstart
    obtain ⟨age, hage⟩ := exists_checkedSub_iff.mpr ht
    unfold cut at h
    rw [hage] at h
    change (if age.toInt ≤ windowMillis then _ else _) = _ at h
    split at h
    · rcases bind_eq_error.mp h with hadd | ⟨w', hadd, hcut⟩
      · exact Window.add_eq_error hadd
      · obtain ⟨volume, -, rfl⟩ := Window.add_eq_ok.mp hadd
        refine ih hfit.tail ?_ hcut
        exact hrest
    · rcases bind_eq_error.mp h with hcut | ⟨later, -, hok⟩
      · refine ih hfit.tail ?_ hcut
        exact fun u hu => hfit t List.mem_cons_self u (List.mem_cons_of_mem t hu)
      · cases hok

theorem ofTrades_eq_error {trades : List Trade} (hfit : AgesFit trades) {fault : Fault}
    (h : ofTrades trades = .error fault) : fault = .decimalSum := by
  have hsortedFit : AgesFit (sorted trades) :=
    fun a ha b hb => hfit a (List.mem_mergeSort.mp ha) b (List.mem_mergeSort.mp hb)
  unfold ofTrades at h
  split at h
  · cases h
  · rename_i t rest hsorted
    rw [hsorted] at hsortedFit
    refine cut_eq_error hsortedFit.tail ?_ h
    exact fun u hu => hsortedFit t List.mem_cons_self u (List.mem_cons_of_mem t hu)

/-- **Trades without candles.** If their times lie close together, one of their windows is overfull
and the fault is that of a sum of decimals. -/
theorem ofTrades_eq_error_iff {trades : List Trade} (hfit : AgesFit trades) {fault : Fault} :
    ofTrades trades = .error fault ↔
      fault = .decimalSum ∧ ∃ w ∈ windows (sorted trades), Overfull w := by
  have hexists : (∃ candles, ofTrades trades = .ok candles) ↔
      ∀ w ∈ windows (sorted trades), ¬ Overfull w := by
    rw [exists_ofTrades_iff hfit]
    refine forall₂_congr fun w hw => ?_
    rw [← volume?_eq_none_iff ((windows_isCut _).nonempty w hw), Option.isSome_iff_ne_none]
  constructor
  · intro h
    refine ⟨ofTrades_eq_error hfit h, ?_⟩
    by_contra hnone
    simp only [not_exists, not_and] at hnone
    obtain ⟨candles, hok⟩ := hexists.mpr hnone
    rw [h] at hok
    cases hok
  · rintro ⟨rfl, w, hw, hover⟩
    cases h : ofTrades trades with
    | ok candles => exact absurd hover (hexists.mp ⟨candles, h⟩ w hw)
    | error fault => rw [ofTrades_eq_error hfit h]

end MarketFeed.Candles
