import MarketFeed.Proofs.Candles.Partition
import MarketFeed.Proofs.Decimal.Rounding
import Mathlib.Algebra.BigOperators.Group.List.Basic

/-!
# Volumes

The volume of a candle is a sum of decimals, taken one by one, and each of these sums may round. The
volumes of candles together are the sizes of the trades together and what the sums were off by.

* `roundings`: what the sums in a window are off by, one by one.
* `roundings_eq_zero_iff`: the windows in which no sum rounds.
* `volume?_error`: how far a volume is from the exact one.
* `volumes_of_ofTrades`: the volumes of candles against the sizes of trades.
-/

namespace MarketFeed.Candles

open Decimal (Representable)

/-- The exact sum of the sizes of trades. -/
def total (trades : List Trade) : ℚ := (trades.map (·.size.toRat)).sum

/-- The exact sum of the magnitudes of the sizes of trades. -/
def gross (trades : List Trade) : ℚ := (trades.map fun t => |t.size.toRat|).sum

@[simp] theorem total_nil : total [] = 0 := rfl

@[simp] theorem gross_nil : gross [] = 0 := rfl

theorem total_cons (t : Trade) (rest : List Trade) :
    total (t :: rest) = t.size.toRat + total rest := List.sum_cons

theorem gross_cons (t : Trade) (rest : List Trade) :
    gross (t :: rest) = |t.size.toRat| + gross rest := List.sum_cons

theorem total_append (a b : List Trade) : total (a ++ b) = total a + total b := by
  rw [total, List.map_append, List.sum_append]
  rfl

theorem gross_append (a b : List Trade) : gross (a ++ b) = gross a + gross b := by
  rw [gross, List.map_append, List.sum_append]
  rfl

theorem total_of_perm {a b : List Trade} (h : a.Perm b) : total a = total b :=
  (h.map _).sum_eq

theorem gross_of_perm {a b : List Trade} (h : a.Perm b) : gross a = gross b :=
  (h.map _).sum_eq

/-! ## What sums are off by -/

/-- What the sums from a volume on are off by, one for each trade. -/
def roundingsFrom (volume : Decimal) : List Trade → List ℚ
  | [] => []
  | t :: rest =>
    match volume.add? t.size with
    | some next => (next.toRat - (volume.toRat + t.size.toRat)) :: roundingsFrom next rest
    | none => []

/-- What the sums in a window are off by, one for each trade behind the first one. -/
def roundings : List Trade → List ℚ
  | [] => []
  | t :: rest => roundingsFrom t.size rest

section Window

variable {volume v : Decimal} {w rest : List Trade}

theorem toRat_of_foldlM (h : rest.foldlM (fun volume t => volume.add? t.size) volume = some v) :
    v.toRat = volume.toRat + total rest + (roundingsFrom volume rest).sum := by
  induction rest generalizing volume with
  | nil =>
    obtain rfl := Option.some.inj h
    simp [roundingsFrom]
  | cons t rest ih =>
    rw [List.foldlM_cons] at h
    obtain ⟨next, hnext, hrest⟩ := Option.bind_eq_some_iff.mp h
    simp only [roundingsFrom, hnext]
    rw [ih hrest, total_cons, List.sum_cons]
    ring

/-- The volume of a window is what its trades come to and what its sums are off by. -/
theorem toRat_of_volume? (h : volume? w = some v) : v.toRat = total w + (roundings w).sum := by
  cases w with
  | nil => cases h
  | cons t rest =>
    rw [toRat_of_foldlM h, total_cons]
    rfl

theorem roundingsFrom_eq_zero_iff
    (h : rest.foldlM (fun volume t => volume.add? t.size) volume = some v) :
    (∀ r ∈ roundingsFrom volume rest, r = 0) ↔
      ∀ taken, taken <+: rest → Representable (volume.toRat + total taken) := by
  induction rest generalizing volume with
  | nil =>
    refine iff_of_true (by simp [roundingsFrom]) fun taken htaken => ?_
    rw [List.prefix_nil.mp htaken, total_nil, add_zero]
    exact Decimal.representable_toRat volume
  | cons t rest ih =>
    rw [List.foldlM_cons] at h
    obtain ⟨next, hnext, hrest⟩ := Option.bind_eq_some_iff.mp h
    have hfirst := Decimal.toRat_add?_iff hnext
    simp only [roundingsFrom, hnext, List.forall_mem_cons, sub_eq_zero]
    rw [hfirst, ih hrest]
    -- If the first sum is exact, the later ones go on from the exact one.
    have hmore : Representable (volume.toRat + t.size.toRat) → ∀ taken : List Trade,
        next.toRat + total taken = volume.toRat + total (t :: taken) := by
      intro hexact taken
      rw [hfirst.mpr hexact, total_cons, add_assoc]
    constructor
    · rintro ⟨hexact, hlater⟩ taken htaken
      rcases List.prefix_cons_iff.mp htaken with rfl | ⟨taken, rfl, hprefix⟩
      · rw [total_nil, add_zero]
        exact Decimal.representable_toRat volume
      · rw [← hmore hexact]
        exact hlater taken hprefix
    · intro hall
      have hexact : Representable (volume.toRat + t.size.toRat) := by
        simpa [total_cons] using hall [t] (List.prefix_cons_inj t |>.mpr (List.nil_prefix))
      refine ⟨hexact, fun taken htaken => ?_⟩
      rw [hmore hexact]
      exact hall (t :: taken) ((List.prefix_cons_inj t).mpr htaken)

/-- No sum in a window rounds if and only if all exact sums of its first sizes are decimals. -/
theorem roundings_eq_zero_iff (h : volume? w = some v) :
    (∀ r ∈ roundings w, r = 0) ↔ ∀ taken, taken <+: w → Representable (total taken) := by
  cases w with
  | nil => cases h
  | cons t rest =>
    rw [roundings, roundingsFrom_eq_zero_iff h]
    constructor
    · intro hall taken htaken
      rcases List.prefix_cons_iff.mp htaken with rfl | ⟨taken, rfl, hprefix⟩
      · exact ⟨.zero, by simp [Decimal.zero, Decimal.toRat]⟩
      · exact hall taken hprefix
    · intro hall taken htaken
      exact hall (t :: taken) ((List.prefix_cons_inj t).mpr htaken)

/-! ## Accumulated errors -/

/-- The part by which a volume may be off after some sums. -/
def drift (sums : Nat) : ℚ := (1 + 5 / Decimal.bound) ^ sums - 1

theorem drift_succ (sums : Nat) :
    drift (sums + 1) = (1 + 5 / Decimal.bound) * drift sums + 5 / Decimal.bound := by
  unfold drift
  ring

theorem drift_mono {m n : Nat} (h : m ≤ n) : drift m ≤ drift n := by
  have hone : (1 : ℚ) ≤ 1 + 5 / Decimal.bound := by
    have : (0 : ℚ) ≤ 5 / Decimal.bound := by positivity
    linarith
  exact sub_le_sub_right (pow_le_pow_right₀ hone h) 1

theorem abs_total_le (trades : List Trade) : |total trades| ≤ gross trades := by
  induction trades with
  | nil => simp
  | cons t rest ih =>
    rw [total_cons, gross_cons]
    exact (abs_add_le _ _).trans (by gcongr)

/-- The step: a sum takes over the error of the volume before it and adds its own. -/
theorem add?_drift {size next : Decimal} {s a : ℚ} {sums : Nat}
    (h : volume.add? size = some next) (hs : |s| ≤ a)
    (herror : |volume.toRat - s| ≤ drift sums * a) :
    |next.toRat - (s + size.toRat)| ≤ drift (sums + 1) * (a + |size.toRat|) := by
  have hbound : (0 : ℚ) < Decimal.bound := by exact_mod_cast (by decide : 0 < Decimal.bound)
  have hdrift : 0 ≤ drift sums := by simpa [drift] using drift_mono (Nat.zero_le sums)
  have hown : |next.toRat - (volume.toRat + size.toRat)| ≤
      5 / Decimal.bound * |volume.toRat + size.toRat| := by
    rw [div_mul_eq_mul_div, le_div_iff₀' hbound]
    exact Decimal.add?_error h
  have hlarge : |volume.toRat + size.toRat| ≤ drift sums * a + (a + |size.toRat|) := by
    calc |volume.toRat + size.toRat|
        = |(volume.toRat - s) + (s + size.toRat)| := by ring_nf
      _ ≤ |volume.toRat - s| + (|s| + |size.toRat|) :=
        (abs_add_le _ _).trans (by gcongr; exact abs_add_le _ _)
      _ ≤ drift sums * a + (a + |size.toRat|) := by gcongr
  calc |next.toRat - (s + size.toRat)|
      = |(next.toRat - (volume.toRat + size.toRat)) + (volume.toRat - s)| := by ring_nf
    _ ≤ 5 / Decimal.bound * |volume.toRat + size.toRat| + drift sums * a :=
      (abs_add_le _ _).trans (by gcongr)
    _ ≤ 5 / Decimal.bound * (drift sums * a + (a + |size.toRat|)) + drift sums * a := by gcongr
    _ ≤ 5 / Decimal.bound * (drift sums * a + (a + |size.toRat|)) + drift sums * a +
        (1 + 5 / Decimal.bound) * (drift sums * |size.toRat|) :=
      le_add_of_nonneg_right (by positivity)
    _ = drift (sums + 1) * (a + |size.toRat|) := by
      rw [drift_succ]
      ring

/-- The run: errors accumulate from sum to sum. -/
theorem foldlM_drift {s a : ℚ} {sums : Nat}
    (h : rest.foldlM (fun volume t => volume.add? t.size) volume = some v) (hs : |s| ≤ a)
    (herror : |volume.toRat - s| ≤ drift sums * a) :
    |v.toRat - (s + total rest)| ≤ drift (sums + rest.length) * (a + gross rest) := by
  induction rest generalizing volume s a sums with
  | nil =>
    obtain rfl := Option.some.inj h
    simpa using herror
  | cons t rest ih =>
    rw [List.foldlM_cons] at h
    obtain ⟨next, hnext, hrest⟩ := Option.bind_eq_some_iff.mp h
    have hmore : |s + t.size.toRat| ≤ a + |t.size.toRat| :=
      (abs_add_le _ _).trans (by gcongr)
    rw [total_cons, gross_cons, ← add_assoc, ← add_assoc, List.length_cons,
      Nat.add_comm rest.length, ← Nat.add_assoc]
    exact ih hrest hmore (add?_drift hnext hs herror)

/-- **Error of a volume:** each sum drifts by five parts in `2 ^ 96` at most. -/
theorem volume?_error (h : volume? w = some v) :
    |v.toRat - total w| ≤ drift (w.length - 1) * gross w := by
  cases w with
  | nil => cases h
  | cons t rest =>
    have hfirst : |t.size.toRat - t.size.toRat| ≤ drift 0 * |t.size.toRat| := by simp [drift]
    rw [total_cons, gross_cons, List.length_cons, Nat.add_sub_cancel]
    simpa using foldlM_drift h le_rfl hfirst

end Window

/-! ## Few digits -/

theorem gross_nonneg (trades : List Trade) : 0 ≤ gross trades :=
  (abs_nonneg _).trans (abs_total_le trades)

theorem gross_prefix_le {taken w : List Trade} (h : taken <+: w) : gross taken ≤ gross w := by
  obtain ⟨more, rfl⟩ := h
  rw [gross_append]
  exact le_add_of_nonneg_right (gross_nonneg more)

/-- Sizes with a limited count of fraction digits come to an integer of the last one. -/
theorem exists_mantissa {trades : List Trade} {places : Nat}
    (hscale : ∀ t ∈ trades, t.size.scale ≤ places) :
    ∃ m : Int, (m : ℚ) = total trades * 10 ^ places := by
  induction trades with
  | nil => exact ⟨0, by simp⟩
  | cons t rest ih =>
    obtain ⟨hfirst, hrest⟩ := List.forall_mem_cons.mp hscale
    obtain ⟨m, hm⟩ := ih hrest
    refine ⟨t.size.mantissaAt places + m, ?_⟩
    rw [Int.cast_add, Decimal.mantissaAt_eq hfirst, hm, total_cons, add_mul]

/-- Sizes with few fraction digits that do not come to much have a sum that is a decimal. -/
theorem representable_total {trades : List Trade} (places : Nat)
    (hplaces : places ≤ Decimal.maxScale) (hscale : ∀ t ∈ trades, t.size.scale ≤ places)
    (hgross : gross trades * 10 ^ places < Decimal.bound) : Representable (total trades) := by
  obtain ⟨m, hm⟩ := exists_mantissa hscale
  have hpow : (0 : ℚ) < 10 ^ places := by positivity
  have hlt : (m.natAbs : ℚ) < Decimal.bound := by
    calc (m.natAbs : ℚ)
        = |total trades| * 10 ^ places := by
          rw [← Int.cast_natCast, ← Int.abs_eq_natAbs, Int.cast_abs, hm, abs_mul, abs_of_pos hpow]
      _ ≤ gross trades * 10 ^ places := by
          gcongr
          exact abs_total_le trades
      _ < Decimal.bound := hgross
  refine ⟨⟨m, places, by exact_mod_cast hlt, hplaces⟩, ?_⟩
  rw [Decimal.toRat, hm, mul_div_cancel_right₀ _ hpow.ne']

/-! ## All candles -/

section Candles

variable {ws : List (List Trade)} {trades : List Trade} {candles : List Candle}

theorem sum_volumes (h : List.Forall₂ (candle? · = some ·) ws candles) :
    (candles.map (·.volume.toRat)).sum = total ws.flatten + (ws.flatMap roundings).sum := by
  induction h with
  | nil => simp
  | cons hc _ ih =>
    obtain ⟨-, -, hvolume, -, -⟩ := candle?_eq_some.mp hc
    rw [List.map_cons, List.sum_cons, toRat_of_volume? hvolume, ih, List.flatten_cons, total_append,
      List.flatMap_cons, List.sum_append]
    ring

theorem sum_volumes_error {sums : Nat} (h : List.Forall₂ (candle? · = some ·) ws candles)
    (hlength : ∀ w ∈ ws, w.length - 1 ≤ sums) :
    |(candles.map (·.volume.toRat)).sum - total ws.flatten| ≤ drift sums * gross ws.flatten := by
  induction h with
  | nil => simp
  | @cons w c ws candles hc _ ih =>
    obtain ⟨-, -, hvolume, -, -⟩ := candle?_eq_some.mp hc
    obtain ⟨hfirst, hrest⟩ := List.forall_mem_cons.mp hlength
    have hown : |c.volume.toRat - total w| ≤ drift sums * gross w :=
      (volume?_error hvolume).trans
        (mul_le_mul_of_nonneg_right (drift_mono hfirst) (gross_nonneg w))
    rw [List.map_cons, List.sum_cons, List.flatten_cons, total_append, gross_append, mul_add,
      add_sub_add_comm]
    exact (abs_add_le _ _).trans (add_le_add hown (ih hrest))

/-- The sums in a window of trades that have candles, as `roundings_eq_zero_iff` says. -/
theorem roundings_of_mem_windows {w : List Trade} (h : ofTrades trades = .ok candles)
    (hw : w ∈ windows (sorted trades)) :
    (∀ r ∈ roundings w, r = 0) ↔ ∀ taken, taken <+: w → Representable (total taken) := by
  have hvolumes := exists_candles.mp ⟨candles, candles_of_ofTrades h⟩
  obtain ⟨v, hv⟩ := Option.isSome_iff_exists.mp (hvolumes w hw)
  exact roundings_eq_zero_iff hv

/-- If all exact sums are decimals, nothing is lost. -/
theorem volumes_eq_total (h : ofTrades trades = .ok candles)
    (hall : ∀ w ∈ windows (sorted trades), ∀ taken, taken <+: w → Representable (total taken)) :
    (candles.map (·.volume.toRat)).sum = total trades := by
  have hnone : ∀ r ∈ (windows (sorted trades)).flatMap roundings, r = 0 := by
    intro r hr
    obtain ⟨w, hw, hrw⟩ := List.mem_flatMap.mp hr
    exact (roundings_of_mem_windows h hw).mpr (hall w hw) r hrw
  rw [sum_volumes (candles_of_ofTrades h), total_of_perm (flatten_windows_perm trades),
    List.sum_eq_zero hnone, add_zero]

/-- Volumes of trades with few fraction digits are exact as long as no window comes to much. -/
theorem volumes_eq_total_of_places {places : Nat} (h : ofTrades trades = .ok candles)
    (hplaces : places ≤ Decimal.maxScale) (hscale : ∀ t ∈ trades, t.size.scale ≤ places)
    (hgross : ∀ w ∈ windows (sorted trades), gross w * 10 ^ places < Decimal.bound) :
    (candles.map (·.volume.toRat)).sum = total trades := by
  refine volumes_eq_total h fun w hw taken htaken => representable_total places hplaces ?_ ?_
  · intro t ht
    have hin := List.mem_flatten_of_mem hw (htaken.subset ht)
    exact hscale t ((flatten_windows_perm trades).mem_iff.mp hin)
  · exact (mul_le_mul_of_nonneg_right (gross_prefix_le htaken) (by positivity)).trans_lt
      (hgross w hw)

/-- **Volumes.** Let trades have candles. The volumes of the candles come to the sizes of the trades
and what the sums in the windows are off by. No sum in a window is off if and only if all exact sums
of its first sizes are decimals; if this is so in all windows, then the volumes come to the sizes.
In any case they are off by at most five parts in `2 ^ 96` of what the magnitudes of the sizes come
to, compounded for each trade behind the first one. -/
theorem volumes_of_ofTrades (h : ofTrades trades = .ok candles) :
    (candles.map (·.volume.toRat)).sum =
      total trades + ((windows (sorted trades)).flatMap roundings).sum ∧
    (∀ w ∈ windows (sorted trades),
      (∀ r ∈ roundings w, r = 0) ↔ ∀ taken, taken <+: w → Representable (total taken)) ∧
    ((∀ w ∈ windows (sorted trades), ∀ taken, taken <+: w → Representable (total taken)) →
      (candles.map (·.volume.toRat)).sum = total trades) ∧
    |(candles.map (·.volume.toRat)).sum - total trades| ≤
      drift (trades.length - 1) * gross trades := by
  have hcandles := candles_of_ofTrades h
  have hperm := flatten_windows_perm trades
  have hsum := sum_volumes hcandles
  have hlength : ∀ w ∈ windows (sorted trades), w.length - 1 ≤ trades.length - 1 := by
    intro w hw
    have hle := (List.sublist_flatten_of_mem hw).length_le
    rw [hperm.length_eq] at hle
    omega
  have herror := sum_volumes_error hcandles hlength
  rw [total_of_perm hperm] at hsum herror
  rw [gross_of_perm hperm] at herror
  exact ⟨hsum, fun w hw => roundings_of_mem_windows h hw, volumes_eq_total h, herror⟩

end Candles

theorem toRat_size_tradeOf {timestamp : Int64} {size scale price : Nat}
    (hsize : size < Decimal.bound) (hscale : scale ≤ Decimal.maxScale) :
    (tradeOf timestamp size scale price).size.toRat = size / 10 ^ scale :=
  Decimal.toRat_getD_ofDigits? hsize hscale

/-- Two trades of the sizes 0.1 and 0.2. -/
def tenths : List Trade := [tradeOf 0 1 1 1, tradeOf 1 2 1 1]

/-- The sizes 0.1 and 0.2 come to a volume of 0.3. -/
theorem volumes_of_ofTrades_tenths :
    ∃ candles, ofTrades tenths = .ok candles ∧ candles.map (·.volume.render) = ["0.3"] ∧
      (candles.map (·.volume.toRat)).sum = total tenths := by
  have hsorted : sorted tenths = tenths := List.mergeSort_of_pairwise (by decide)
  have hall : (ofTrades tenths).toOption.map (List.map (·.volume.render)) = some ["0.3"] := by
    unfold ofTrades
    rw [hsorted]
    decide +kernel
  obtain ⟨candles, hcandles, hvolumes⟩ := Option.map_eq_some_iff.mp hall
  rw [toOption_eq_some] at hcandles
  refine ⟨candles, hcandles, hvolumes, (volumes_of_ofTrades hcandles).2.2.1 fun w hw taken ht => ?_⟩
  have hwindow : w = tenths := by simpa [hsorted, show windows tenths = [tenths] from rfl] using hw
  subst hwindow
  have hgross : gross tenths * 10 ^ 1 < Decimal.bound := by
    simp only [tenths, gross_cons, gross_nil]
    rw [toRat_size_tradeOf (by decide) (by decide), toRat_size_tradeOf (by decide) (by decide)]
    norm_num [Decimal.bound]
  have hless := mul_le_mul_of_nonneg_right (gross_prefix_le ht)
    (show (0 : ℚ) ≤ 10 ^ 1 by norm_num)
  refine representable_total 1 (by decide) (fun t htaken => ?_) (hless.trans_lt hgross)
  exact (by decide : ∀ t ∈ tenths, t.size.scale ≤ 1) t (ht.subset htaken)

/-- Trades of the sizes 7, 7.0000000000000000000000000005 and the same again. -/
def sevens : List Trade :=
  [tradeOf 0 7 0 1, tradeOf 1 70000000000000000000000000005 28 1,
    tradeOf 2 70000000000000000000000000005 28 1]

/-- Volumes can lose digits even if the exact one is a decimal: those trades come to a volume of 21,
and their sizes to `10 ^ (-27)` more. -/
theorem volumes_lose_digits :
    ¬ ∀ trades candles, ofTrades trades = .ok candles →
      (candles.map (·.volume.toRat)).sum = total trades := by
  intro hconserved
  have hsorted : sorted sevens = sevens := List.mergeSort_of_pairwise (by decide)
  have hcandles : ofTrades sevens = .ok [⟨(Decimal.ofDigits? false 1 0).getD .zero,
      (Decimal.ofDigits? false 21000000000000000000000000000 27).getD .zero, 2⟩] := by
    unfold ofTrades
    rw [hsorted]
    decide +kernel
  have htotal : total sevens = 21 + 1 / 10 ^ 27 := by
    simp only [sevens, total_cons, total_nil]
    rw [toRat_size_tradeOf (by decide) (by decide), toRat_size_tradeOf (by decide) (by decide),
      toRat_size_tradeOf (by decide) (by decide)]
    norm_num
  have hsame := hconserved sevens _ hcandles
  rw [htotal, List.map_singleton, List.sum_singleton,
    Decimal.toRat_getD_ofDigits? (by decide) (by decide)] at hsame
  norm_num at hsame

end MarketFeed.Candles
