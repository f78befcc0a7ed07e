import MarketFeed.Config.Error
import MarketFeed.Proofs.Store.Writes
import Mathlib.Algebra.Group.Int.Defs
import Mathlib.Algebra.Group.Nat.Defs

/-!
# Options of validated configurations

A configuration that is not refused has options, unless twice its ping interval is no duration. A
store that is built from them keeps entries for as long as the configuration says, if the period
fits into 63 bits of milliseconds; beyond that the period wraps.

* `Store.Retains`: a store keeps its entries for some milliseconds, no more and no less.
* `Store.retains_writeAll_iff`: which stores do, however they were written to.
* `Config.exists_options_iff`: which configurations have options.
* `Config.validate_options`: both, for a configuration that is not refused.
-/

namespace MarketFeed

/-! ## Retention -/

namespace Store

/-- A table of lists with a new entry in front of one list, without the older entries of that list
at or before a limit. -/
def insertAfter {α : Type} (limit : Int) (time : α → Int64) (key : String) (item : α)
    (t : Table (List α)) : Table (List α) :=
  t.put key (item :: ((t.get? key).getD []).filter fun a => limit < (time a).toInt)

/-- A store keeps its entries for some milliseconds: its period says so and is positive, cutoffs
lie so far before the clock, and a write drops exactly the older entries at or before them. -/
structure Retains (s : Store) (millis : Nat) : Prop where
  periodMillis : s.periodMillis = millis
  positive : 0 < s.period.toInt
  cutoff : ∀ now : Int64, 0 ≤ now.toInt → now.toInt ≤ 2 ^ 53 →
    ∃ cutoff, s.cutoff now = .ok cutoff ∧ cutoff.toInt = now.toInt - millis
  candles : ∀ symbol c (now : Int64), 0 ≤ now.toInt → now.toInt ≤ 2 ^ 53 →
    s.setCandle symbol c now = .ok { s with
      candles := insertAfter (now.toInt - millis) Candle.timestamp symbol c s.candles }
  trades : ∀ t (now : Int64), 0 ≤ now.toInt → now.toInt ≤ 2 ^ 53 →
    s.setTrade t now = .ok { s with
      trades := insertAfter (now.toInt - millis) Trade.timestamp t.symbol t s.trades }

theorem periodMillis_of_toInt {s : Store} {millis : Nat} (h : s.period.toInt = millis) :
    s.periodMillis = millis := by
  have hlt := s.period.toInt_lt
  have hperiod : s.period = Int64.ofNat millis := by
    rw [← Int64.toInt_inj, h, Int64.toInt_ofNat_of_lt (by omega)]
  rw [periodMillis, hperiod, Int64.toUInt64_ofNat', UInt64.toNat_ofNat',
    Nat.mod_eq_of_lt (by omega)]

/-- The period of a store decides how long it keeps entries. -/
theorem retains_iff {s : Store} {millis : Nat} :
    s.Retains millis ↔ 0 < millis ∧ s.period.toInt = millis := by
  constructor
  · intro h
    obtain ⟨cutoff, hcutoff, hmillis⟩ := h.cutoff 0 (by decide) (by decide)
    have hperiod := cutoff_eq_ok.mp hcutoff
    have hpositive := h.positive
    omega
  · rintro ⟨hpositive, hperiod⟩
    have hfits : ∀ now : Int64, 0 ≤ now.toInt → now.toInt ≤ 2 ^ 53 →
        CutoffFits s.period now := by
      intro now hlo hhi
      have hmin : Int64.minValue.toInt = -2 ^ 63 := rfl
      have hmax : Int64.maxValue.toInt = 2 ^ 63 - 1 := rfl
      have hlt := s.period.toInt_lt
      exact ⟨by omega, by omega⟩
    have hinsert : ∀ {α : Type} (now : Int64) (time : α → Int64) (key : String) (item : α)
        (t : Table (List α)), insertFresh s.period now time key item t =
          insertAfter (now.toInt - millis) time key item t := by
      intro α now time key item t
      simp only [insertFresh, insertAfter, Fresh, hperiod]
    refine ⟨periodMillis_of_toInt hperiod, by omega, fun now hlo hhi => ?_,
      fun symbol c now hlo hhi => ?_, fun t now hlo hhi => ?_⟩
    · obtain ⟨cutoff, hcutoff⟩ := exists_cutoff_iff.mpr (hfits now hlo hhi)
      exact ⟨cutoff, hcutoff, by rw [cutoff_eq_ok.mp hcutoff, hperiod]⟩
    · rw [← hinsert]
      exact setCandle_eq_ok.mpr ⟨hfits now hlo hhi, rfl⟩
    · rw [← hinsert]
      exact setTrade_eq_ok.mpr ⟨hfits now hlo hhi, rfl⟩

theorem period_new_iff {provider : Provider} {millis : Nat} :
    (new provider millis).period.toInt = millis ↔ millis < 2 ^ 63 := by
  constructor
  · intro h
    have hlt := (new provider millis).period.toInt_lt
    omega
  · exact Int64.toInt_ofNat_of_lt

/-- A store that was written to keeps entries for the milliseconds it was made for if and only if
these are positive and fit into 63 bits. -/
theorem retains_writeAll_iff {provider : Provider} {millis : Nat} {ws : List Write} {s : Store}
    (h : (new provider millis).writeAll ws = .ok s) :
    s.Retains millis ↔ 0 < millis ∧ millis < 2 ^ 63 := by
  rw [retains_iff, (writeAll_period h).1, period_new_iff]

end Store

/-! ## Configurations -/

namespace Config

/-- A check that throws passes if its condition does not hold. -/
theorem check_eq_ok {ε : Type} {p : Prop} [Decidable p] {e : ε} {rest : Except ε Unit} :
    (if p then (throw e : Except ε Unit) >>= fun _ => rest else rest) = .ok () ↔
      ¬ p ∧ rest = .ok () := by
  by_cases hp : p
  · simp [hp, throw, throwThe, MonadExceptOf.throw, bind, Except.bind]
  · simp [hp]

theorem last_check_eq_ok {ε : Type} {p : Prop} [Decidable p] {e : ε} :
    (if p then throw e else pure () : Except ε Unit) = .ok () ↔ ¬ p := by
  by_cases hp : p <;> simp [hp, throw, throwThe, MonadExceptOf.throw, pure, Except.pure]

/-- A configuration that is not refused has passed all checks. -/
theorem validate_eq_ok_iff {c : Config} :
    c.validate = .ok () ↔ c.pairs.isEmpty = false ∧
      c.pairs.forM PairSection.validate = .ok () ∧
      c.endpoints.forM EndpointSection.validate = .ok () ∧
      c.connection.pingInterval ≠ 0 ∧ c.connection.reconnect.policy?.isNone = false ∧
      c.candlePeriod ≠ 0 := by
  have hunit : ∀ q : Unit → Prop, (∃ u, q u) ↔ q () :=
    fun q => ⟨fun ⟨(), h⟩ => h, fun h => ⟨(), h⟩⟩
  unfold validate
  dsimp only
  simp only [check_eq_ok, last_check_eq_ok, bind_eq_ok, hunit, Bool.not_eq_true]

theorem exists_options_iff {c : Config} :
    (∃ o, c.options = .ok o) ↔ c.connection.stallTimeout ≠ 0 ∨
      2 * c.connection.pingInterval.toNat < UInt64.size := by
  unfold options ConnectionSection.settings ConnectionSection.stallMillis
  by_cases hstall : c.connection.stallTimeout = 0
  · by_cases hping : 2 * c.connection.pingInterval.toNat < UInt64.size
    · rw [if_pos hstall, if_pos hping]
      exact iff_of_true ⟨_, rfl⟩ (.inr hping)
    · rw [if_pos hstall, if_neg hping]
      exact iff_of_false (fun ⟨o, h⟩ => by cases h) (by simp [hstall, hping])
  · rw [if_neg hstall]
    exact iff_of_true ⟨_, rfl⟩ (.inl hstall)

theorem options_candlePeriod {c : Config} {o : FeedOptions} (h : c.options = .ok o) :
    o.candlePeriod = millis c.candlePeriod := by
  obtain ⟨settings, -, ho⟩ := bind_eq_ok.mp h
  obtain rfl := Except.ok.inj ho
  rfl

/-- **Options of a validated configuration.** There are some unless the stall timeout is left to be
twice the ping interval and this is no duration; a store built from them keeps its entries for the
configured time, however it is written to, if and only if its milliseconds fit into 63 bits. -/
theorem validate_options {c : Config} (h : c.validate = .ok ()) (provider : Provider) :
    ((∃ o, c.options = .ok o) ↔ c.connection.stallTimeout ≠ 0 ∨
      2 * c.connection.pingInterval.toNat < UInt64.size) ∧
    ∀ o ws s, c.options = .ok o → (Store.new provider o.candlePeriod).writeAll ws = .ok s →
      (s.Retains (millis c.candlePeriod) ↔ millis c.candlePeriod < 2 ^ 63) := by
  refine ⟨exists_options_iff, fun o ws s ho hs => ?_⟩
  obtain ⟨-, -, -, -, -, hperiod⟩ := validate_eq_ok_iff.mp h
  have hpositive : 0 < millis c.candlePeriod := by
    have hne : c.candlePeriod.toNat ≠ 0 := fun hzero => hperiod (UInt64.toNat_inj.mp hzero)
    unfold millis
    omega
  rw [options_candlePeriod ho] at hs
  rw [Store.retains_writeAll_iff hs, and_iff_right hpositive]

/-- A configuration with one pair. -/
def onePair (pingInterval candlePeriod : UInt64) : Config where
  pairs := [⟨"atom", "usdt", ["coinbase"]⟩]
  endpoints := []
  connection := ⟨pingInterval, 0, ⟨"fixed", 1000, 60000⟩⟩
  candlePeriod := candlePeriod
  priceLogInterval := 30

/-- Half an hour can be kept; `2 ^ 63` seconds cannot be doubled, and `2 ^ 63` milliseconds and some
more cannot be kept. -/
theorem validate_options_onePair :
    ((onePair 15 1800).validate = .ok () ∧
      (Store.new .coinbase (millis (onePair 15 1800).candlePeriod)).Retains 1800000) ∧
    ((onePair 9223372036854775808 1800).validate = .ok () ∧
      ¬ ∃ o, (onePair 9223372036854775808 1800).options = .ok o) ∧
    ((onePair 15 9223372036854776).validate = .ok () ∧
      ¬ (Store.new .coinbase (millis (onePair 15 9223372036854776).candlePeriod)).Retains
        9223372036854776000) := by
  have hshort : (onePair 15 1800).validate = .ok () := rfl
  have hping : (onePair 9223372036854775808 1800).validate = .ok () := rfl
  have hlong : (onePair 15 9223372036854776).validate = .ok () := rfl
  refine ⟨⟨hshort, ?_⟩, ⟨hping, ?_⟩, ⟨hlong, ?_⟩⟩
  · exact ((validate_options hshort .coinbase).2 _ [] _ rfl rfl).mpr (by decide)
  · exact fun h => absurd ((validate_options hping .coinbase).1.mp h) (by decide)
  · exact fun h => absurd (((validate_options hlong .coinbase).2 _ [] _ rfl rfl).mp h) (by decide)

/-- Some configurations that are not refused have no options. -/
theorem not_all_validated_run :
    ¬ ∀ (c : Config) (provider : Provider), c.validate = .ok () →
      ∃ o, c.options = .ok o ∧
        (Store.new provider o.candlePeriod).Retains (millis c.candlePeriod) := by
  intro h
  obtain ⟨o, ho, -⟩ := h (onePair 9223372036854775808 1800) .coinbase rfl
  exact absurd (exists_options_iff.mp ⟨o, ho⟩) (by decide)

end Config

end MarketFeed
