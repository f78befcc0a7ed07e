import MarketFeed.Connection.Address
import MarketFeed.Connection.Worker
import Mathlib.Data.List.Induction

/-!
# Retries

A worker whose attempts fail tries again and again. The count of failures stays in 32 bits: it
stops growing at its end. The number that an attempt is logged with is one more than this count,
and that one leaves the 32 bits; so there are attempts up to the number 2³² - 1 and no further.

* `rounds`: the signals of attempts that fail, without a cancellation.
* `transcript`: what is logged about them.
* `run_rounds`: where a worker stands after attempts that have failed, and what it has logged.
* `not_always_retried`: it does not always try again.
-/

namespace MarketFeed.Worker

/-- The number of the last attempt: the largest one that 32 bits hold. -/
def lastAttempt : Nat := UInt32.size - 1

/-- An attempt that fails. -/
structure Failure where
  reason : String
  /-- The random factor of the delay that follows. -/
  jitter : Rat

/-- The signals of attempts that fail one after the other, each with the delay after it. -/
def rounds (failed : List Failure) : List Signal :=
  failed.flatMap fun a => [.failed a.reason a.jitter, .elapsed]

variable (w : Worker)

/-- What is logged about an attempt that fails. -/
def attemptEvents (attempt : Nat) (a : Failure) : Log.Events :=
  [w.connectingEvent attempt, w.failedEvent a.reason, w.scheduledEvent attempt a.jitter]

/-- What is logged about attempts that fail one after the other. Attempts count from 1. -/
def transcript (failed : List Failure) : Log.Events :=
  (failed.mapIdx fun i a => w.attemptEvents (i + 1) a).flatten

theorem rounds_append (failed more : List Failure) :
    rounds (failed ++ more) = rounds failed ++ rounds more := List.flatMap_append

theorem transcript_concat (failed : List Failure) (a : Failure) :
    w.transcript (failed ++ [a]) =
      w.transcript failed ++ w.attemptEvents (failed.length + 1) a := by
  unfold transcript
  rw [List.mapIdx_concat, List.flatten_concat]

/-! ## Signals -/

theorem runFrom_append (state : WorkerState) (signals more : List Signal) :
    w.runFrom state (signals ++ more) =
      ((w.runFrom (w.runFrom state signals).1 more).1,
        (w.runFrom state signals).2 ++ (w.runFrom (w.runFrom state signals).1 more).2) := by
  induction signals generalizing state with
  | nil => rfl
  | cons signal rest ih =>
    simp only [List.cons_append, runFrom, ih, List.append_assoc]

theorem run_append (signals more : List Signal) :
    w.run (signals ++ more) =
      ((w.runFrom (w.run signals).1 more).1,
        (w.run signals).2 ++ (w.runFrom (w.run signals).1 more).2) := by
  simp only [run, runFrom_append, List.append_assoc]

/-- After a fault nothing happens any more. -/
theorem runFrom_faulted (fault : Fault) (signals : List Signal) :
    w.runFrom (.faulted fault) signals = (.faulted fault, []) := by
  induction signals with
  | nil => rfl
  | cons signal rest ih => simp [runFrom, step, ih]

/-! ## One attempt -/

section Attempt

variable {n : Nat}

theorem toNat_ofNat_of_le (h : n ≤ lastAttempt) : (UInt32.ofNat n).toNat = n := by
  refine UInt32.toNat_ofNat_of_lt' ?_
  simp only [lastAttempt, UInt32.size] at h ⊢
  omega

theorem countFailure_ofNat (h : n < lastAttempt) :
    countFailure (.ofNat n) = .ofNat (n + 1) := by
  have hroom : n + 1 < UInt32.size := by
    simp only [lastAttempt, UInt32.size] at h ⊢
    omega
  rw [countFailure, toNat_ofNat_of_le (Nat.le_of_lt h), if_pos hroom, UInt32.ofNat_add]
  rfl

theorem connect_of_lt (h : n < lastAttempt) :
    w.connect (.ofNat n) = (.connecting (.ofNat n), [w.connectingEvent (n + 1)]) := by
  have hroom : n + 1 < UInt32.size := by
    simp only [lastAttempt, UInt32.size] at h ⊢
    omega
  rw [connect, toNat_ofNat_of_le (Nat.le_of_lt h), if_pos hroom]

/-- Behind the last attempt there is no number left. -/
theorem connect_lastAttempt : w.connect (.ofNat lastAttempt) = (.faulted .sum, []) := by
  rw [connect, toNat_ofNat_of_le (Nat.le_refl _), if_neg]
  decide

/-- The step: an attempt fails, and the delay of its number follows. -/
theorem runFrom_failed (h : n < lastAttempt) (a : Failure) :
    w.runFrom (.connecting (.ofNat n)) [.failed a.reason a.jitter] =
      (.waiting (.ofNat (n + 1)) (w.reconnect.delay (n + 1) a.jitter),
        [w.failedEvent a.reason, w.scheduledEvent (n + 1) a.jitter]) := by
  simp only [runFrom, step, countFailure_ofNat h, toNat_ofNat_of_le h, List.append_nil]

theorem runFrom_elapsed (failures : UInt32) (delay : Rat) :
    w.runFrom (.waiting failures delay) [.elapsed] = w.connect failures := by
  simp only [runFrom, step, List.append_nil]

end Attempt

/-! ## Attempts in a row -/

variable {failed : List Failure}

/-- The run: the worker connects again while there are numbers left. -/
theorem run_rounds_of_lt (h : failed.length < lastAttempt) :
    w.run (rounds failed) = (.connecting (.ofNat failed.length),
      w.transcript failed ++ [w.connectingEvent (failed.length + 1)]) := by
  induction failed using List.reverseRecOn with
  | nil => rfl
  | append_singleton failed a ih =>
    rw [List.length_append, List.length_singleton] at h ⊢
    have hbefore : failed.length < lastAttempt := by omega
    have hround : rounds (failed ++ [a]) =
        rounds failed ++ ([.failed a.reason a.jitter] ++ [.elapsed]) := rounds_append failed [a]
    rw [hround, run_append, ih hbefore, runFrom_append, w.runFrom_failed hbefore, runFrom_elapsed,
      w.connect_of_lt h, transcript_concat]
    simp [attemptEvents]

/-- After one more failure it waits. -/
theorem run_rounds_failed (h : failed.length < lastAttempt) (a : Failure) :
    w.run (rounds failed ++ [.failed a.reason a.jitter]) =
      (.waiting (.ofNat (failed.length + 1)) (w.reconnect.delay (failed.length + 1) a.jitter),
        w.transcript (failed ++ [a])) := by
  rw [run_append, w.run_rounds_of_lt h, w.runFrom_failed h, transcript_concat]
  simp [attemptEvents]

/-- When the delay after the last attempt is over, the worker faults. -/
theorem run_rounds_lastAttempt (h : failed.length = lastAttempt) :
    w.run (rounds failed) = (.faulted .sum, w.transcript failed) := by
  induction failed using List.reverseRecOn with
  | nil => cases h
  | append_singleton failed a _ =>
    rw [List.length_append, List.length_singleton] at h
    have hbefore : failed.length < lastAttempt := by omega
    have hround : rounds (failed ++ [a]) =
        rounds failed ++ [.failed a.reason a.jitter] ++ [.elapsed] := by
      rw [rounds_append, List.append_assoc]
      rfl
    rw [hround, run_append, w.run_rounds_failed hbefore, runFrom_elapsed, h, connect_lastAttempt,
      List.append_nil]

/-- Signals behind that change nothing. -/
theorem run_rounds_of_le (h : lastAttempt ≤ failed.length) :
    w.run (rounds failed) = (.faulted .sum, w.transcript (failed.take lastAttempt)) := by
  have hfirst : (failed.take lastAttempt).length = lastAttempt := by
    rw [List.length_take]
    omega
  conv => lhs; rw [← List.take_append_drop lastAttempt failed]
  rw [rounds_append, run_append, w.run_rounds_lastAttempt hfirst, runFrom_faulted,
    List.append_nil]

/-- **Retries.** Let attempts of a worker fail one after the other, without a cancellation. Each
has its number in the log, and after each the worker waits for the delay of that number. When the
delays are over, the worker connects again if and only if fewer than 2³² - 1 attempts have failed;
else it has faulted before the next attempt. -/
theorem run_rounds (w : Worker) (failed : List Failure) :
    w.run (rounds failed) =
      (if failed.length < lastAttempt then .connecting (.ofNat failed.length) else .faulted .sum,
        w.transcript (failed.take lastAttempt) ++
          if failed.length < lastAttempt then [w.connectingEvent (failed.length + 1)] else []) ∧
    ∀ a, failed.length < lastAttempt →
      w.run (rounds failed ++ [.failed a.reason a.jitter]) =
        (.waiting (.ofNat (failed.length + 1)) (w.reconnect.delay (failed.length + 1) a.jitter),
          w.transcript (failed ++ [a])) := by
  refine ⟨?_, fun a h => w.run_rounds_failed h a⟩
  by_cases h : failed.length < lastAttempt
  · rw [w.run_rounds_of_lt h, if_pos h, if_pos h, List.take_of_length_le (Nat.le_of_lt h)]
  · rw [w.run_rounds_of_le (Nat.le_of_not_lt h), if_neg h, if_neg h, List.append_nil]

/-- A worker whose address names no host; all its attempts fail. -/
def hostless : Worker := ⟨.coinbase, 7, "/path", .backoff 1000 60000⟩

/-- An attempt of it. -/
def refused (jitter : Rat) : Failure := ⟨AddressError.noHost.message, jitter⟩

/-- After two attempts, the second delay is twice as long as the first, within the random factor. -/
theorem run_rounds_hostless :
    Address.refusal? hostless.url = some .noHost ∧ [refused 1].length < lastAttempt ∧
    hostless.run (rounds [refused 1] ++ [.failed AddressError.noHost.message (6 / 5)]) =
      (.waiting 2 2400, hostless.transcript [refused 1, refused (6 / 5)]) := by
  have h : [refused 1].length < lastAttempt := by decide
  have hdelay : hostless.reconnect.delay 2 (6 / 5) = 2400 := by decide +kernel
  have hrun := (run_rounds hostless [refused 1]).2 (refused (6 / 5)) h
  exact ⟨by decide +kernel, h, hrun.trans (by rw [← hdelay]; rfl)⟩

/-- A worker does not try again after any number of failures: 2³² - 1 attempts of that one fail,
and there is no further attempt. -/
theorem not_always_retried :
    ¬ ∀ (w : Worker) (failed : List Failure),
      ∃ failures, (w.run (rounds failed)).1 = .connecting failures := by
  intro h
  obtain ⟨failures, hconnecting⟩ := h hostless (List.replicate lastAttempt (refused 1))
  rw [run_rounds_lastAttempt hostless List.length_replicate] at hconnecting
  cases hconnecting

end MarketFeed.Worker
