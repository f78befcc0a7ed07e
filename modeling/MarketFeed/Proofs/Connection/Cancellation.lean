import MarketFeed.Proofs.Connection.Retries
import Mathlib.Data.List.Basic

/-!
# Cancelled workers

The token of a worker can fire at any moment. The worker notices it only where it waits, for the end
of an attempt or of a delay; if that end comes as well, it may go on with either. So there can be
further attempts after the token has fired. The events come in one order all the same, and the last
one can be that the worker has stopped.

* `Occurrence`, `taken`: what happens around a worker, and the signals that it goes on with.
* `runAmid`: what all this does to a new worker.
* `Standing`: where a worker can stand, with what it has logged. `Standing.step` and `run_standing`
  say that it always stands so.
* `events_in_order`: the events of a worker, whenever its token fires and whatever it goes on with.
-/

namespace MarketFeed.Worker

/-- What happens around a worker. -/
inductive Occurrence where
  /-- The token is cancelled. -/
  | fires
  /-- A wait of the worker ends, and the worker goes on with a signal. -/
  | ends (signal : Signal)

/-- The signals that a worker goes on with. A wait cannot end with a cancellation before the token
has fired. -/
def taken (fired : Bool) : List Occurrence → List Signal
  | [] => []
  | .fires :: rest => taken true rest
  | .ends .cancelled :: rest => if fired then .cancelled :: taken fired rest else taken fired rest
  | .ends signal :: rest => signal :: taken fired rest

/-- The attempt that a signal says has failed. -/
def failure? : Signal → Option Failure
  | .failed reason jitter => some ⟨reason, jitter⟩
  | .elapsed => none
  | .cancelled => none

/-- Where a worker stands when all this has happened around it, and what it has logged. -/
def runAmid (w : Worker) (occurrences : List Occurrence) : WorkerState × Log.Events :=
  w.run (taken false occurrences)

/-- Without a firing no wait ends with a cancellation. -/
theorem fires_of_cancelled_mem {occurrences : List Occurrence}
    (h : .cancelled ∈ taken false occurrences) : .fires ∈ occurrences := by
  induction occurrences with
  | nil => cases h
  | cons occurrence rest ih =>
    rcases occurrence with _ | (⟨reason, jitter⟩ | _ | _)
    · exact List.mem_cons_self
    all_goals
      refine List.mem_cons_of_mem _ (ih ?_)
      simpa [taken] using h

/-! ## Where a worker stands -/

/-- Where a worker can stand when some attempts have failed, and what it has logged then. -/
inductive Standing (w : Worker) : List Failure → WorkerState → Log.Events → Prop where
  /-- It tries to connect. -/
  | connecting {failed : List Failure} (h : failed.length < lastAttempt) :
    w.Standing failed (.connecting (.ofNat failed.length))
      (w.transcript failed ++ [w.connectingEvent (failed.length + 1)])
  /-- The last attempt has failed, and it waits. -/
  | waiting {failed : List Failure} {a : Failure} (h : failed.length < lastAttempt) :
    w.Standing (failed ++ [a])
      (.waiting (.ofNat (failed.length + 1)) (w.reconnect.delay (failed.length + 1) a.jitter))
      (w.transcript (failed ++ [a]))
  /-- It was stopped when it tried to connect. -/
  | stoppedConnecting {failed : List Failure} :
    w.Standing failed .stopped
      (w.transcript failed ++ [w.connectingEvent (failed.length + 1)] ++ [w.stoppedEvent])
  /-- It was stopped when it waited. -/
  | stoppedWaiting {failed : List Failure} {a : Failure} :
    w.Standing (failed ++ [a]) .stopped (w.transcript (failed ++ [a]) ++ [w.stoppedEvent])
  /-- There is no number left for the next attempt. -/
  | faulted {failed : List Failure} (h : failed.length = lastAttempt) :
    w.Standing failed (.faulted .sum) (w.transcript failed)

variable {w : Worker} {failed : List Failure} {state : WorkerState} {log : Log.Events}

/-- What is logged about an attempt that has begun, when it fails. -/
theorem transcript_connecting (w : Worker) (failed : List Failure) (a : Failure) :
    w.transcript failed ++ [w.connectingEvent (failed.length + 1)] ++
        [w.failedEvent a.reason, w.scheduledEvent (failed.length + 1) a.jitter] =
      w.transcript (failed ++ [a]) := by
  rw [transcript_concat, List.append_assoc]
  rfl

theorem start_standing (w : Worker) : w.Standing [] w.start.1 w.start.2 :=
  .connecting (by decide)

theorem runFrom_singleton (w : Worker) (state : WorkerState) (signal : Signal) :
    w.runFrom state [signal] = w.step state signal := by
  simp only [runFrom, List.append_nil]

/-- A worker stands where it can stand after a signal, and only a cancellation has stopped it. -/
def StepsTo (w : Worker) (failed : List Failure) (state : WorkerState) (log : Log.Events)
    (signal : Signal) : Prop :=
  ∃ more, w.Standing (failed ++ more) (w.step state signal).1 (log ++ (w.step state signal).2) ∧
    more.Sublist (failure? signal).toList ∧
    ((w.step state signal).1 = .stopped → state = .stopped ∨ signal = .cancelled)

/-- A signal that does nothing. -/
theorem Standing.stay {signal : Signal} (h : w.Standing failed state log)
    (hstays : w.step state signal = (state, [])) : w.StepsTo failed state log signal := by
  refine ⟨[], ?_, List.nil_sublist _, ?_⟩ <;> rw [hstays]
  · simpa using h
  · exact .inl

theorem step_elapsed (h : failed.length < lastAttempt) (a : Failure) (delay : Rat) :
    w.StepsTo (failed ++ [a]) (.waiting (.ofNat (failed.length + 1)) delay)
      (w.transcript (failed ++ [a])) .elapsed := by
  have hlength : (failed ++ [a]).length = failed.length + 1 := by simp
  have helapsed := w.runFrom_elapsed (.ofNat (failed.length + 1)) delay
  rw [runFrom_singleton] at helapsed
  by_cases hroom : failed.length + 1 < lastAttempt
  · rw [w.connect_of_lt hroom] at helapsed
    refine ⟨[], ?_, List.nil_sublist _, ?_⟩ <;> rw [helapsed]
    · rw [List.append_nil, ← hlength]
      exact .connecting (hlength ▸ hroom)
    · exact fun h => nomatch h
  · have hlast : failed.length + 1 = lastAttempt := by omega
    rw [hlast, connect_lastAttempt] at helapsed
    refine ⟨[], ?_, List.nil_sublist _, ?_⟩ <;> rw [hlast, helapsed]
    · rw [List.append_nil, List.append_nil]
      exact .faulted (hlength.trans hlast)
    · exact fun h => nomatch h

/-- The step: a signal leaves the worker in such a place, and only a cancellation stops it. -/
theorem Standing.step (h : w.Standing failed state log) (signal : Signal) :
    w.StepsTo failed state log signal := by
  cases h with
  | connecting hroom =>
    cases signal with
    | failed reason jitter =>
      have hfailed := w.runFrom_failed hroom ⟨reason, jitter⟩
      rw [runFrom_singleton] at hfailed
      refine ⟨[⟨reason, jitter⟩], ?_, List.Sublist.refl _, ?_⟩ <;> rw [hfailed]
      · rw [w.transcript_connecting failed ⟨reason, jitter⟩]
        exact .waiting hroom
      · exact fun h => nomatch h
    | elapsed => exact (Standing.connecting hroom).stay rfl
    | cancelled =>
      refine ⟨[], ?_, List.nil_sublist _, fun _ => .inr rfl⟩
      rw [List.append_nil]
      exact .stoppedConnecting
  | waiting hroom =>
    cases signal with
    | failed reason jitter => exact (Standing.waiting hroom).stay rfl
    | elapsed => exact step_elapsed hroom _ _
    | cancelled =>
      refine ⟨[], ?_, List.nil_sublist _, fun _ => .inr rfl⟩
      rw [List.append_nil]
      exact .stoppedWaiting
  | stoppedConnecting => exact Standing.stoppedConnecting.stay rfl
  | stoppedWaiting => exact Standing.stoppedWaiting.stay rfl
  | faulted hlast => exact (Standing.faulted hlast).stay rfl

/-- The run: the worker always stands in such a place, and it has stopped only if it was
cancelled. -/
theorem run_standing (w : Worker) (signals : List Signal) :
    ∃ failed, w.Standing failed (w.run signals).1 (w.run signals).2 ∧
      failed.Sublist (signals.filterMap failure?) ∧
      ((w.run signals).1 = .stopped → .cancelled ∈ signals) := by
  induction signals using List.reverseRecOn with
  | nil => exact ⟨[], w.start_standing, List.nil_sublist _, fun h => nomatch h⟩
  | append_singleton signals signal ih =>
    obtain ⟨failed, hstanding, hfailed, hstopped⟩ := ih
    obtain ⟨more, hnext, hmore, hstops⟩ := hstanding.step signal
    rw [run_append, runFrom_singleton]
    refine ⟨failed ++ more, hnext, ?_, fun h => ?_⟩
    · rw [List.filterMap_append]
      refine hfailed.append ?_
      cases signal <;> exact hmore
    · rw [List.mem_append, List.mem_singleton]
      exact (hstops h).imp hstopped Eq.symm

/-! ## What it has logged -/

/-- The last of some events is that an attempt begins or that the next one is scheduled. -/
def EndsInWait (w : Worker) (events : Log.Events) : Prop :=
  ∃ last, events.getLast? = some last ∧ ((∃ attempt, last = w.connectingEvent attempt) ∨
    ∃ attempt jitter, last = w.scheduledEvent attempt jitter)

theorem EndsInWait.ne_failed {events : Log.Events} (h : w.EndsInWait events) (reason : String) :
    events.getLast? ≠ some (w.failedEvent reason) := by
  obtain ⟨last, hlast, ⟨attempt, rfl⟩ | ⟨attempt, jitter, rfl⟩⟩ := h <;>
    simp [hlast, connectingEvent, scheduledEvent, failedEvent]

theorem connectingEvent_ne_stopped (w : Worker) (attempt : Nat) :
    w.stoppedEvent ≠ w.connectingEvent attempt := by
  simp [connectingEvent, stoppedEvent]

theorem stopped_not_mem_transcript (w : Worker) (failed : List Failure) :
    w.stoppedEvent ∉ w.transcript failed := by
  induction failed using List.reverseRecOn with
  | nil => exact List.not_mem_nil
  | append_singleton failed a ih =>
    rw [transcript_concat, List.mem_append]
    refine not_or.mpr ⟨ih, ?_⟩
    simp [attemptEvents, connectingEvent, failedEvent, scheduledEvent, stoppedEvent]

theorem transcript_prefix (w : Worker) (failed : List Failure) (a : Failure) :
    w.transcript failed <+: w.transcript (failed ++ [a]) := by
  rw [transcript_concat]
  exact List.prefix_append _ _

theorem transcript_connecting_prefix (w : Worker) (failed : List Failure) (a : Failure) :
    w.transcript failed ++ [w.connectingEvent (failed.length + 1)] <+:
      w.transcript (failed ++ [a]) :=
  ⟨_, w.transcript_connecting failed a⟩

theorem transcript_endsInWait (w : Worker) (failed : List Failure) (a : Failure) :
    w.EndsInWait (w.transcript (failed ++ [a])) := by
  rw [transcript_concat]
  exact ⟨w.scheduledEvent (failed.length + 1) a.jitter, by simp [attemptEvents],
    .inr ⟨_, _, rfl⟩⟩

/-- Apart from the end, the log consists of attempts that fail, up to some event. -/
theorem Standing.exists_emitted (h : w.Standing failed state log) :
    ∃ emitted, w.stoppedEvent ∉ emitted ∧ (∀ a, emitted <+: w.transcript (failed ++ [a])) ∧
      (log = emitted ∨
        log = emitted ++ [w.stoppedEvent] ∧ state = .stopped ∧ w.EndsInWait emitted) := by
  have hbegun : ∀ failed : List Failure, w.stoppedEvent ∉
      w.transcript failed ++ [w.connectingEvent (failed.length + 1)] := by
    intro failed
    simp [stopped_not_mem_transcript, connectingEvent_ne_stopped]
  cases h with
  | connecting => exact ⟨_, hbegun _, w.transcript_connecting_prefix _, .inl rfl⟩
  | waiting => exact ⟨_, w.stopped_not_mem_transcript _, w.transcript_prefix _, .inl rfl⟩
  | stoppedConnecting =>
    exact ⟨_, hbegun _, w.transcript_connecting_prefix _,
      .inr ⟨rfl, rfl, _, List.getLast?_concat, .inl ⟨_, rfl⟩⟩⟩
  | stoppedWaiting =>
    exact ⟨_, w.stopped_not_mem_transcript _, w.transcript_prefix _,
      .inr ⟨rfl, rfl, w.transcript_endsInWait _ _⟩⟩
  | faulted => exact ⟨_, w.stopped_not_mem_transcript _, w.transcript_prefix _, .inl rfl⟩

/-- **Order of events.** Let the token of a worker fire at any moment or never, let the worker go on
with whatever it can, and let its attempts fail. Then the worker stands where it can stand, and its
log consists of the events of these attempts in their order, up to some event, and possibly of the
event that it has stopped. If there is this event, the token has fired, nothing comes behind it, and
it comes right behind the beginning of an attempt or the scheduling of the next one, but not behind
a failure. -/
theorem events_in_order (w : Worker) (occurrences : List Occurrence) :
    ∃ failed emitted ended,
      w.Standing failed (w.runAmid occurrences).1 (w.runAmid occurrences).2 ∧
      failed.Sublist ((taken false occurrences).filterMap failure?) ∧
      (w.runAmid occurrences).2 = emitted ++ ended ∧
      (∀ a, emitted <+: w.transcript (failed ++ [a])) ∧
      (ended = [] ∨ ended = [w.stoppedEvent]) ∧
      ∀ before after, (w.runAmid occurrences).2 = before ++ w.stoppedEvent :: after →
        .fires ∈ occurrences ∧ after = [] ∧ w.EndsInWait before ∧
          ∀ reason, before.getLast? ≠ some (w.failedEvent reason) := by
  obtain ⟨failed, hstanding, hfailed, hstopped⟩ := w.run_standing (taken false occurrences)
  obtain ⟨emitted, hemitted, hprefix, hlog | ⟨hlog, hstate, hwait⟩⟩ := hstanding.exists_emitted
  · refine ⟨failed, emitted, [], hstanding, hfailed, hlog.trans (List.append_nil _).symm, hprefix,
      .inl rfl, fun before after hsplit => ?_⟩
    rw [runAmid, hlog] at hsplit
    exact absurd (hsplit ▸ List.mem_append_right before List.mem_cons_self) hemitted
  · refine ⟨failed, emitted, [w.stoppedEvent], hstanding, hfailed, hlog, hprefix, .inr rfl,
      fun before after hsplit => ?_⟩
    rw [runAmid, hlog] at hsplit
    obtain ⟨rfl, -, rfl⟩ := (List.append_cons_inj_of_notMem hemitted List.not_mem_nil).mp hsplit
    exact ⟨fires_of_cancelled_mem (hstopped hstate), rfl, hwait, hwait.ne_failed⟩

/-- The token fires in the first delay. The worker goes on with the end of the delay, and notices
the token in the second attempt. -/
example :
    (hostless.runAmid [.ends (.failed "no host" 1), .fires, .ends .elapsed, .ends .cancelled]).2 =
      hostless.transcript [⟨"no host", 1⟩] ++
        [hostless.connectingEvent 2, hostless.stoppedEvent] := by
  rfl

end MarketFeed.Worker
