import MarketFeed.Proofs.Feed.Subscription
import MarketFeed.Proofs.Store.Writes

/-!
# Runs of a feed

What can happen to a feed once it is open, and what a run without a fault takes in. An update is
accepted if its symbol is subscribed when its message is handled; so which updates a run accepts
is told along the run, message by message.

* `Step`, `step`, `run`: messages, subscriptions, starts and stops, one after the other.
* `accepted`: the updates that a run accepts, with the readings of the clock that they take.
* `Ingested`: one feed came out of another by taking in some updates. `step_ingested` is the step
  and `run_ingested` the run.
-/

namespace MarketFeed

/-- The write to a store that an update asks for at a reading of the clock. -/
def Update.write (u : Update) (now : Int64) : Store.Write :=
  match u with
  | .ticker symbol t => .ticker symbol t
  | .trade t => .trade t now
  | .candle symbol c => .candle symbol c now

namespace Feed

/-- What can happen to a feed. -/
inductive Step where
  /-- A message of the exchange arrives. -/
  | frame (clock : Clock) (octets : List UInt8)
  /-- More pairs are asked for; the listing is what the exchange says about tradable pairs. -/
  | subscribe (pairs : List Pair) (listing : Listing)
  | start
  | shutdown

/-- A feed after a step, unless that faults. -/
def step (f : Feed) : Step → Except Fault Feed
  | .frame clock octets =>
    let (f', result, _) := f.handleFrame clock octets
    result.map fun _ => f'
  | .subscribe pairs listing => .ok (f.subscribe pairs listing).1
  | .start => .ok f.start.1
  | .shutdown => .ok f.shutdown.1

/-- A feed after a run of steps, unless one of them faults. -/
def run (f : Feed) (steps : List Step) : Except Fault Feed := steps.foldlM step f

/-- An update and the reading of the clock that it takes. -/
abbrev Timed := Update × Int64

/-- The updates of a message with their readings of the clock. -/
def timed (clock : Clock) (us : List Update) : List Timed :=
  us.mapIdx fun i u => (u, clock.reading i)

/-- The updates that a message decodes to; any other message has none. -/
def updatesIn (f : Feed) (octets : List UInt8) : List Update :=
  match (f.exchange.decode octets).result with
  | .ok (.updates us) => us
  | _ => []

/-- The updates among some that are accepted: their symbol is subscribed. -/
def acceptedOf (f : Feed) (clock : Clock) (us : List Update) : List Timed :=
  (timed clock us).filter fun t => f.isSubscribed t.1.symbol

/-- The updates that a step accepts. -/
def acceptedIn (f : Feed) : Step → List Timed
  | .frame clock octets => f.acceptedOf clock (f.updatesIn octets)
  | _ => []

/-- The updates that a run accepts, each in the state in which its message arrives. -/
def accepted (f : Feed) : List Step → List Timed
  | [] => []
  | s :: rest =>
    f.acceptedIn s ++
      match f.step s with
      | .ok f' => f'.accepted rest
      | .error _ => []

/-- The writes of accepted updates. -/
def writesOf (taken : List Timed) : List Store.Write := taken.map fun t => t.1.write t.2

/-- A feed came out of another one by taking in some updates, and perhaps subscribing more. -/
structure Ingested (f : Feed) (taken : List Timed) (f' : Feed) : Prop where
  exchange : f'.exchange = f.exchange
  store : f.store.writeAll (writesOf taken) = .ok f'.store
  counters : ∀ kind,
    (f'.counters.get kind).toNat = (f.counters.get kind).toNat + taken.countP (·.1.kind = kind)
  subscribed : ∀ symbol, f.isSubscribed symbol = true → f'.isSubscribed symbol = true
  taken : ∀ t ∈ taken, f'.isSubscribed t.1.symbol = true

/-- Nothing was taken in if only the table of subscribed pairs has grown. -/
theorem Ingested.of_same {f f' : Feed} (he : f'.exchange = f.exchange) (hs : f'.store = f.store)
    (hc : f'.counters = f.counters)
    (hsub : ∀ symbol, f.isSubscribed symbol = true → f'.isSubscribed symbol = true) :
    Ingested f [] f' where
  exchange := he
  store := by rw [hs]; rfl
  counters kind := by rw [hc]; rfl
  subscribed := hsub
  taken := by simp

theorem Ingested.refl (f : Feed) : Ingested f [] f := .of_same rfl rfl rfl fun _ h => h

theorem Ingested.trans {f g h : Feed} {us vs : List Timed} (h₁ : Ingested f us g)
    (h₂ : Ingested g vs h) : Ingested f (us ++ vs) h where
  exchange := h₂.exchange.trans h₁.exchange
  store := by
    unfold writesOf
    rw [List.map_append]
    exact Store.writeAll_append.mpr ⟨g.store, h₁.store, h₂.store⟩
  counters kind := by
    rw [h₂.counters, h₁.counters, List.countP_append, Nat.add_assoc]
  subscribed symbol hs := h₂.subscribed symbol (h₁.subscribed symbol hs)
  taken t ht := by
    rcases List.mem_append.mp ht with hu | hv
    · exact h₂.subscribed _ (h₁.taken t hu)
    · exact h₂.taken t hv

/-! ## Updates -/

theorem keep_eq_ok {f f' : Feed} {now : Int64} {u : Update} :
    f.keep now u = .ok f' ↔
      ∃ s, f.store.write (u.write now) = .ok s ∧ f' = { f with store := s } := by
  cases u with
  | ticker symbol t => simp [keep, Store.write, Update.write, eq_comm]
  | trade t =>
    simp only [keep, Store.write, Update.write, bind_eq_ok, Except.ok.injEq]
    simp only [eq_comm]
  | candle symbol c =>
    simp only [keep, Store.write, Update.write, bind_eq_ok, Except.ok.injEq]
    simp only [eq_comm]

/-- An update for a symbol that is not subscribed changes nothing. -/
theorem apply_unsubscribed {f : Feed} {u : Update} (h : f.isSubscribed u.symbol = false)
    (now : Int64) : (f.apply now u).1 = f ∧ (f.apply now u).2.1 = .ok () := by
  simp [apply, h]

/-- An accepted update that does not fault is counted and written. -/
theorem apply_subscribed {f f' : Feed} {now : Int64} {u : Update} {events : Log.Events}
    (hs : f.isSubscribed u.symbol = true) (h : f.apply now u = (f', .ok (), events)) :
    f.counters.isFull u.kind = false ∧ ∃ s, f.store.write (u.write now) = .ok s ∧
      f' = { f with store := s, counters := f.counters.record u.kind } := by
  unfold apply at h
  rw [if_pos hs] at h
  dsimp only at h
  split at h
  · cases h
  · rename_i hfull
    split at h
    · rename_i kept hkept
      obtain ⟨s, hw, rfl⟩ := keep_eq_ok.mp hkept
      obtain ⟨rfl, -⟩ := Prod.mk.inj h
      exact ⟨by simpa using hfull, s, hw, rfl⟩
    · cases h

/-- An update changes store and counters only, even one that faults. -/
theorem apply_eq (f : Feed) (now : Int64) (u : Update) :
    ∃ s c, (f.apply now u).1 = { f with store := s, counters := c } := by
  unfold apply
  split
  · dsimp only
    split
    · exact ⟨f.store, _, rfl⟩
    · split
      · rename_i kept hkept
        obtain ⟨s, -, rfl⟩ := keep_eq_ok.mp hkept
        exact ⟨s, _, rfl⟩
      · exact ⟨f.store, _, rfl⟩
  · exact ⟨f.store, f.counters, rfl⟩

/-- One update is taken in if it is accepted, and ignored if not. -/
theorem apply_ingested {f f' : Feed} {now : Int64} {u : Update} {events : Log.Events}
    (h : f.apply now u = (f', .ok (), events)) :
    Ingested f (if f.isSubscribed u.symbol then [(u, now)] else []) f' := by
  by_cases hs : f.isSubscribed u.symbol = true
  · obtain ⟨hfull, s, hw, rfl⟩ := apply_subscribed hs h
    rw [if_pos hs]
    refine ⟨rfl, ?_, fun kind => ?_, fun _ hsym => hsym, ?_⟩
    · simpa [writesOf, Store.writeAll] using hw
    · rw [Counters.get_record hfull]
      simp [List.countP_singleton]
    · rintro t ht
      obtain rfl := List.mem_singleton.mp ht
      exact hs
  · obtain ⟨hsame, -⟩ := apply_unsubscribed (Bool.eq_false_iff.mpr hs) now
    rw [h] at hsame
    subst hsame
    rw [if_neg hs]
    exact .refl _

theorem timed_cons (clock : Clock) (u : Update) (us : List Update) :
    timed clock (u :: us) = (u, clock.reading 0) :: timed clock.later us := by
  unfold timed
  rw [List.mapIdx_cons]
  rfl

/-- Which updates are accepted hangs on the subscribed pairs alone. -/
theorem acceptedOf_congr {f g : Feed} (h : g.subscribed = f.subscribed) (clock : Clock)
    (us : List Update) : g.acceptedOf clock us = f.acceptedOf clock us := by
  unfold acceptedOf isSubscribed
  rw [h]

theorem acceptedOf_cons (f : Feed) (clock : Clock) (u : Update) (us : List Update) :
    f.acceptedOf clock (u :: us) =
      (if f.isSubscribed u.symbol then [(u, clock.reading 0)] else []) ++
        f.acceptedOf clock.later us := by
  unfold acceptedOf
  rw [timed_cons, List.filter_cons]
  split <;> rfl

/-- The updates of a message: those accepted before the first of them are taken in. -/
theorem applyAll_ingested {f : Feed} {clock : Clock} {us : List Update}
    (h : (f.applyAll clock us).2.1 = .ok ()) :
    Ingested f (f.acceptedOf clock us) (f.applyAll clock us).1 := by
  induction us generalizing f clock with
  | nil => exact .refl f
  | cons u us ih =>
    unfold applyAll at h ⊢
    split at h
    · cases h
    · rename_i mid first happly
      have hfirst := apply_ingested happly
      have hsame : mid.subscribed = f.subscribed := by
        obtain ⟨s, c, heq⟩ := apply_eq f (clock.reading 0) u
        rw [happly] at heq
        rw [show mid = _ from heq]
      have hmore := ih h
      rw [acceptedOf_congr hsame] at hmore
      rw [acceptedOf_cons]
      exact hfirst.trans hmore

theorem applyAll_eq (f : Feed) (clock : Clock) (us : List Update) :
    ∃ s c, (f.applyAll clock us).1 = { f with store := s, counters := c } := by
  induction us generalizing f clock with
  | nil => exact ⟨f.store, f.counters, rfl⟩
  | cons u us ih =>
    obtain ⟨s, c, hone⟩ := apply_eq f (clock.reading 0) u
    unfold applyAll
    split
    · rename_i happly
      rw [happly] at hone
      exact ⟨s, c, hone⟩
    · rename_i mid first happly
      rw [happly] at hone
      obtain ⟨s', c', hrest⟩ := ih mid clock.later
      refine ⟨s', c', hrest.trans ?_⟩
      rw [show mid = _ from hone]

/-! ## Steps and runs -/

theorem handleFrame_updates {f : Feed} {octets : List UInt8} {us : List Update}
    (h : (f.exchange.decode octets).result = .ok (.updates us)) (clock : Clock) :
    (f.handleFrame clock octets).1 = (f.applyAll clock us).1 ∧
      (f.handleFrame clock octets).2.1 = (f.applyAll clock us).2.1 := by
  simp [handleFrame, h]

/-- A message that is no list of updates changes nothing. -/
theorem handleFrame_other {f : Feed} {octets : List UInt8}
    (h : ∀ us, (f.exchange.decode octets).result ≠ .ok (.updates us)) (clock : Clock) :
    (f.handleFrame clock octets).1 = f := by
  unfold handleFrame
  dsimp only
  split
  · rename_i us hus
    exact (h us hus).elim
  all_goals rfl

/-- A message changes store and counters only. -/
theorem handleFrame_eq (f : Feed) (clock : Clock) (octets : List UInt8) :
    ∃ s c, (f.handleFrame clock octets).1 = { f with store := s, counters := c } := by
  by_cases h : ∃ us, (f.exchange.decode octets).result = .ok (.updates us)
  · obtain ⟨us, hus⟩ := h
    rw [(handleFrame_updates hus clock).1]
    exact applyAll_eq f clock us
  · rw [handleFrame_other (fun us hus => h ⟨us, hus⟩)]
    exact ⟨f.store, f.counters, rfl⟩

/-- No message subscribes a pair. -/
theorem handleFrame_subscribed_eq (f : Feed) (clock : Clock) (octets : List UInt8) :
    (f.handleFrame clock octets).1.subscribed = f.subscribed := by
  obtain ⟨s, c, h⟩ := handleFrame_eq f clock octets
  rw [h]

/-- A message as a step: the feed after it, if handling it does not fault. -/
theorem step_frame_eq_ok {f f' : Feed} {clock : Clock} {octets : List UInt8} :
    f.step (.frame clock octets) = .ok f' ↔
      (f.handleFrame clock octets).2.1 = .ok () ∧ (f.handleFrame clock octets).1 = f' := by
  change (f.handleFrame clock octets).2.1.map (fun _ => (f.handleFrame clock octets).1) = .ok f' ↔ _
  rw [map_eq_ok]
  exact ⟨fun ⟨(), h⟩ => h, fun h => ⟨(), h⟩⟩

theorem handleFrame_ingested {f f' : Feed} {clock : Clock} {octets : List UInt8}
    (h : f.step (.frame clock octets) = .ok f') :
    Ingested f (f.acceptedIn (.frame clock octets)) f' := by
  obtain ⟨hok, rfl⟩ := step_frame_eq_ok.mp h
  unfold acceptedIn updatesIn
  dsimp only
  split
  · rename_i us hus
    obtain ⟨h₁, h₂⟩ := handleFrame_updates hus clock
    rw [h₂] at hok
    rw [h₁]
    exact applyAll_ingested hok
  · rename_i hother
    rw [handleFrame_other (fun us hus => hother us hus)]
    exact .refl f

theorem subscribe_ingested (f : Feed) (pairs : List Pair) (listing : Listing) :
    Ingested f [] (f.subscribe pairs listing).1 := by
  rcases subscribe_eq f pairs listing with h | ⟨confirmed, c, -, h⟩
  · rw [h]
    exact .refl f
  · rw [h]
    exact .of_same rfl rfl rfl fun symbol hs => (has_putAll _ _ _).mpr (.inl hs)

/-- The step: it takes in what it accepts. -/
theorem step_ingested {f f' : Feed} {s : Step} (h : f.step s = .ok f') :
    Ingested f (f.acceptedIn s) f' := by
  cases s with
  | frame clock octets => exact handleFrame_ingested h
  | subscribe pairs listing =>
    obtain rfl := Except.ok.inj h
    exact subscribe_ingested f pairs listing
  | start =>
    obtain rfl := Except.ok.inj h
    exact .of_same rfl rfl rfl fun _ hs => hs
  | shutdown =>
    obtain rfl := Except.ok.inj h
    exact .of_same rfl rfl rfl fun _ hs => hs

theorem run_cons {f f' : Feed} {s : Step} {rest : List Step} :
    f.run (s :: rest) = .ok f' ↔ ∃ g, f.step s = .ok g ∧ g.run rest = .ok f' := by
  unfold run
  rw [List.foldlM_cons, bind_eq_ok]

theorem run_append {f f' : Feed} {before after : List Step} :
    f.run (before ++ after) = .ok f' ↔ ∃ g, f.run before = .ok g ∧ g.run after = .ok f' := by
  unfold run
  rw [List.foldlM_append, bind_eq_ok]

theorem accepted_cons {f g : Feed} {s : Step} (h : f.step s = .ok g) (rest : List Step) :
    f.accepted (s :: rest) = f.acceptedIn s ++ g.accepted rest := by
  simp only [accepted, h]

/-- What a run accepts is what its first part accepts and then what the rest does. -/
theorem accepted_append {f g : Feed} {before : List Step} (h : f.run before = .ok g)
    (after : List Step) : f.accepted (before ++ after) = f.accepted before ++ g.accepted after := by
  induction before generalizing f with
  | nil =>
    obtain rfl := Except.ok.inj h
    rfl
  | cons s rest ih =>
    obtain ⟨mid, hs, hrest⟩ := run_cons.mp h
    rw [List.cons_append, accepted_cons hs, accepted_cons hs, ih hrest, List.append_assoc]

/-- The run: it takes in what it accepts. -/
theorem run_ingested {f f' : Feed} {steps : List Step} (h : f.run steps = .ok f') :
    Ingested f (f.accepted steps) f' := by
  induction steps generalizing f with
  | nil =>
    obtain rfl := Except.ok.inj h
    exact .refl _
  | cons s rest ih =>
    obtain ⟨g, hs, hrest⟩ := run_cons.mp h
    rw [accepted_cons hs]
    exact (step_ingested hs).trans (ih hrest)

end Feed

end MarketFeed
