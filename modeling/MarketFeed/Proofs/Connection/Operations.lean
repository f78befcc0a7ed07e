import MarketFeed.Proofs.Connection.Registered
import Mathlib.Data.List.DropRight
import Mathlib.Data.List.Range

/-!
# Operations on the connections of a provider

Whoever holds a controller can add connections, start them and shut them down, in any order. The
worker of a connection is started when the connection is added or, before the first start, with
that start; a shutdown in between drops the connection and its worker is never started.

* `Operation`, `after`, `afterAll`: operations, and what one and several of them do.
* `given_eq`: the numbers that operations give count the additions.
* `connections_afterAll`: without a shutdown, all connections that were added are there.
* `spawned`: the connections whose workers operations start. `spawned_sublist` says that they come
  in the order of their numbers and none twice, and `mem_spawned_add` which they are.
* `bookkeeping`: all this for a new controller.
-/

namespace MarketFeed.Controller

/-! ## Operations -/

/-- What a controller can be asked for. -/
inductive Operation where
  /-- Adds a connection with the messages that it subscribes with. -/
  | add (frames : List String) (keepAlive : KeepAlive)
  | start
  | shutdown
deriving DecidableEq

/-- Does an operation add a connection? -/
def Operation.isAdd : Operation → Bool
  | .add .. => true
  | .start => false
  | .shutdown => false

/-- How many connections operations add. -/
def additions (ops : List Operation) : Nat := ops.countP Operation.isAdd

/-- A controller after an operation. -/
def after (c : Controller) : Operation → Controller
  | .add frames keepAlive => (c.add frames keepAlive).1
  | .start => c.start.1
  | .shutdown => c.shutdown.1

/-- A controller after operations, one after the other. -/
def afterAll (c : Controller) (ops : List Operation) : Controller := ops.foldl after c

/-- The numbers that operations give: each addition that of its connection. -/
def given (c : Controller) : List Operation → List Nat
  | [] => []
  | .add frames keepAlive :: rest =>
    (c.add frames keepAlive).2 :: (c.after (.add frames keepAlive)).given rest
  | .start :: rest => (c.after .start).given rest
  | .shutdown :: rest => (c.after .shutdown).given rest

/-- The connections that operations add, with numbers from the first one on. -/
def registered (first : Nat) : List Operation → List Connection
  | [] => []
  | .add frames keepAlive :: rest => ⟨first, frames, keepAlive⟩ :: registered (first + 1) rest
  | .start :: rest => registered first rest
  | .shutdown :: rest => registered first rest

/-- The connections whose workers an operation starts: they run after it and did not before. -/
def spawnedBy (c : Controller) (op : Operation) : List Connection :=
  (c.after op).running.drop c.running.length

/-- The connections whose workers operations start, in the order in which they are started. -/
def spawned (c : Controller) : List Operation → List Connection
  | [] => []
  | op :: rest => c.spawnedBy op ++ (c.after op).spawned rest

/-- Is there a start among operations, with no shutdown before it? -/
def Starts (ops : List Operation) : Prop :=
  ∃ before rest, ops = before ++ .start :: rest ∧ .shutdown ∉ before

theorem additions_append (ops more : List Operation) :
    additions (ops ++ more) = additions ops + additions more := List.countP_append

theorem additions_cons (op : Operation) (rest : List Operation) :
    additions (op :: rest) = additions [op] + additions rest := additions_append [op] rest

@[simp] theorem additions_add (frames : List String) (keepAlive : KeepAlive)
    (rest : List Operation) : additions (.add frames keepAlive :: rest) = additions rest + 1 :=
  List.countP_cons_of_pos rfl

@[simp] theorem additions_start (rest : List Operation) :
    additions (.start :: rest) = additions rest := List.countP_cons_of_neg Bool.false_ne_true

@[simp] theorem additions_shutdown (rest : List Operation) :
    additions (.shutdown :: rest) = additions rest := List.countP_cons_of_neg Bool.false_ne_true

/-- The connections that operations add have consecutive numbers. -/
theorem map_id_registered (first : Nat) (ops : List Operation) :
    (registered first ops).map (·.id) = List.range' first (additions ops) := by
  induction ops generalizing first with
  | nil => rfl
  | cons op rest ih =>
    cases op with
    | add frames keepAlive =>
      rw [registered, List.map_cons, ih, additions_add, List.range'_succ]
    | start => rw [registered, ih, additions_start]
    | shutdown => rw [registered, ih, additions_shutdown]

/-- Only additions count. -/
theorem registered_filter (first : Nat) (ops : List Operation) :
    registered first (ops.filter Operation.isAdd) = registered first ops := by
  induction ops generalizing first with
  | nil => rfl
  | cons op rest ih =>
    cases op with
    | add frames keepAlive => exact congrArg (_ :: ·) (ih (first + 1))
    | start | shutdown => exact ih first

theorem length_registered (first : Nat) (ops : List Operation) :
    (registered first ops).length = additions ops := by
  rw [← List.length_map (f := Connection.id), map_id_registered, List.length_range']

theorem id_of_mem_registered {first : Nat} {ops : List Operation} {x : Connection}
    (h : x ∈ registered first ops) : first ≤ x.id ∧ x.id < first + additions ops := by
  have hid := List.mem_map_of_mem (f := Connection.id) h
  rw [map_id_registered, List.mem_range'_1] at hid
  exact hid

theorem not_starts_nil : ¬ Starts [] := by
  rintro ⟨before, rest, hsplit, -⟩
  cases before <;> cases hsplit

theorem starts_cons {op : Operation} {rest : List Operation} :
    Starts (op :: rest) ↔ op = .start ∨ op ≠ .shutdown ∧ Starts rest := by
  constructor
  · rintro ⟨before, later, hsplit, hstay⟩
    cases before with
    | nil => exact .inl (List.cons.inj hsplit).1
    | cons first before =>
      obtain ⟨rfl, rfl⟩ := List.cons.inj hsplit
      obtain ⟨hfirst, hrest⟩ := not_or.mp (mt List.mem_cons.mpr hstay)
      exact .inr ⟨Ne.symm hfirst, before, later, rfl, hrest⟩
  · rintro (rfl | ⟨hop, before, later, rfl, hstay⟩)
    · exact ⟨[], rest, rfl, List.not_mem_nil⟩
    · exact ⟨op :: before, later, rfl, by simp [Ne.symm hop, hstay]⟩

/-! ## One operation -/

section Step

variable {c : Controller}

theorem Settled.after (h : c.Settled) (op : Operation) : (c.after op).Settled := by
  cases op with
  | add frames keepAlive => exact h.add frames keepAlive
  | start => exact h.start
  | shutdown => exact shutdown_settled c

theorem nextId_after (c : Controller) (op : Operation) :
    (c.after op).nextId = c.nextId + additions [op] := by
  cases op with
  | add frames keepAlive =>
    unfold Controller.after add
    dsimp only
    split <;> rfl
  | start =>
    unfold Controller.after start
    dsimp only
    split <;> rfl
  | shutdown => rfl

/-- Only a start makes a controller a started one, and no operation takes that back. -/
theorem started_after (c : Controller) (op : Operation) :
    (c.after op).started = true ↔ c.started = true ∨ op = .start := by
  cases op with
  | add frames keepAlive => cases hc : c.started <;> simp [Controller.after, add, hc]
  | start => cases hc : c.started <;> simp [Controller.after, start, hc]
  | shutdown => simp [Controller.after, shutdown]

theorem not_started_after (hc : c.started = false) {op : Operation} (hop : op ≠ .start) :
    (c.after op).started = false := by
  rw [Bool.eq_false_iff, ne_eq, started_after]
  simp [hc, hop]

/-- The worker of an added connection is started at once, or waits for the start with the others. -/
theorem add_cases (c : Controller) (frames : List String) (keepAlive : KeepAlive) :
    (c.started = true ∧ c.spawnedBy (.add frames keepAlive) = [⟨c.nextId, frames, keepAlive⟩] ∧
        (c.after (.add frames keepAlive)).pending = c.pending) ∨
      (c.started = false ∧ c.spawnedBy (.add frames keepAlive) = [] ∧
        (c.after (.add frames keepAlive)).pending =
          c.pending ++ [⟨c.nextId, frames, keepAlive⟩]) := by
  cases hc : c.started <;> simp [spawnedBy, Controller.after, add, hc]

/-- A start starts the workers of the connections that wait, unless there was one before. -/
theorem spawnedBy_start (c : Controller) :
    c.spawnedBy .start = if c.started then [] else c.pending := by
  cases hc : c.started <;> simp [spawnedBy, Controller.after, start, hc]

/-- After a start no connection waits. -/
theorem Settled.pending_start (h : c.Settled) : (c.after .start).pending = [] :=
  h.after .start ((started_after c .start).mpr (.inr rfl))

theorem spawnedBy_shutdown (c : Controller) : c.spawnedBy .shutdown = [] := List.drop_nil

/-- Before the start no connection runs. -/
def Idle (c : Controller) : Prop := c.started = false → c.running = []

theorem Idle.after (h : c.Idle) (op : Operation) : (c.after op).Idle := by
  intro hc
  have hstarted := mt (started_after c op).mpr (Bool.eq_false_iff.mp hc)
  obtain ⟨hold, hop⟩ := not_or.mp hstarted
  have hidle := h (Bool.eq_false_iff.mpr hold)
  cases op with
  | add frames keepAlive => simpa [Controller.after, add, hold] using hidle
  | start => exact (hop rfl).elim
  | shutdown => rfl

end Step

/-! ## Several operations -/

section Run

variable {c : Controller} {ops : List Operation}

theorem afterAll_append (c : Controller) (ops more : List Operation) :
    c.afterAll (ops ++ more) = (c.afterAll ops).afterAll more := List.foldl_append

theorem spawned_append (c : Controller) (ops more : List Operation) :
    c.spawned (ops ++ more) = c.spawned ops ++ (c.afterAll ops).spawned more := by
  induction ops generalizing c with
  | nil => rfl
  | cons op rest ih =>
    rw [List.cons_append, spawned, spawned, ih, List.append_assoc]
    rfl

theorem Settled.afterAll (h : c.Settled) (ops : List Operation) : (c.afterAll ops).Settled := by
  induction ops generalizing c with
  | nil => exact h
  | cons op rest ih => exact ih (h.after op)

theorem Idle.afterAll (h : c.Idle) (ops : List Operation) : (c.afterAll ops).Idle := by
  induction ops generalizing c with
  | nil => exact h
  | cons op rest ih => exact ih (h.after op)

theorem nextId_afterAll (c : Controller) (ops : List Operation) :
    (c.afterAll ops).nextId = c.nextId + additions ops := by
  induction ops generalizing c with
  | nil => rfl
  | cons op rest ih =>
    rw [additions_cons, ← Nat.add_assoc, ← nextId_after]
    exact ih (c.after op)

theorem started_afterAll (c : Controller) (ops : List Operation) :
    (c.afterAll ops).started = true ↔ c.started = true ∨ .start ∈ ops := by
  induction ops generalizing c with
  | nil => simp [Controller.afterAll]
  | cons op rest ih =>
    rw [List.mem_cons, ← or_assoc, eq_comm (a := Operation.start), ← started_after]
    exact ih (c.after op)

/-- The numbers that operations give count up from the next one, whatever else is asked for. -/
theorem given_eq (c : Controller) (ops : List Operation) :
    c.given ops = List.range' c.nextId (additions ops) := by
  induction ops generalizing c with
  | nil => rfl
  | cons op rest ih =>
    have hmore := ih (c.after op)
    rw [nextId_after] at hmore
    cases op with
    | add frames keepAlive =>
      have hnumber : (c.add frames keepAlive).2 = c.nextId := by
        unfold add
        dsimp only
        split <;> rfl
      rw [given, hmore, hnumber, additions_add frames keepAlive rest, List.range'_succ]
      rfl
    | start =>
      rw [given, hmore, additions_start]
      rfl
    | shutdown =>
      rw [given, hmore, additions_shutdown]
      rfl

/-- Without a shutdown no connection is lost. -/
theorem Settled.connections_afterAll (h : c.Settled) (hstay : .shutdown ∉ ops) :
    (c.afterAll ops).connections = c.connections ++ registered c.nextId ops := by
  induction ops generalizing c with
  | nil => exact (List.append_nil _).symm
  | cons op rest ih =>
    obtain ⟨hop, hrest⟩ := not_or.mp (mt List.mem_cons.mpr hstay)
    have hmore : ((c.after op).afterAll rest).connections = _ := ih (h.after op) hrest
    rw [nextId_after] at hmore
    cases op with
    | add frames keepAlive =>
      have hadd : (c.after (.add frames keepAlive)).connections = _ :=
        h.connections_add frames keepAlive
      rw [hadd, List.append_assoc] at hmore
      exact hmore
    | start =>
      have hstart : (c.after .start).connections = _ := connections_start c
      rw [hstart] at hmore
      exact hmore
    | shutdown => exact (hop rfl).elim

/-- The workers that operations start are those of connections that wait or are added, in the order
of their numbers, and none is started twice. -/
theorem Settled.spawned_sublist (h : c.Settled) (ops : List Operation) :
    (c.spawned ops).Sublist (c.pending ++ registered c.nextId ops) := by
  induction ops generalizing c with
  | nil => exact List.nil_sublist _
  | cons op rest ih =>
    have hmore := ih (h.after op)
    rw [nextId_after] at hmore
    rw [spawned]
    cases op with
    | add frames keepAlive =>
      rcases add_cases c frames keepAlive with ⟨hstarted, hone, hwaits⟩ | ⟨-, hnone, hwaits⟩
      · rw [hwaits, h hstarted] at hmore
        rw [hone, h hstarted]
        exact hmore.cons_cons _
      · rw [hwaits, List.append_assoc] at hmore
        rw [hnone]
        exact hmore
    | start =>
      rw [h.pending_start] at hmore
      refine List.Sublist.append ?_ hmore
      rw [spawnedBy_start]
      split
      · exact List.nil_sublist _
      · exact List.Sublist.refl _
    | shutdown =>
      rw [spawnedBy_shutdown]
      exact hmore.trans (List.sublist_append_right _ _)

/-- No worker is started without a start. -/
theorem spawned_of_not_started (hc : c.started = false) (hnone : .start ∉ ops) :
    c.spawned ops = [] := by
  induction ops generalizing c with
  | nil => rfl
  | cons op rest ih =>
    obtain ⟨hop, hrest⟩ := not_or.mp (mt List.mem_cons.mpr hnone)
    rw [spawned, ih (not_started_after hc (Ne.symm hop)) hrest, List.append_nil]
    cases op with
    | add frames keepAlive =>
      rcases add_cases c frames keepAlive with ⟨hstarted, -, -⟩ | ⟨-, hspawned, -⟩
      · rw [hc] at hstarted
        cases hstarted
      · exact hspawned
    | start => exact (hop rfl).elim
    | shutdown => exact spawnedBy_shutdown c

/-- The worker of a connection that waits is started if and only if a start comes before a
shutdown. -/
theorem Settled.mem_spawned_of_pending (h : c.Settled) (hc : c.started = false) {x : Connection}
    (hx : x ∈ c.pending) (hid : x.id < c.nextId) : x ∈ c.spawned ops ↔ Starts ops := by
  induction ops generalizing c with
  | nil => exact iff_of_false List.not_mem_nil not_starts_nil
  | cons op rest ih =>
    have hnext := nextId_after c op
    rw [spawned, starts_cons]
    cases op with
    | add frames keepAlive =>
      rcases add_cases c frames keepAlive with ⟨hstarted, -, -⟩ | ⟨-, hnone, hwaits⟩
      · rw [hc] at hstarted
        cases hstarted
      · have hlater := ih (h.after _) (not_started_after hc Operation.noConfusion)
          (hwaits ▸ List.mem_append_left _ hx) (by omega)
        rw [hnone, List.nil_append, hlater]
        simp
    | start =>
      rw [spawnedBy_start, hc, if_neg Bool.false_ne_true]
      exact iff_of_true (List.mem_append_left _ hx) (.inl rfl)
    | shutdown =>
      -- Whatever is started later is added later.
      refine iff_of_false (fun hmem => ?_) (by simp)
      rw [spawnedBy_shutdown, List.nil_append] at hmem
      have hadded := ((h.after .shutdown).spawned_sublist rest).subset hmem
      have := id_of_mem_registered (by simpa [Controller.after, shutdown] using hadded)
      omega

/-- The worker of a connection is started if and only if there was a start before the connection
was added, or one comes later and before a shutdown. -/
theorem Settled.mem_spawned_add (h : c.Settled) (frames : List String) (keepAlive : KeepAlive)
    (rest : List Operation) :
    ⟨c.nextId, frames, keepAlive⟩ ∈ c.spawned (.add frames keepAlive :: rest) ↔
      c.started = true ∨ Starts rest := by
  rw [spawned]
  rcases add_cases c frames keepAlive with ⟨hstarted, hone, -⟩ | ⟨hc, hnone, hwaits⟩
  · rw [hone]
    exact iff_of_true (List.mem_append_left _ List.mem_cons_self) (.inl hstarted)
  · have hnew : (⟨c.nextId, frames, keepAlive⟩ : Connection) ∈
        (c.after (.add frames keepAlive)).pending :=
      hwaits ▸ List.mem_append_right _ List.mem_cons_self
    have hid : c.nextId < (c.after (.add frames keepAlive)).nextId := by
      rw [nextId_after]
      exact Nat.lt_succ_self _
    rw [hnone, List.nil_append, (h.after _).mem_spawned_of_pending
      (not_started_after hc Operation.noConfusion) hnew hid]
    simp [hc]

end Run

/-! ## A new controller -/

section New

variable (provider : Provider) (url : String) (settings : ConnectionSettings)

/-- As many connections are there as were added since the last shutdown. -/
theorem count_afterAll_new (ops : List Operation) :
    ((new provider url settings).afterAll ops).count =
      additions (ops.rtakeWhile (· ≠ .shutdown)) := by
  have hsettled := new_settled provider url settings
  induction ops using List.reverseRecOn with
  | nil => rfl
  | append_singleton ops op ih =>
    rw [afterAll_append, List.rtakeWhile_concat]
    by_cases hop : op = .shutdown
    · subst hop
      rfl
    · have hstay : .shutdown ∉ [op] := by simpa using Ne.symm hop
      have hone := (hsettled.afterAll ops).connections_afterAll hstay
      rw [if_pos (by simpa using hop), additions_append, ← ih, count_eq_length, hone,
        List.length_append, length_registered, count_eq_length]

/-- **Bookkeeping.** Let a new controller be asked for operations, in any order. Additions give the
numbers 0, 1, 2 and so on. The controller is a started one if and only if there was a start; then
no connection waits, and else none runs. As many connections are there as were added since the last
shutdown. Workers are started in the order of the numbers of their connections, each at most once,
and none without a start; a start starts those of all connections that wait, unless there was one
before. The worker of an added connection is started if and only if there was a start before, or one
comes later with no shutdown in between. -/
theorem bookkeeping (ops : List Operation) :
    ∃ c₀ c, c₀ = new provider url settings ∧ c = c₀.afterAll ops ∧
      c₀.given ops = List.range (additions ops) ∧
      (c.started = true ↔ .start ∈ ops) ∧
      (if c.started then c.pending = [] else c.running = []) ∧
      c.count = additions (ops.rtakeWhile (· ≠ .shutdown)) ∧
      (c₀.spawned ops).Sublist (registered 0 ops) ∧
      ((c₀.spawned ops).map (·.id)).Pairwise (· < ·) ∧
      (.start ∉ ops → c₀.spawned ops = []) ∧
      (∀ before rest, ops = before ++ .start :: rest →
        (c₀.afterAll before).spawnedBy .start =
          if .start ∈ before then [] else (c₀.afterAll before).pending) ∧
      ∀ before frames keepAlive rest, ops = before ++ .add frames keepAlive :: rest →
        (⟨additions before, frames, keepAlive⟩ ∈ c₀.spawned ops ↔
          .start ∈ before ∨ Starts rest) := by
  have hsettled := new_settled provider url settings
  have hidle : (new provider url settings).Idle := fun _ => rfl
  have hstarted : ∀ ops : List Operation,
      ((new provider url settings).afterAll ops).started = true ↔ .start ∈ ops := by
    intro ops
    rw [started_afterAll]
    exact or_iff_right Bool.false_ne_true
  have hsublist : ∀ ops : List Operation,
      ((new provider url settings).spawned ops).Sublist (registered 0 ops) :=
    hsettled.spawned_sublist
  refine ⟨_, _, rfl, rfl, ?_, hstarted ops, ?_, count_afterAll_new provider url settings ops,
    hsublist ops, ?_, ?_, ?_, ?_⟩
  · rw [given_eq, List.range_eq_range']
    rfl
  · split
    · rename_i hc
      exact hsettled.afterAll ops hc
    · rename_i hc
      exact hidle.afterAll ops (Bool.eq_false_iff.mpr hc)
  · have hids := (hsublist ops).map (·.id)
    rw [map_id_registered] at hids
    exact (List.pairwise_lt_range' ..).sublist hids
  · exact spawned_of_not_started rfl
  · rintro before rest -
    rw [spawnedBy_start]
    exact if_congr (hstarted before) rfl rfl
  · rintro before frames keepAlive rest rfl
    have hnumber : ((new provider url settings).afterAll before).nextId = additions before := by
      rw [nextId_afterAll]
      exact Nat.zero_add _
    have hmem := (hsettled.afterAll before).mem_spawned_add frames keepAlive rest
    rw [hnumber, hstarted] at hmem
    rw [spawned_append, List.mem_append, hmem]
    refine or_iff_right fun hearly => ?_
    have := (id_of_mem_registered ((hsublist before).subset hearly)).2
    dsimp only at this
    omega

end New

/-- A connection that a shutdown drops, one that waits for the start, and one that is added after
another shutdown. -/
def restarted : List Operation :=
  [.add ["a"] .ping, .shutdown, .add ["b"] .ping, .start, .shutdown, .add ["c"] .ping, .start]

/-- The worker of the first one is never started, those of the others are. -/
theorem bookkeeping_restarted :
    ∃ c₀ : Controller, c₀ = new .coinbase "wss://feed" .default ∧
      c₀.given restarted = [0, 1, 2] ∧ (c₀.afterAll restarted).count = 1 ∧
      ⟨0, ["a"], .ping⟩ ∉ c₀.spawned restarted ∧
      ⟨1, ["b"], .ping⟩ ∈ c₀.spawned restarted ∧
      ⟨2, ["c"], .ping⟩ ∈ c₀.spawned restarted := by
  obtain ⟨c₀, _, hc₀, rfl, hgiven, -, -, hcount, -, -, -, -, hspawned⟩ :=
    bookkeeping .coinbase "wss://feed" .default restarted
  have hfirst := hspawned [] ["a"] .ping _ rfl
  have hsecond := hspawned (restarted.take 2) ["b"] .ping _ rfl
  have hthird := hspawned (restarted.take 5) ["c"] .ping _ rfl
  refine ⟨c₀, hc₀, hgiven, hcount.trans (by decide), ?_, ?_, ?_⟩
  · rw [show additions [] = 0 from rfl] at hfirst
    simp [hfirst, starts_cons]
  · exact hsecond.mpr (.inr (starts_cons.mpr (.inl rfl)))
  · exact hthird.mpr (.inl (by decide))

end MarketFeed.Controller
