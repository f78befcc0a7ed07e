import MarketFeed.Proofs.Connection.Operations
import MarketFeed.Proofs.Feed.Requests
import Mathlib.GroupTheory.GroupAction.Ring

/-!
# Pairs over connections

A feed asks its controller for operations and nothing else, so a run of the feed is a run of its
controller. An opening and each subscription add connections for the pairs that they have: all on
one connection, or as many on each as the exchange allows.

* `operations`: what a run of a feed asks its controller for. `run_controller` says that nothing
  else happens to the controller.
* `filter_operations`: a run adds connections for the pairs that its steps add.
* `open_run_fanOut`: which connections there are after a run, and which pairs each of them carries.
-/

namespace MarketFeed

/-- What an exchange with some portions of pairs asks a controller for. -/
def Exchange.connecting (e : Exchange) (parts : List (List Pair)) : List Controller.Operation :=
  parts.map fun part => .add (e.subscriptionFrames part) e.keepAlive

namespace Feed

/-! ## Runs of a feed and of its controller -/

/-- What a step asks the controller of a feed for. -/
def operationsIn (f : Feed) : Step → List Controller.Operation
  | .frame .. => []
  | .subscribe pairs listing =>
    f.exchange.connecting (f.exchange.asked (f.addedIn (.subscribe pairs listing)))
  | .start => [.start]
  | .shutdown => [.shutdown]

/-- What a run asks the controller of a feed for, step by step. -/
def operations (f : Feed) : List Step → List Controller.Operation
  | [] => []
  | s :: rest =>
    f.operationsIn s ++
      match f.step s with
      | .ok f' => f'.operations rest
      | .error _ => []

theorem foldl_connect_eq (f : Feed) (parts : List (List Pair)) :
    parts.foldl connect f =
      { f with controller := f.controller.afterAll (f.exchange.connecting parts) } := by
  induction parts generalizing f with
  | nil => rfl
  | cons part rest ih =>
    rw [List.foldl_cons, ih]
    rfl

theorem subscribe_controller (f : Feed) (pairs : List Pair) (listing : Listing) :
    (f.subscribe pairs listing).1.controller =
      f.controller.afterAll (f.operationsIn (.subscribe pairs listing)) := by
  unfold operationsIn addedIn subscribe
  dsimp only
  by_cases hfresh : (f.newPairs pairs).isEmpty = true
  · simp only [if_pos hfresh, Exchange.asked_nil]
    rfl
  · cases (f.confirm (f.newPairs pairs) listing).result with
    | error e =>
      simp only [if_neg hfresh, Exchange.asked_nil]
      rfl
    | ok confirmed =>
      simp only [if_neg hfresh]
      rw [addConfirmed_eq_foldl, foldl_connect_eq, register_fst]

/-- The step: what it does to the controller are the operations that it asks for. -/
theorem step_controller {f f' : Feed} {s : Step} (h : f.step s = .ok f') :
    f'.controller = f.controller.afterAll (f.operationsIn s) := by
  cases s with
  | frame clock octets =>
    obtain ⟨-, rfl⟩ := step_frame_eq_ok.mp h
    obtain ⟨store, counters, heq⟩ := handleFrame_eq f clock octets
    rw [heq]
    rfl
  | subscribe pairs listing =>
    obtain rfl := Except.ok.inj h
    exact subscribe_controller f pairs listing
  | start | shutdown =>
    obtain rfl := Except.ok.inj h
    rfl

/-- The run: a run of a feed is a run of its controller. -/
theorem run_controller {f f' : Feed} {steps : List Step} (h : f.run steps = .ok f') :
    f'.controller = f.controller.afterAll (f.operations steps) := by
  induction steps generalizing f with
  | nil =>
    obtain rfl := Except.ok.inj h
    rfl
  | cons s rest ih =>
    obtain ⟨g, hs, hrest⟩ := run_cons.mp h
    simp only [operations, hs]
    rw [Controller.afterAll_append, ← step_controller hs]
    exact ih hrest

/-- Only a shutdown of the feed shuts its controller down. -/
theorem shutdown_not_mem_operations {f f' : Feed} {steps : List Step} (h : f.run steps = .ok f')
    (hstay : .shutdown ∉ steps) : .shutdown ∉ f.operations steps := by
  induction steps generalizing f with
  | nil => exact List.not_mem_nil
  | cons s rest ih =>
    obtain ⟨g, hs, hrest⟩ := run_cons.mp h
    obtain ⟨hfirst, hlater⟩ := not_or.mp (mt List.mem_cons.mpr hstay)
    simp only [operations, hs, List.mem_append, not_or]
    refine ⟨?_, ih hrest hlater⟩
    cases s with
    | frame | start => simp [operationsIn]
    | subscribe => simp [operationsIn, Exchange.connecting]
    | shutdown => exact (hfirst rfl).elim

/-! ## The connections of a run -/

theorem filter_connecting (e : Exchange) (parts : List (List Pair)) :
    (e.connecting parts).filter Controller.Operation.isAdd = e.connecting parts := by
  refine List.filter_eq_self.mpr fun op hop => ?_
  obtain ⟨part, -, rfl⟩ := List.mem_map.mp hop
  rfl

theorem filter_operationsIn (f : Feed) (s : Step) :
    (f.operationsIn s).filter Controller.Operation.isAdd =
      f.exchange.connecting (f.exchange.asked (f.addedIn s)) := by
  cases s with
  | subscribe pairs listing => exact filter_connecting _ _
  | frame | start | shutdown =>
    simp only [addedIn, Exchange.asked_nil]
    rfl

/-- A run adds the connections for the pairs that its steps add. -/
theorem filter_operations {f f' : Feed} {steps : List Step} (h : f.run steps = .ok f') :
    (f.operations steps).filter Controller.Operation.isAdd =
      f.exchange.connecting ((f.additions steps).flatMap f.exchange.asked) := by
  induction steps generalizing f with
  | nil => rfl
  | cons s rest ih =>
    obtain ⟨g, hs, hrest⟩ := run_cons.mp h
    have hmore := ih hrest
    rw [(step_ingested hs).exchange] at hmore
    simp only [operations, additions, hs, List.filter_append, filter_operationsIn, hmore,
      List.flatMap_cons]
    exact List.map_append.symm

/-- The connections that carry some portions of pairs, with numbers from the first one on. -/
theorem registered_connecting (e : Exchange) (first : Nat) (parts : List (List Pair)) :
    Controller.registered first (e.connecting parts) =
      parts.mapIdx fun i part => ⟨first + i, e.subscriptionFrames part, e.keepAlive⟩ := by
  induction parts generalizing first with
  | nil => rfl
  | cons part rest ih =>
    rw [List.mapIdx_cons]
    refine congrArg _ ((ih (first + 1)).trans ?_)
    simp only [Nat.add_assoc, Nat.add_comm 1]

section Open

variable {exchange : Exchange} {configured : Option Endpoint} {options : FeedOptions}
  {pairs : List Pair} {listing : Listing} {f₀ f : Feed} {steps : List Step}

/-- The portions of the pairs that a feed opens with, one for each of its first connections. -/
def firstParts (exchange : Exchange) (confirmed : List Pair) : List (List Pair) :=
  if exchange.subscribeByRequest then exchange.asked confirmed else [confirmed]

theorem open_controller
    (hopen : (open? exchange configured options pairs listing).result = .ok f) :
    ∃ confirmed,
      ((bare exchange configured options).confirm pairs listing).result = .ok confirmed ∧
      f.controller = (bare exchange configured options).controller.afterAll
        (exchange.connecting (firstParts exchange confirmed)) := by
  unfold open? at hopen
  dsimp only at hopen
  split at hopen
  · cases hopen
  · rename_i confirmed hconfirmed
    obtain rfl := Except.ok.inj hopen
    refine ⟨confirmed, hconfirmed, ?_⟩
    unfold connectFirst firstParts Exchange.asked
    rw [register_fst]
    change Feed.controller (if exchange.subscribeByRequest then _ else _) = _
    split
    · rw [connectAll, foldl_connect_eq]
      rfl
    · rfl

/-- The connections after an opening and a run without a shutdown are those of the portions of
pairs, in their order. -/
theorem open_run_connections
    (hopen : (open? exchange configured options pairs listing).result = .ok f₀)
    (hrun : f₀.run steps = .ok f) (hstay : .shutdown ∉ steps) :
    ∃ confirmed,
      ((bare exchange configured options).confirm pairs listing).result = .ok confirmed ∧
      f.controller.connections =
        (firstParts exchange confirmed ++ (f₀.additions steps).flatMap exchange.asked).mapIdx
          fun id part => ⟨id, exchange.subscriptionFrames part, exchange.keepAlive⟩ := by
  obtain ⟨confirmed, hconfirmed, hfirst⟩ := open_controller hopen
  refine ⟨confirmed, hconfirmed, ?_⟩
  have hoperations : (exchange.connecting (firstParts exchange confirmed) ++
      f₀.operations steps).filter Controller.Operation.isAdd = exchange.connecting
        (firstParts exchange confirmed ++ (f₀.additions steps).flatMap exchange.asked) := by
    rw [List.filter_append, filter_connecting, filter_operations hrun, open_exchange hopen]
    exact List.map_append.symm
  have hstill : .shutdown ∉ exchange.connecting (firstParts exchange confirmed) ++
      f₀.operations steps := by
    simp [Exchange.connecting, shutdown_not_mem_operations hrun hstay]
  have hsettled := (bare_settled exchange configured options).1.connections_afterAll hstill
  rw [run_controller hrun, hfirst, ← Controller.afterAll_append, hsettled,
    ← Controller.registered_filter, hoperations, registered_connecting]
  have hnone : (bare exchange configured options).controller.connections = [] := rfl
  have hzero : (bare exchange configured options).controller.nextId = 0 := rfl
  simp only [hnone, hzero, Nat.zero_add, List.nil_append]

/-- **Fan-out.** Let a feed be opened and run without a fault and without a shutdown. Of an exchange
that is asked for pairs, the connections in the order of their numbers carry, one after the other,
the confirmed pairs of the opening and those that the subscriptions have added. If a connection may
carry a limited number of pairs, none of them is empty or carries more, and each batch of pairs has
as few connections as possible; without a limit, each batch that has pairs has one connection. An
exchange that pushes everything has one connection, whatever is subscribed. -/
theorem open_run_fanOut
    (hopen : (open? exchange configured options pairs listing).result = .ok f₀)
    (hrun : f₀.run steps = .ok f) (hstay : .shutdown ∉ steps) :
    ∃ confirmed batches parts,
      ((bare exchange configured options).confirm pairs listing).result = .ok confirmed ∧
      batches = confirmed :: f₀.additions steps ∧
      parts = (if exchange.subscribeByRequest then
        batches.flatMap (portions exchange.maxPairsPerConnection) else [confirmed]) ∧
      f.controller.connections = parts.mapIdx (fun id part =>
        ⟨id, exchange.subscriptionFrames part, exchange.keepAlive⟩) ∧
      f.controller.count = parts.length ∧
      (exchange.subscribeByRequest = true →
        parts.flatten = batches.flatten ∧
        (∀ limit, exchange.maxPairsPerConnection = some limit → 0 < limit →
          (∀ part ∈ parts, 1 ≤ part.length ∧ part.length ≤ limit) ∧
          f.controller.count = (batches.map fun batch => batch.length ⌈/⌉ limit).sum) ∧
        (exchange.maxPairsPerConnection = none ∨ exchange.maxPairsPerConnection = some 0 →
          parts = batches.filter (· ≠ []))) ∧
      (exchange.subscribeByRequest = false → f.controller.count = 1) := by
  obtain ⟨confirmed, hconfirmed, hconnections⟩ := open_run_connections hopen hrun hstay
  have hparts : firstParts exchange confirmed ++ (f₀.additions steps).flatMap exchange.asked =
      if exchange.subscribeByRequest then
        (confirmed :: f₀.additions steps).flatMap (portions exchange.maxPairsPerConnection)
      else [confirmed] := by
    unfold firstParts Exchange.asked
    split
    · exact List.flatMap_cons.symm
    · simp
  rw [hparts] at hconnections
  have hcount := congrArg List.length hconnections
  rw [← Controller.count_eq_length, List.length_mapIdx] at hcount
  refine ⟨confirmed, _, _, hconfirmed, rfl, rfl, hconnections, hcount, fun hrequest => ?_,
    fun hpush => ?_⟩
  · rw [if_pos hrequest] at hcount ⊢
    rw [hcount]
    generalize confirmed :: f₀.additions steps = batches
    refine ⟨?_, fun limit hlimit hpos => ⟨?_, ?_⟩, fun hnone => ?_⟩
    · exact flatten_flatMap_portions _ batches
    · intro part hpart
      rw [hlimit] at hpart
      obtain ⟨batch, -, hin⟩ := List.mem_flatMap.mp hpart
      obtain ⟨hsome, hle⟩ := mem_portions hpos batch hin
      exact ⟨List.length_pos_of_ne_nil hsome, hle⟩
    · rw [hlimit, List.length_flatMap]
      exact congrArg List.sum (List.map_congr_left fun batch _ => length_portions hpos batch)
    · rw [List.flatMap_congr fun batch _ => portions_of_unlimited hnone batch,
        ← List.filter_flatMap, List.flatMap_singleton']
  · rw [hcount, hpush]
    rfl

end Open

/-- Coinbase with two pairs for each connection. -/
def twoPairsEach : Exchange := { Exchange.coinbase with maxPairsPerConnection := some 2 }

/-- A listing of four pairs. -/
def fourPairsListing : Listing :=
  .ok (coinbaseListing [.of "atom" "usdt", .of "osmo" "usdt", .of "btc" "usdt", .of "eth" "usdt"])

/-- Opening with three pairs takes two connections. A pair subscribed later has a third one, though
the second has room for it. -/
theorem open_run_fanOut_twoEach :
    ∃ f₀ f,
      (open? twoPairsEach none .default [.of "atom" "usdt", .of "osmo" "usdt", .of "btc" "usdt"]
        fourPairsListing).result = .ok f₀ ∧
      f₀.run [.subscribe [.of "eth" "usdt"] fourPairsListing] = .ok f ∧
      f.controller.count = 3 ∧
      f.controller.connections.map (·.frames) =
        [[.of "atom" "usdt", .of "osmo" "usdt"], [.of "btc" "usdt"], [.of "eth" "usdt"]].map
          twoPairsEach.subscriptionFrames := by
  have hall : ((open? twoPairsEach none .default
      [.of "atom" "usdt", .of "osmo" "usdt", .of "btc" "usdt"]
      fourPairsListing).result.toOption.bind fun f₀ =>
        (f₀.run [.subscribe [.of "eth" "usdt"] fourPairsListing]).toOption.map fun _ =>
          (((bare twoPairsEach none .default).confirm
              [.of "atom" "usdt", .of "osmo" "usdt", .of "btc" "usdt"]
              fourPairsListing).result.toOption,
            f₀.additions [.subscribe [.of "eth" "usdt"] fourPairsListing])) =
      some (some [.of "atom" "usdt", .of "osmo" "usdt", .of "btc" "usdt"],
        [[.of "eth" "usdt"]]) := by
    simp only [fourPairsListing, coinbaseListing, Json.ascii_render]
    decide +kernel
  obtain ⟨f₀, hopen, hrest⟩ := Option.bind_eq_some_iff.mp hall
  obtain ⟨f, hrun, hstate⟩ := Option.map_eq_some_iff.mp hrest
  obtain ⟨hconfirm, hadditions⟩ := Prod.mk.inj hstate
  rw [toOption_eq_some] at hopen hrun hconfirm
  obtain ⟨confirmed, batches, parts, hconfirmed, rfl, rfl, hconnections, hcount, -⟩ :=
    open_run_fanOut hopen hrun (by simp)
  obtain rfl := Except.ok.inj (hconfirm.symm.trans hconfirmed)
  rw [hadditions] at hconnections hcount
  refine ⟨f₀, f, hopen, hrun, hcount, ?_⟩
  rw [hconnections]
  rfl

end Feed

end MarketFeed
