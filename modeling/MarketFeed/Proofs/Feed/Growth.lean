import MarketFeed.Proofs.Connection.Registered
import MarketFeed.Proofs.Feed.Run
import Mathlib.Algebra.Order.Floor.Div

/-!
# Growing feeds

While a feed is not shut down, symbols are only added to its table of subscribed pairs, and
connections only to its connections. What each operation adds is said once here: the pairs whose
symbols are new, and the portions of pairs that the exchange is asked for.

* `portions_flatten`, `mem_portions`, `length_portions`: portions leave out no pair and repeat none,
  how long they are, and how many.
* `Grown`: one feed came out of another by adding symbols and connections.
* `step_grown`, `run_grown`: a run adds the pairs of its subscriptions and asks for them in
  portions.
* `open_grown`: an opening adds the confirmed pairs and asks for all of them.
-/

namespace MarketFeed

namespace Feed

/-- The messages with which each connection subscribes. -/
def requests (f : Feed) : List (List String) := f.controller.connections.map (·.frames)

theorem length_requests (f : Feed) : f.requests.length = f.controller.count := by
  rw [requests, List.length_map, Controller.count_eq_length]

/-! ## Portions -/

theorem chunk_flatten {size : Nat} (hsize : 0 < size) {fuel : Nat} {pairs : List Pair}
    (hfuel : pairs.length ≤ fuel) : (portions.chunk size fuel pairs).flatten = pairs := by
  induction fuel generalizing pairs with
  | zero =>
    obtain rfl := List.length_eq_zero_iff.mp (Nat.le_zero.mp hfuel)
    rfl
  | succ fuel ih =>
    simp only [portions.chunk]
    split
    · rename_i hnone
      rw [List.isEmpty_iff.mp hnone, List.flatten_nil]
    · have hrest : (pairs.drop size).length ≤ fuel := by
        rw [List.length_drop]
        omega
      rw [List.flatten_cons, ih hrest, List.take_append_drop]

/-- Portions leave out no pair and repeat none. -/
theorem portions_flatten (limit : Option Nat) (pairs : List Pair) :
    (portions limit pairs).flatten = pairs := by
  unfold portions
  split
  · rename_i hnone
    rw [List.isEmpty_iff.mp hnone, List.flatten_nil]
  · split
    · exact chunk_flatten (Nat.succ_pos _) (Nat.le_refl _)
    · simp

theorem flatten_flatMap_portions (limit : Option Nat) (lists : List (List Pair)) :
    (lists.flatMap (portions limit)).flatten = lists.flatten := by
  induction lists with
  | nil => rfl
  | cons pairs rest ih =>
    rw [List.flatMap_cons, List.flatten_append, portions_flatten, ih, List.flatten_cons]

theorem chunk_length {size fuel : Nat} {pairs part : List Pair}
    (h : part ∈ portions.chunk size fuel pairs) : part.length ≤ size ∧ (0 < size → part ≠ []) := by
  induction fuel generalizing pairs with
  | zero => cases h
  | succ fuel ih =>
    simp only [portions.chunk] at h
    split at h
    · cases h
    · rename_i hsome
      rcases List.mem_cons.mp h with rfl | hrest
      · refine ⟨List.length_take_le size pairs, fun hsize hnone => ?_⟩
        rcases List.take_eq_nil_iff.mp hnone with hzero | hnil
        · omega
        · exact hsome (List.isEmpty_iff.mpr hnil)
      · exact ih hrest

theorem length_chunk {size : Nat} (hsize : 0 < size) {fuel : Nat} {pairs : List Pair}
    (hfuel : pairs.length ≤ fuel) :
    (portions.chunk size fuel pairs).length = pairs.length ⌈/⌉ size := by
  induction fuel generalizing pairs with
  | zero =>
    obtain rfl := List.length_eq_zero_iff.mp (Nat.le_zero.mp hfuel)
    exact (zero_ceilDiv size).symm
  | succ fuel ih =>
    simp only [portions.chunk]
    split
    · rename_i hnone
      rw [List.isEmpty_iff.mp hnone, List.length_nil, List.length_nil, zero_ceilDiv]
    · rename_i hsome
      have hpos := List.length_pos_of_ne_nil (mt List.isEmpty_iff.mpr hsome)
      have hmore : (pairs.length - 1 + size) / size = (pairs.length - 1) / size + 1 :=
        Nat.add_div_right _ hsize
      rw [List.length_cons, ih (by rw [List.length_drop]; omega), List.length_drop,
        Nat.ceilDiv_eq_add_pred_div, Nat.ceilDiv_eq_add_pred_div,
        show pairs.length + size - 1 = pairs.length - 1 + size by omega, hmore]
      -- The first piece takes all pairs, or leaves some for the others.
      rcases Nat.le_total pairs.length size with hall | hleft
      · rw [Nat.div_eq_of_lt (by omega), Nat.div_eq_of_lt (by omega)]
      · rw [show pairs.length - size + size - 1 = pairs.length - 1 by omega]

section Limit

variable {limit : Nat} (hlimit : 0 < limit) (pairs : List Pair)

include hlimit

theorem portions_eq_chunk : portions (some limit) pairs =
    portions.chunk limit pairs.length pairs := by
  obtain ⟨n, rfl⟩ := Nat.exists_eq_succ_of_ne_zero hlimit.ne'
  unfold portions
  split
  · rename_i hnone
    rw [List.isEmpty_iff.mp hnone]
    rfl
  · rfl

/-- Under a limit, portions are not empty and not longer than it. -/
theorem mem_portions {part : List Pair} (h : part ∈ portions (some limit) pairs) :
    part ≠ [] ∧ part.length ≤ limit := by
  rw [portions_eq_chunk hlimit] at h
  exact ⟨(chunk_length h).2 hlimit, (chunk_length h).1⟩

/-- Under a limit, there are no more portions than needed. -/
theorem length_portions : (portions (some limit) pairs).length = pairs.length ⌈/⌉ limit := by
  rw [portions_eq_chunk hlimit, length_chunk hlimit (Nat.le_refl _)]

end Limit

/-- Without a limit, all pairs are one portion. -/
theorem portions_of_unlimited {limit : Option Nat} (h : limit = none ∨ limit = some 0)
    (pairs : List Pair) : portions limit pairs = [pairs].filter (· ≠ []) := by
  unfold portions
  rcases h with rfl | rfl <;> cases pairs <;> rfl

end Feed

/-- The portions in which an exchange is asked for pairs; one that pushes everything is not. -/
def Exchange.asked (e : Exchange) (pairs : List Pair) : List (List Pair) :=
  if e.subscribeByRequest then Feed.portions e.maxPairsPerConnection pairs else []

theorem Exchange.asked_nil (e : Exchange) : e.asked [] = [] := by
  unfold Exchange.asked Feed.portions
  simp

/-- An exchange that is asked for pairs is asked for all of them, in portions. -/
theorem Exchange.asked_eq_portions {e : Exchange} (h : e.subscribeByRequest = true) :
    e.asked = Feed.portions e.maxPairsPerConnection :=
  funext fun _ => if_pos h

namespace Feed

/-! ## Growing feeds -/

/-- A feed came out of another by adding symbols, those of some pairs, and connections, those that
ask for some portions. -/
structure Grown (f : Feed) (added : List Pair) (parts : List (List Pair)) (f' : Feed) : Prop where
  exchange : f'.exchange = f.exchange
  keys : f'.subscribed.keys = f.subscribed.keys ++ added.map Pair.symbol
  keyed : Keyed f.subscribed → Keyed f'.subscribed
  requests : f.controller.Settled → f'.controller.Settled ∧
    f'.requests = f.requests ++ parts.map f.exchange.subscriptionFrames

/-- Nothing was added if exchange, table and connections are the same. -/
theorem Grown.of_same {f f' : Feed} (he : f'.exchange = f.exchange)
    (ht : f'.subscribed = f.subscribed) (hsettled : f.controller.Settled → f'.controller.Settled)
    (hc : f'.controller.connections = f.controller.connections) : Grown f [] [] f' where
  exchange := he
  keys := by simp [ht]
  keyed h := ht ▸ h
  requests h := ⟨hsettled h, by simp [Feed.requests, hc]⟩

theorem Grown.refl (f : Feed) : Grown f [] [] f := .of_same rfl rfl id rfl

theorem Grown.trans {f g h : Feed} {added more : List Pair} {parts others : List (List Pair)}
    (h₁ : Grown f added parts g) (h₂ : Grown g more others h) :
    Grown f (added ++ more) (parts ++ others) h where
  exchange := h₂.exchange.trans h₁.exchange
  keys := by rw [h₂.keys, h₁.keys, List.map_append, List.append_assoc]
  keyed hf := h₂.keyed (h₁.keyed hf)
  requests hf := by
    obtain ⟨hg, hfirst⟩ := h₁.requests hf
    obtain ⟨hh, hrest⟩ := h₂.requests hg
    refine ⟨hh, ?_⟩
    rw [hrest, hfirst, h₁.exchange, List.map_append, List.append_assoc]

/-- Whatever is added to a table without repetitions is new and does not repeat itself. -/
theorem Grown.added_nodup {f f' : Feed} {added : List Pair} {parts : List (List Pair)}
    (h : Grown f added parts f') (hf : Keyed f.subscribed) :
    (added.map Pair.symbol).Nodup ∧ ∀ p ∈ added, f.isSubscribed p.symbol = false := by
  have hnodup := (h.keyed hf).nodup
  rw [h.keys, List.nodup_append] at hnodup
  obtain ⟨-, hadded, hnew⟩ := hnodup
  refine ⟨hadded, fun p hp => ?_⟩
  rw [Bool.eq_false_iff]
  intro hold
  exact hnew _ ((Table.has_iff_mem_keys _ _).mp hold) _ (List.mem_map_of_mem hp) rfl

theorem register_grown (f : Feed) (pairs : List Pair) :
    Grown f (f.register pairs).2 [] (f.register pairs).1 where
  exchange := by rw [register_fst]
  keys := keys_register f pairs
  keyed h := by
    rw [register_fst]
    exact h.putAll pairs
  requests h := by
    rw [register_fst]
    exact ⟨h, (List.append_nil _).symm⟩

theorem connect_grown (f : Feed) (part : List Pair) : Grown f [] [part] (f.connect part) where
  exchange := rfl
  keys := by simp [connect]
  keyed h := h
  requests h := by
    refine ⟨h.add _ _, ?_⟩
    unfold Feed.requests connect
    dsimp only
    rw [h.connections_add, List.map_append]
    rfl

theorem foldl_connect_grown (f : Feed) (parts : List (List Pair)) :
    Grown f [] parts (parts.foldl connect f) := by
  induction parts generalizing f with
  | nil => exact .refl f
  | cons part rest ih => exact (connect_grown f part).trans (ih _)

theorem foldl_connect_asked (f : Feed) (pairs : List Pair) :
    (f.exchange.asked pairs).foldl connect f =
      if f.exchange.subscribeByRequest && !pairs.isEmpty then f.connectAll pairs else f := by
  unfold Exchange.asked
  cases hrequest : f.exchange.subscribeByRequest with
  | false => rfl
  | true => cases pairs <;> rfl

/-- Adding confirmed pairs registers them and then asks for the new ones. -/
theorem addConfirmed_eq_foldl (f : Feed) (confirmed : List Pair) :
    f.addConfirmed confirmed =
      ((f.exchange.asked (f.register confirmed).2).foldl connect (f.register confirmed).1,
        (f.register confirmed).2) := by
  rw [← (register_grown f confirmed).exchange, foldl_connect_asked]
  rfl

theorem addConfirmed_grown (f : Feed) (confirmed : List Pair) :
    Grown f (f.addConfirmed confirmed).2 (f.exchange.asked (f.addConfirmed confirmed).2)
      (f.addConfirmed confirmed).1 := by
  rw [addConfirmed_eq_foldl]
  simpa using (register_grown f confirmed).trans (foldl_connect_grown _ _)

/-! ## Runs -/

/-- The pairs that a step adds to the subscribed ones. -/
def addedIn (f : Feed) : Step → List Pair
  | .subscribe pairs listing =>
    match (f.subscribe pairs listing).2.result with
    | .ok added => added
    | .error _ => []
  | _ => []

/-- The pairs that each step of a run adds, each in the state in which it is taken. -/
def additions (f : Feed) : List Step → List (List Pair)
  | [] => []
  | s :: rest =>
    f.addedIn s ::
      match f.step s with
      | .ok f' => f'.additions rest
      | .error _ => []

theorem subscribe_grown (f : Feed) (pairs : List Pair) (listing : Listing) :
    Grown f (f.addedIn (.subscribe pairs listing))
      (f.exchange.asked (f.addedIn (.subscribe pairs listing))) (f.subscribe pairs listing).1 := by
  unfold addedIn subscribe
  dsimp only
  by_cases hfresh : (f.newPairs pairs).isEmpty = true
  · simp only [if_pos hfresh, Exchange.asked_nil]
    exact .refl f
  · cases hconfirmed : (f.confirm (f.newPairs pairs) listing).result with
    | error e =>
      simp only [if_neg hfresh, Exchange.asked_nil]
      exact .refl f
    | ok confirmed =>
      simp only [if_neg hfresh]
      exact addConfirmed_grown f confirmed

theorem handleFrame_grown (f : Feed) (clock : Clock) (octets : List UInt8) :
    Grown f [] [] (f.handleFrame clock octets).1 := by
  obtain ⟨s, c, h⟩ := handleFrame_eq f clock octets
  rw [h]
  exact .of_same rfl rfl id rfl

theorem start_grown (f : Feed) : Grown f [] [] f.start.1 :=
  .of_same rfl rfl (fun h => h.start) (Controller.connections_start f.controller)

/-- The step: it adds some pairs, and asks for them. A shutdown forgets the connections. -/
theorem step_grown {f f' : Feed} {s : Step} (h : f.step s = .ok f') (hstay : s ≠ .shutdown) :
    Grown f (f.addedIn s) (f.exchange.asked (f.addedIn s)) f' := by
  cases s with
  | frame clock octets =>
    obtain ⟨-, rfl⟩ := step_frame_eq_ok.mp h
    simpa only [addedIn, Exchange.asked_nil] using handleFrame_grown f clock octets
  | subscribe pairs listing =>
    obtain rfl := Except.ok.inj h
    exact subscribe_grown f pairs listing
  | start =>
    obtain rfl := Except.ok.inj h
    simpa only [addedIn, Exchange.asked_nil] using start_grown f
  | shutdown => exact (hstay rfl).elim

/-- The run: it adds the pairs of its steps, and asks for those of each step in portions. -/
theorem run_grown {f f' : Feed} {steps : List Step} (h : f.run steps = .ok f')
    (hstay : Step.shutdown ∉ steps) :
    Grown f (f.additions steps).flatten ((f.additions steps).flatMap f.exchange.asked) f' := by
  induction steps generalizing f with
  | nil =>
    obtain rfl := Except.ok.inj h
    exact .refl _
  | cons s rest ih =>
    obtain ⟨g, hs, hrest⟩ := run_cons.mp h
    obtain ⟨hfirst, hlater⟩ := not_or.mp (mt List.mem_cons.mpr hstay)
    have hstep := step_grown hs (Ne.symm hfirst)
    have hrun := ih hrest hlater
    rw [hstep.exchange] at hrun
    simpa only [additions, hs, List.flatten_cons, List.flatMap_cons] using hstep.trans hrun

/-- A shutdown settles the connections as well. -/
theorem step_settled {f f' : Feed} {s : Step} (h : f.step s = .ok f')
    (hf : f.controller.Settled ∧ Keyed f.subscribed) :
    f'.controller.Settled ∧ Keyed f'.subscribed := by
  by_cases hs : s = .shutdown
  · subst hs
    obtain rfl := Except.ok.inj h
    exact ⟨Controller.shutdown_settled _, hf.2⟩
  · have hgrown := step_grown h hs
    exact ⟨(hgrown.requests hf.1).1, hgrown.keyed hf.2⟩

theorem run_settled {f f' : Feed} {steps : List Step} (h : f.run steps = .ok f')
    (hf : f.controller.Settled ∧ Keyed f.subscribed) :
    f'.controller.Settled ∧ Keyed f'.subscribed := by
  induction steps generalizing f with
  | nil =>
    obtain rfl := Except.ok.inj h
    exact hf
  | cons s rest ih =>
    obtain ⟨g, hs, hrest⟩ := run_cons.mp h
    exact ih hrest (step_settled hs hf)

/-! ## Openings -/

section Open

variable {exchange : Exchange} {configured : Option Endpoint} {options : FeedOptions}
  {pairs : List Pair} {listing : Listing} {f₀ f : Feed} {steps : List Step}

/-- The opening: it adds the confirmed symbols without repetitions, and asks for the confirmed
pairs as they are. -/
theorem open_grown
    (hopen : (open? exchange configured options pairs listing).result = .ok f) :
    ∃ confirmed,
      ((bare exchange configured options).confirm pairs listing).result = .ok confirmed ∧
      Grown (bare exchange configured options)
        ((bare exchange configured options).register confirmed).2
        (if exchange.subscribeByRequest then exchange.asked confirmed else [confirmed]) f := by
  unfold open? at hopen
  dsimp only at hopen
  split at hopen
  · cases hopen
  · rename_i confirmed hconfirmed
    obtain rfl := Except.ok.inj hopen
    refine ⟨confirmed, hconfirmed, ?_⟩
    have hregister := register_grown (bare exchange configured options) confirmed
    have hsame : ((bare exchange configured options).register confirmed).1.exchange = exchange :=
      hregister.exchange
    unfold connectFirst Exchange.asked
    rw [hsame]
    split
    · have hconnect := foldl_connect_grown ((bare exchange configured options).register confirmed).1
        (portions exchange.maxPairsPerConnection confirmed)
      unfold connectAll
      rw [hsame]
      simpa using hregister.trans hconnect
    · simpa using hregister.trans (connect_grown _ confirmed)

theorem bare_settled (exchange : Exchange) (configured : Option Endpoint) (options : FeedOptions) :
    (bare exchange configured options).controller.Settled ∧
      Keyed (bare exchange configured options).subscribed :=
  ⟨Controller.new_settled _ _ _, empty_keyed⟩

/-- The connections of an opened and run feed are settled, and its table has each pair under its
own symbol. -/
theorem open_run_settled
    (hopen : (open? exchange configured options pairs listing).result = .ok f₀)
    (hrun : f₀.run steps = .ok f) : f.controller.Settled ∧ Keyed f.subscribed := by
  obtain ⟨confirmed, -, hgrown⟩ := open_grown hopen
  obtain ⟨hsettled, hkeyed⟩ := bare_settled exchange configured options
  exact run_settled hrun ⟨(hgrown.requests hsettled).1, hgrown.keyed hkeyed⟩

end Open

end Feed

end MarketFeed
