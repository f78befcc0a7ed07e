import MarketFeed.Proofs.Feed.Requests
import Mathlib.Data.List.Flatten

/-!
# Subscriptions at the same time

A subscription waits for the listing between looking up which of its pairs are new and registering
them, and it adds its connections one by one. Meanwhile other subscriptions, messages and the start
of the connections change the feed. Several of them may find the same pair new; only registering
tells which of them adds it.

* `Call`, `Call.next`: a subscription on its way, and its next step. A subscription that nothing
  interferes with ends as `Feed.subscribe` says (`run_alone`).
* `Shared`, `Event`: a feed with the subscriptions on their way, and what happens to it.
* `Tracked`: the invariant. What the subscriptions have added is what came to the table, and each
  pair of it is asked for, or is still to be asked for, once.
* `interleaved_subscriptions`: what each subscription gives, and what all of them ask for.
-/

namespace MarketFeed

namespace Feed

/-! ## Subscriptions on their way -/

/-- A subscription on its way. -/
inductive Call where
  /-- Some pairs are asked for. -/
  | asked (pairs : List Pair)
  /-- Some of them are new, and the listing is awaited. -/
  | waiting (fresh : List Pair)
  /-- The listing has these. -/
  | confirmed (pairs : List Pair)
  /-- Some pairs are added, and some portions of them still need a connection. -/
  | connecting (added : List Pair) (left : List (List Pair))
  | ended (result : Except FeedError (List Pair))

namespace Call

/-- The next step of a subscription; the listing is what the exchange says when it is awaited. -/
def next (f : Feed) (listing : Listing) : Call → Feed × Call
  | .asked pairs =>
    let fresh := f.newPairs pairs
    (f, if fresh.isEmpty then .ended (.ok []) else .waiting fresh)
  | .waiting fresh =>
    match (f.confirm fresh listing).result with
    | .error e => (f, .ended (.error e))
    | .ok pairs => (f, .confirmed pairs)
  | .confirmed pairs =>
    let (f', added) := f.register pairs
    (f', .connecting added (f'.exchange.asked added))
  | .connecting added [] => (f, .ended (.ok added))
  | .connecting added (part :: rest) => (f.connect part, .connecting added rest)
  | .ended result => (f, .ended result)

/-- Has a subscription ended? -/
def hasEnded : Call → Bool
  | .ended _ => true
  | _ => false

/-- The pairs that a subscription gives. -/
def returned : Call → List Pair
  | .ended (.ok added) => added
  | _ => []

/-- The pairs that a subscription has added, whether it has ended or not. -/
def added : Call → List Pair
  | .connecting added _ => added
  | .ended (.ok added) => added
  | _ => []

/-- The pairs that a subscription still has to ask the exchange for. -/
def left : Call → List Pair
  | .connecting _ parts => parts.flatten
  | _ => []

theorem added_of_ended {c : Call} (h : c.hasEnded = true) :
    c.returned = c.added ∧ c.left = [] := by
  cases c with
  | ended result => cases result <;> exact ⟨rfl, rfl⟩
  | asked | waiting | confirmed | connecting => cases h

theorem returned_sublist (c : Call) : c.returned.Sublist c.added := by
  cases c with
  | ended result => cases result <;> exact List.Sublist.refl _
  | asked | waiting | confirmed | connecting => exact List.nil_sublist _

/-- A subscription touches nothing but the table of subscribed pairs and the connections. -/
theorem next_eq (f : Feed) (listing : Listing) (c : Call) :
    ∃ t k, (c.next f listing).1 = { f with subscribed := t, controller := k } := by
  cases c with
  | asked pairs => exact ⟨f.subscribed, f.controller, rfl⟩
  | waiting fresh =>
    simp only [next]
    split <;> exact ⟨f.subscribed, f.controller, rfl⟩
  | confirmed pairs => exact ⟨putAll f.subscribed pairs, f.controller, by simp [next, register_fst]⟩
  | connecting added parts => cases parts <;> exact ⟨f.subscribed, _, rfl⟩
  | ended result => exact ⟨f.subscribed, f.controller, rfl⟩

/-- The step of a subscription: pairs that it adds are still to be asked for, and pairs that it
asks for are no longer. -/
theorem next_grown {f : Feed} (hrequest : f.exchange.subscribeByRequest = true)
    (listing : Listing) (c : Call) :
    ∃ more parts, Grown f more parts (c.next f listing).1 ∧
      (c.next f listing).2.added = c.added ++ more ∧
      c.left ++ more = parts.flatten ++ (c.next f listing).2.left := by
  cases c with
  | asked pairs =>
    refine ⟨[], [], .refl f, ?_⟩
    simp only [next]
    split <;> exact ⟨rfl, rfl⟩
  | waiting fresh =>
    refine ⟨[], [], ?_⟩
    simp only [next]
    split <;> exact ⟨.refl f, rfl, rfl⟩
  | confirmed pairs =>
    have hregister := register_grown f pairs
    refine ⟨_, [], hregister, rfl, ?_⟩
    simp only [next, left, List.flatten_nil, List.nil_append]
    rw [Exchange.asked_eq_portions (hregister.exchange ▸ hrequest), portions_flatten]
  | connecting added parts =>
    cases parts with
    | nil => exact ⟨[], [], .refl f, by simp [next, Call.added], rfl⟩
    | cons part rest => exact ⟨[], [part], connect_grown f part, by simp [next, Call.added],
        by simp [next, left]⟩
  | ended result => exact ⟨[], [], .refl f, by simp [next], rfl⟩

end Call

/-! ## Interleavings -/

/-- A feed and the subscriptions on their way. -/
structure Shared where
  feed : Feed
  calls : List Call

/-- What happens to a feed with subscriptions on their way. -/
inductive Event where
  /-- One of the subscriptions takes its next step. -/
  | call (index : Nat) (listing : Listing)
  /-- A message of the exchange arrives. -/
  | frame (clock : Clock) (octets : List UInt8)
  | start

namespace Shared

/-- A feed with subscriptions at their beginning. -/
def asking (f : Feed) (requests : List (List Pair)) : Shared := ⟨f, requests.map .asked⟩

/-- After an event. Handling a message may fault; the feed goes on with what was done before. -/
def step (s : Shared) : Event → Shared
  | .call index listing =>
    match s.calls[index]? with
    | some c => ⟨(c.next s.feed listing).1, s.calls.set index (c.next s.feed listing).2⟩
    | none => s
  | .frame clock octets => { s with feed := (s.feed.handleFrame clock octets).1 }
  | .start => { s with feed := s.feed.start.1 }

/-- After some events, one after the other. -/
def run (s : Shared) (events : List Event) : Shared := events.foldl step s

theorem run_append (s : Shared) (before after : List Event) :
    s.run (before ++ after) = (s.run before).run after := List.foldl_append

/-! ### A subscription alone -/

theorem run_replicate_succ (s : Shared) (e : Event) (n : Nat) :
    s.run (List.replicate (n + 1) e) = (s.step e).run (List.replicate n e) := rfl

theorem run_connecting (f : Feed) (listing : Listing) (added : List Pair)
    (parts : List (List Pair)) :
    run ⟨f, [.connecting added parts]⟩ (List.replicate (parts.length + 1) (.call 0 listing)) =
      ⟨parts.foldl connect f, [.ended (.ok added)]⟩ := by
  induction parts generalizing f with
  | nil => rfl
  | cons part rest ih => exact ih (f.connect part)

/-- A subscription alone, taking all its steps at the same listing, is `Feed.subscribe`. -/
theorem run_alone (f : Feed) (pairs : List Pair) (listing : Listing) :
    ∃ n, (asking f [pairs]).run (List.replicate n (.call 0 listing)) =
      ⟨(f.subscribe pairs listing).1, [.ended (f.subscribe pairs listing).2.result]⟩ := by
  have hasked : (asking f [pairs]).step (.call 0 listing) = ⟨f,
      [if (f.newPairs pairs).isEmpty then .ended (.ok []) else .waiting (f.newPairs pairs)]⟩ := rfl
  unfold subscribe
  dsimp only
  by_cases hfresh : (f.newPairs pairs).isEmpty = true
  · refine ⟨1, ?_⟩
    rw [run_replicate_succ, hasked, if_pos hfresh, if_pos hfresh]
    rfl
  · rw [if_neg hfresh] at hasked
    rw [if_neg hfresh]
    cases hconfirm : (f.confirm (f.newPairs pairs) listing).result with
    | error e =>
      refine ⟨2, ?_⟩
      rw [run_replicate_succ, hasked, run_replicate_succ]
      simp only [step, List.getElem?_cons_zero, Call.next, hconfirm]
      rfl
    | ok confirmed =>
      refine ⟨((f.register confirmed).1.exchange.asked (f.register confirmed).2).length + 1 + 3, ?_⟩
      rw [run_replicate_succ, hasked, run_replicate_succ, run_replicate_succ]
      simp only [step, List.getElem?_cons_zero, Call.next, hconfirm, List.set_cons_zero]
      rw [run_connecting, foldl_connect_asked]
      rfl

/-! ### The invariant -/

/-- What subscriptions and other events have made of a feed: some pairs were added, by one
subscription each, and each of them is in one of the portions that were asked for or is still to be
asked for. -/
structure Tracked (f : Feed) (added : List Pair) (parts : List (List Pair)) (s : Shared) :
    Prop where
  grown : Grown f added parts s.feed
  callers : added.Perm (s.calls.flatMap Call.added)
  covered : added.Perm (parts.flatten ++ s.calls.flatMap Call.left)

theorem asking_tracked (f : Feed) (requests : List (List Pair)) :
    Tracked f [] [] (asking f requests) where
  grown := .refl f
  callers := by simp [asking, List.flatMap_map, Call.added]
  covered := by simp [asking, List.flatMap_map, Call.left]

/-- One subscription changes, and only its own pairs with it. -/
theorem count_flatMap_set (g : Call → List Pair) {calls : List Call} {index : Nat} {c : Call}
    (h : calls[index]? = some c) (c' : Call) (p : Pair) :
    ((calls.set index c').flatMap g).count p + (g c).count p =
      (calls.flatMap g).count p + (g c').count p := by
  induction calls generalizing index with
  | nil => cases h
  | cons first rest ih =>
    cases index with
    | zero =>
      obtain rfl := Option.some.inj h
      simp only [List.set_cons_zero, List.flatMap_cons, List.count_append]
      omega
    | succ index =>
      have hrest := ih h
      simp only [List.set_cons_succ, List.flatMap_cons, List.count_append]
      omega

/-- Nothing but the feed changes, and that adds no pair and no connection. -/
theorem Tracked.of_feed {f : Feed} {added : List Pair} {parts : List (List Pair)} {s : Shared}
    (h : Tracked f added parts s) {f' : Feed} (hgrown : Grown s.feed [] [] f') :
    Tracked f added parts { s with feed := f' } where
  grown := by simpa using h.grown.trans hgrown
  callers := h.callers
  covered := h.covered

/-- The step: an event may add pairs and connections. -/
theorem Tracked.step {f : Feed} {added : List Pair} {parts : List (List Pair)} {s : Shared}
    (h : Tracked f added parts s) (hrequest : f.exchange.subscribeByRequest = true) (e : Event) :
    ∃ more others, Tracked f (added ++ more) (parts ++ others) (s.step e) := by
  have hnothing : ∀ {f' : Feed}, Grown s.feed [] [] f' →
      ∃ more others, Tracked f (added ++ more) (parts ++ others) { s with feed := f' } := by
    intro f' hgrown
    exact ⟨[], [], by simpa using h.of_feed hgrown⟩
  cases e with
  | frame clock octets => exact hnothing (handleFrame_grown s.feed clock octets)
  | start => exact hnothing (start_grown s.feed)
  | call index listing =>
    simp only [Shared.step]
    split
    · rename_i c hc
      obtain ⟨more, others, hgrown, hadded, hleft⟩ :=
        Call.next_grown (h.grown.exchange.symm ▸ hrequest) listing c
      refine ⟨more, others, h.grown.trans hgrown, ?_, ?_⟩
      · refine List.perm_iff_count.mpr fun p => ?_
        have hold := List.perm_iff_count.mp h.callers p
        have hset := count_flatMap_set Call.added hc (c.next s.feed listing).2 p
        rw [hadded, List.count_append] at hset
        rw [List.count_append]
        dsimp only
        omega
      · refine List.perm_iff_count.mpr fun p => ?_
        have hold := List.perm_iff_count.mp h.covered p
        have hset := count_flatMap_set Call.left hc (c.next s.feed listing).2 p
        have hown := congrArg (List.count p) hleft
        simp only [List.flatten_append, List.count_append] at hold hown ⊢
        omega
    · exact hnothing (.refl s.feed)

/-- The run: whatever happens, in whatever order, the invariant is kept and what was added stays. -/
theorem Tracked.run {f : Feed} {added : List Pair} {parts : List (List Pair)} {s : Shared}
    (h : Tracked f added parts s) (hrequest : f.exchange.subscribeByRequest = true)
    (events : List Event) :
    ∃ more others, Tracked f (added ++ more) (parts ++ others) (s.run events) := by
  induction events generalizing added parts s with
  | nil => exact ⟨[], [], by simpa [Shared.run] using h⟩
  | cons e rest ih =>
    obtain ⟨more, others, hstep⟩ := h.step hrequest e
    obtain ⟨more', others', hrun⟩ := ih hstep
    exact ⟨more ++ more', others ++ others',
      by simpa only [Shared.run, List.foldl_cons, List.append_assoc] using hrun⟩

/-! ### What subscriptions give and ask for -/

section Tracked

variable {f : Feed} {added : List Pair} {parts : List (List Pair)} {s : Shared}

theorem returned_sublist (s : Shared) :
    (s.calls.flatMap Call.returned).Sublist (s.calls.flatMap Call.added) :=
  List.Sublist.flatMap_right _ fun c _ => c.returned_sublist

/-- No symbol is given by two subscriptions, or twice by one. -/
theorem Tracked.returned_nodup (h : Tracked f added parts s) (hf : Keyed f.subscribed) :
    ((s.calls.flatMap Call.returned).map Pair.symbol).Nodup := by
  have hadded := (h.grown.added_nodup hf).1
  rw [(h.callers.map Pair.symbol).nodup_iff] at hadded
  exact hadded.sublist ((returned_sublist s).map Pair.symbol)

/-- No symbol that was subscribed before is given. -/
theorem Tracked.returned_new (h : Tracked f added parts s) (hf : Keyed f.subscribed) {c : Call}
    (hc : c ∈ s.calls) {p : Pair} (hp : p ∈ c.returned) : f.isSubscribed p.symbol = false := by
  refine (h.grown.added_nodup hf).2 p (h.callers.mem_iff.mpr ?_)
  exact List.mem_flatMap.mpr ⟨c, hc, c.returned_sublist.subset hp⟩

/-- Once all subscriptions have ended, nothing is left to be asked for. -/
theorem Tracked.of_ended (h : Tracked f added parts s)
    (hended : ∀ c ∈ s.calls, c.hasEnded = true) :
    parts.flatten.Perm added ∧ added.Perm (s.calls.flatMap Call.returned) := by
  have hleft : s.calls.flatMap Call.left = [] :=
    List.flatMap_eq_nil_iff.mpr fun c hc => (Call.added_of_ended (hended c hc)).2
  have hreturned : s.calls.flatMap Call.returned = s.calls.flatMap Call.added :=
    List.flatMap_congr fun c hc => (Call.added_of_ended (hended c hc)).1
  refine ⟨?_, hreturned ▸ h.callers⟩
  simpa [hleft] using h.covered.symm

/-- The symbols that were added are those subscribed now and not before. -/
theorem Tracked.mem_added (h : Tracked f added parts s) (hf : Keyed f.subscribed)
    (symbol : String) : symbol ∈ added.map Pair.symbol ↔
      s.feed.isSubscribed symbol = true ∧ f.isSubscribed symbol = false := by
  obtain ⟨-, hnew⟩ := h.grown.added_nodup hf
  unfold isSubscribed at hnew ⊢
  rw [Table.has_iff_mem_keys, h.grown.keys, List.mem_append, ← Table.has_iff_mem_keys]
  constructor
  · intro hadded
    obtain ⟨p, hp, rfl⟩ := List.mem_map.mp hadded
    exact ⟨.inr hadded, hnew p hp⟩
  · rintro ⟨hold | hadded, hf⟩
    · rw [hf] at hold
      cases hold
    · exact hadded

end Tracked

section Open

variable {exchange : Exchange} {configured : Option Endpoint} {options : FeedOptions}
  {pairs : List Pair} {listing : Listing} {f₀ f : Feed} {steps : List Step}

/-- **Interleaved subscriptions.** Let an exchange be asked for pairs, let a feed be opened and run
without a fault, and then let any subscriptions take their steps in any order, among messages and
the start of the connections. No symbol is given by two of them or twice by one, and none that was
subscribed before; symbols stay subscribed. Once all have ended, the new connections together ask
for the pairs that were given, and so for each newly subscribed symbol once. -/
theorem interleaved_subscriptions
    (hopen : (open? exchange configured options pairs listing).result = .ok f₀)
    (hrequest : exchange.subscribeByRequest = true) (hrun : f₀.run steps = .ok f)
    (requests : List (List Pair)) (events : List Event) :
    ∃ s, s = (asking f requests).run events ∧
      ((s.calls.flatMap Call.returned).map Pair.symbol).Nodup ∧
      (∀ c ∈ s.calls, ∀ p ∈ c.returned, f.isSubscribed p.symbol = false) ∧
      (∀ before after, events = before ++ after →
        ((asking f requests).run before).feed.subscribed.keys <+: s.feed.subscribed.keys) ∧
      ((∀ c ∈ s.calls, c.hasEnded = true) → ∃ parts : List (List Pair),
        s.feed.requests = f.requests ++ parts.map exchange.subscriptionFrames ∧
        parts.flatten.Perm (s.calls.flatMap Call.returned) ∧
        ∀ symbol, (parts.flatten.map Pair.symbol).count symbol =
          if s.feed.isSubscribed symbol = true ∧ f.isSubscribed symbol = false then 1 else 0) := by
  obtain ⟨hsettled, hkeyed⟩ := open_run_settled hopen hrun
  have hexchange : f.exchange = exchange :=
    (run_ingested hrun).exchange.trans (open_exchange hopen)
  have hask : f.exchange.subscribeByRequest = true := hexchange ▸ hrequest
  have hstart := asking_tracked f requests
  obtain ⟨added, parts, hall⟩ := hstart.run hask events
  rw [List.nil_append, List.nil_append] at hall
  refine ⟨_, rfl, hall.returned_nodup hkeyed, fun c hc p hp => hall.returned_new hkeyed hc hp,
    fun before after hevents => ?_, fun hended => ?_⟩
  · subst hevents
    obtain ⟨early, first, hbefore⟩ := hstart.run hask before
    obtain ⟨late, rest, hafter⟩ := hbefore.run hask after
    simp only [List.nil_append] at hbefore hafter
    rw [run_append, hafter.grown.keys, hbefore.grown.keys, List.map_append, ← List.append_assoc]
    exact List.prefix_append _ _
  · obtain ⟨hparts, hreturned⟩ := hall.of_ended hended
    refine ⟨parts, ?_, hparts.trans hreturned, fun symbol => ?_⟩
    · rw [(hall.grown.requests hsettled).2, hexchange]
    · rw [(hparts.map Pair.symbol).count_eq, (hall.grown.added_nodup hkeyed).1.count]
      exact if_congr (hall.mem_added hkeyed symbol) rfl rfl

end Open

/-- Two subscriptions of one pair: both find it new, and the second one is first to register it. -/
def overtaking : List Event := [.call 0 twoPairsListing, .call 1 twoPairsListing,
  .call 0 twoPairsListing, .call 1 twoPairsListing, .start, .call 1 twoPairsListing,
  .frame (5 : Int64) (coinbaseTicker "OSMO-USDT" "7" "0"), .call 0 twoPairsListing,
  .call 0 twoPairsListing, .call 1 twoPairsListing, .call 1 twoPairsListing]

/-- Only the second one gives the pair, and it is asked for once. -/
theorem interleaved_subscriptions_overtaking :
    ∃ f s,
      (open? .coinbase none .default [.of "atom" "usdt"] twoPairsListing).result = .ok f ∧
      s = (asking f [[.of "osmo" "usdt"], [.of "osmo" "usdt"]]).run overtaking ∧
      s.calls.map Call.returned = [[], [.of "osmo" "usdt"]] ∧
      ∃ parts : List (List Pair),
        s.feed.requests = f.requests ++ parts.map Exchange.coinbase.subscriptionFrames ∧
        (parts.flatten.map Pair.symbol).count "OSMOUSDT" = 1 := by
  have hall : ((open? .coinbase none .default [.of "atom" "usdt"]
      twoPairsListing).result.toOption.map fun f =>
        let s := (asking f [[.of "osmo" "usdt"], [.of "osmo" "usdt"]]).run overtaking
        (s.calls.all Call.hasEnded, s.calls.map Call.returned)) =
      some (true, [[], [.of "osmo" "usdt"]]) := by
    simp only [overtaking, twoPairsListing, coinbaseListing, coinbaseTicker, Json.ascii_render]
    decide +kernel
  obtain ⟨f, hopen, hcalls⟩ := Option.map_eq_some_iff.mp hall
  obtain ⟨hended, hreturned⟩ := Prod.mk.inj hcalls
  rw [toOption_eq_some] at hopen
  have hrun : f.run [] = .ok f := rfl
  obtain ⟨s, hs, -, -, -, hasked⟩ := interleaved_subscriptions hopen rfl hrun
    [[.of "osmo" "usdt"], [.of "osmo" "usdt"]] overtaking
  rw [← hs] at hended hreturned
  obtain ⟨parts, hrequests, hparts, -⟩ := hasked (List.all_eq_true.mp hended)
  refine ⟨f, s, hopen, hs, hreturned, parts, hrequests, ?_⟩
  rw [(hparts.map Pair.symbol).count_eq, List.flatMap_def, hreturned]
  decide

end Shared

end Feed

end MarketFeed
