import MarketFeed.Proofs.Feed.Added
import MarketFeed.Proofs.Feed.Concurrent

/-!
# Subscriptions that come to nothing

A subscription asks for the listing only if one of its pairs is new, and it changes the feed only
once it has a listing that it can read. So one whose listing is refused, and one that is dropped
while it waits for the listing, are as if they had never been asked for, whatever happens to the
feed meanwhile.

* `Refused`: a listing is of no use, and why.
* `subscribe_of_subscribed`, `fetched_of_new`, `subscribe_of_refused`: when a subscription asks for
  the listing, and that it fails and changes nothing without one.
* `open_eq_error_iff`: when an opening fails.
* `AgreeBut`: two shared feeds agree but for one subscription on its way.
* `run_agreeBut`: a subscription that never gets a listing of use leaves no trace of its steps.
* `refused_subscription_traceless`: all of this together.
-/

namespace MarketFeed

/-- A listing is of no use to an exchange for a reason: it did not come, or it cannot be read. -/
inductive Refused (exchange : Exchange) : Listing → String → Prop where
  | unfetched (e : FeedError) : Refused exchange (.error e) e.message
  | unreadable {body : List UInt8} {e : Json.Failure} (h : exchange.readListing body = .error e) :
    Refused exchange (.ok body) (e.message body)

theorem listedSymbols_eq_error_iff {exchange : Exchange} {listing : Listing} {e : FeedError} :
    listedSymbols exchange listing = .error e ↔
      ∃ reason, Refused exchange listing reason ∧
        e = .availablePairs exchange.provider reason := by
  constructor
  · intro h
    unfold listedSymbols at h
    dsimp only at h
    split at h
    · exact ⟨_, .unfetched _, (Except.error.inj h).symm⟩
    · split at h
      · rename_i body _ failure hread
        exact ⟨_, .unreadable hread, (Except.error.inj h).symm⟩
      · cases h
  · rintro ⟨reason, hrefused, rfl⟩
    cases hrefused with
    | unfetched e => rfl
    | unreadable hread => simp only [listedSymbols, hread]

namespace Feed

/-! ## One after the other -/

section Alone

variable (f : Feed) (pairs : List Pair) (listing : Listing)

theorem fetched_confirm :
    (f.confirm pairs listing).fetched = if pairs.isEmpty then [] else [f.listingUrl] := by
  unfold confirm
  split
  · rfl
  · split <;> rfl

variable {f pairs listing}

/-- A confirmation fails if and only if it needs a listing and that is refused. -/
theorem confirm_eq_error_iff {e : FeedError} :
    (f.confirm pairs listing).result = .error e ↔ pairs ≠ [] ∧
      ∃ reason, Refused f.exchange listing reason ∧ e = .availablePairs f.provider reason := by
  rw [Feed.provider, ← listedSymbols_eq_error_iff, confirm]
  cases pairs with
  | nil => simp
  | cons p rest =>
    cases listedSymbols f.exchange listing <;> simp

/-- It has then asked for the listing and logged nothing. -/
theorem confirm_of_refused {reason : String} (hpairs : pairs ≠ [])
    (h : Refused f.exchange listing reason) :
    f.confirm pairs listing =
      ⟨.error (.availablePairs f.provider reason), [f.listingUrl], []⟩ := by
  have hlisted : listedSymbols f.exchange listing = .error (.availablePairs f.provider reason) :=
    listedSymbols_eq_error_iff.mpr ⟨reason, h, rfl⟩
  rw [confirm, if_neg (by simpa using hpairs), hlisted]

/-- Without new pairs nothing is asked for, given or changed. -/
theorem subscribe_of_subscribed (h : ∀ p ∈ pairs, f.isSubscribed p.symbol = true) :
    f.subscribe pairs listing = (f, ⟨.ok [], [], []⟩) := by
  have hnone : f.newPairs pairs = [] := by
    by_contra hne
    obtain ⟨p, hp, hnew⟩ := newPairs_ne_nil_iff.mp hne
    rw [h p hp] at hnew
    cases hnew
  rw [subscribe, hnone]
  rfl

/-- With a new pair the listing is asked for, once. -/
theorem fetched_of_new (h : ∃ p ∈ pairs, f.isSubscribed p.symbol = false) :
    (f.subscribe pairs listing).2.fetched = [f.listingUrl] := by
  have hfresh : (f.newPairs pairs).isEmpty = false :=
    List.isEmpty_eq_false_iff.mpr (newPairs_ne_nil_iff.mpr h)
  have hfetched := fetched_confirm f (f.newPairs pairs) listing
  rw [hfresh] at hfetched
  unfold subscribe
  dsimp only
  rw [hfresh]
  split
  · contradiction
  · split <;> exact hfetched

/-- With a new pair and a listing that is refused, a subscription fails and changes nothing. -/
theorem subscribe_of_refused {reason : String} (hnew : ∃ p ∈ pairs, f.isSubscribed p.symbol = false)
    (h : Refused f.exchange listing reason) :
    f.subscribe pairs listing =
      (f, ⟨.error (.availablePairs f.provider reason), [f.listingUrl], []⟩) := by
  have hfresh := newPairs_ne_nil_iff.mpr hnew
  rw [subscribe, if_neg (by simpa using hfresh)]
  dsimp only
  rw [confirm_of_refused hfresh h]

end Alone

section Open

variable {exchange : Exchange} {configured : Option Endpoint} {options : FeedOptions}
  {pairs : List Pair} {listing : Listing}

/-- An opening fails if and only if it has pairs and its listing is refused. -/
theorem open_eq_error_iff {e : FeedError} :
    (open? exchange configured options pairs listing).result = .error e ↔ pairs ≠ [] ∧
      ∃ reason, Refused exchange listing reason ∧
        e = .availablePairs exchange.provider reason := by
  have hconfirm : ((bare exchange configured options).confirm pairs listing).result = .error e ↔
      pairs ≠ [] ∧ ∃ reason, Refused exchange listing reason ∧
        e = .availablePairs exchange.provider reason := confirm_eq_error_iff
  rw [← hconfirm, open?]
  dsimp only
  cases ((bare exchange configured options).confirm pairs listing).result <;> simp

end Open

/-! ## Among other events -/

/-- The listing with which a subscription takes a step, if an event is one. -/
def Event.listingOf? (index : Nat) : Event → Option Listing
  | .call i listing => if i = index then some listing else none
  | .frame .. => none
  | .start => none

namespace Event

variable {index : Nat} {e : Event}

theorem ne_of_listingOf? {i : Nat} {listing : Listing}
    (h : (call i listing).listingOf? index = none) : i ≠ index := by
  rintro rfl
  simp [listingOf?] at h

theorem eq_call_of_listingOf? {listing : Listing} (h : e.listingOf? index = some listing) :
    e = .call index listing := by
  cases e with
  | call i other =>
    simp only [listingOf?, Option.ite_none_right_eq_some, Option.some.injEq] at h
    rw [h.1, h.2]
  | frame | start => cases h

end Event

namespace Call

/-- A subscription comes to nothing with some listings for its next steps: it needs none of them, or
they are refused. The first step of a subscription is taken before it has a listing. -/
def ComesToNothing (exchange : Exchange) (listings : List Listing) : Call → Prop
  | .asked _ => ∀ listing ∈ listings.tail, ∃ reason, Refused exchange listing reason
  | .waiting fresh => fresh ≠ [] ∧ ∀ listing ∈ listings, ∃ reason, Refused exchange listing reason
  | .ended result =>
    result = .ok [] ∨ ∃ reason, result = .error (.availablePairs exchange.provider reason)
  | .confirmed _ => False
  | .connecting .. => False

/-- The step: the feed is not changed, and the subscription still comes to nothing. -/
theorem ComesToNothing.next {f : Feed} {listing : Listing} {rest : List Listing} {c : Call}
    (h : c.ComesToNothing f.exchange (listing :: rest)) :
    (c.next f listing).1 = f ∧ (c.next f listing).2.ComesToNothing f.exchange rest := by
  cases c with
  | asked pairs =>
    refine ⟨rfl, ?_⟩
    simp only [Call.next]
    split
    · exact .inl rfl
    · rename_i hfresh
      exact ⟨by simpa using hfresh, h⟩
  | waiting fresh =>
    obtain ⟨hfresh, hrefused⟩ := h
    obtain ⟨reason, hreason⟩ := hrefused listing List.mem_cons_self
    dsimp only [Call.next]
    rw [confirm_of_refused hfresh hreason]
    exact ⟨rfl, .inr ⟨reason, rfl⟩⟩
  | confirmed pairs => exact h.elim
  | connecting added left => exact h.elim
  | ended result => exact ⟨rfl, h⟩

end Call

namespace Shared

theorem step_exchange (s : Shared) (e : Event) : (s.step e).feed.exchange = s.feed.exchange := by
  cases e with
  | call index listing =>
    simp only [step]
    split
    · rename_i c _
      obtain ⟨t, k, hnext⟩ := c.next_eq s.feed listing
      rw [hnext]
    · rfl
  | frame clock octets => exact (handleFrame_grown s.feed clock octets).exchange
  | start => rfl

/-- A subscription is where it was unless it takes a step of its own. -/
theorem step_calls_of_other (s : Shared) {index : Nat} {e : Event}
    (he : e.listingOf? index = none) : (s.step e).calls[index]? = s.calls[index]? := by
  cases e with
  | call i listing =>
    simp only [step]
    split
    · exact List.getElem?_set_ne (Event.ne_of_listingOf? he)
    · rfl
  | frame | start => rfl

/-- Two shared feeds agree but for one of the subscriptions on their way. -/
structure AgreeBut (index : Nat) (s t : Shared) : Prop where
  feed : s.feed = t.feed
  calls : ∀ j, j ≠ index → s.calls[j]? = t.calls[j]?

section AgreeBut

variable {index : Nat} {s t : Shared}

theorem AgreeBut.refl (index : Nat) (s : Shared) : AgreeBut index s s := ⟨rfl, fun _ _ => rfl⟩

/-- The same event, but for a step of that subscription, does the same on both sides. -/
theorem AgreeBut.step (h : AgreeBut index s t) {e : Event} (he : e.listingOf? index = none) :
    AgreeBut index (s.step e) (t.step e) := by
  cases e with
  | call i listing =>
    have hcall := h.calls i (Event.ne_of_listingOf? he)
    simp only [Shared.step]
    rw [← hcall]
    cases s.calls[i]? with
    | none => exact h
    | some c =>
      dsimp only
      rw [h.feed]
      refine ⟨rfl, fun j hj => ?_⟩
      by_cases hij : i = j
      · rw [← hij, List.getElem?_set_self', List.getElem?_set_self', hcall]
      · rw [List.getElem?_set_ne hij, List.getElem?_set_ne hij]
        exact h.calls j hj
  | frame clock octets => exact ⟨by simp only [Shared.step, h.feed], h.calls⟩
  | start => exact ⟨by simp only [Shared.step, h.feed], h.calls⟩

/-- A step of that subscription is not noticed if it comes to nothing. -/
theorem AgreeBut.step_own (h : AgreeBut index s t) {c : Call} (hc : s.calls[index]? = some c)
    {listing : Listing} {rest : List Listing}
    (hnothing : c.ComesToNothing s.feed.exchange (listing :: rest)) :
    AgreeBut index (s.step (.call index listing)) t ∧
      ∃ c', (s.step (.call index listing)).calls[index]? = some c' ∧
        c'.ComesToNothing s.feed.exchange rest := by
  obtain ⟨hfeed, hnext⟩ := hnothing.next
  simp only [Shared.step, hc]
  refine ⟨⟨hfeed.trans h.feed, fun j hj => ?_⟩, _, ?_, hnext⟩
  · rw [List.getElem?_set_ne hj.symm]
    exact h.calls j hj
  · rw [List.getElem?_set_self', hc]
    rfl

/-- The run: a subscription that comes to nothing leaves no trace. Nothing else would be different
without its steps. -/
theorem run_agreeBut (h : AgreeBut index s t) {c : Call} (hc : s.calls[index]? = some c)
    {events : List Event}
    (hnothing : c.ComesToNothing s.feed.exchange (events.filterMap (Event.listingOf? index))) :
    AgreeBut index (s.run events)
        (t.run (events.filter fun e => (e.listingOf? index).isNone)) ∧
      ∃ c', (s.run events).calls[index]? = some c' ∧ c'.ComesToNothing s.feed.exchange [] := by
  -- Steps of that subscription are taken on the left side only, all other events on both.
  induction events generalizing s t c with
  | nil => exact ⟨h, c, hc, hnothing⟩
  | cons e rest ih =>
    cases he : e.listingOf? index with
    | none =>
      rw [List.filterMap_cons_none he] at hnothing
      rw [List.filter_cons_of_pos (by rw [he]; rfl)]
      have hsame := (s.step_calls_of_other he).trans hc
      have hrest := ih (h.step he) hsame (by rw [step_exchange]; exact hnothing)
      rw [step_exchange] at hrest
      exact hrest
    | some listing =>
      rw [List.filterMap_cons_some he] at hnothing
      rw [List.filter_cons_of_neg (by rw [he]; exact Bool.false_ne_true)]
      obtain rfl := Event.eq_call_of_listingOf? he
      obtain ⟨hagree, c', hc', hstill⟩ := h.step_own hc hnothing
      have hrest := ih hagree hc' (by rw [step_exchange]; exact hstill)
      rw [step_exchange] at hrest
      exact hrest

end AgreeBut

/-! ## Subscriptions and openings without a listing -/

/-- **Refused listings.** A subscription asks for the listing once if one of its pairs is new, and
otherwise it asks for nothing and gives and changes nothing. If it needs a listing that is refused,
it fails and has changed nothing. The same holds among other events: if a subscription is dropped
before its second step, while it waits for the listing, or if all listings that it gets are
refused, then the feed and the other subscriptions are as they would be without it, and it ends
with nothing, if at all. An opening fails if and only if it has pairs and its listing is refused. -/
theorem refused_subscription_traceless (f : Feed) (pairs : List Pair) (listing : Listing) :
    ((∃ p ∈ pairs, f.isSubscribed p.symbol = false) →
      (f.subscribe pairs listing).2.fetched = [f.listingUrl]) ∧
    ((∀ p ∈ pairs, f.isSubscribed p.symbol = true) →
      f.subscribe pairs listing = (f, ⟨.ok [], [], []⟩)) ∧
    (∀ reason, Refused f.exchange listing reason →
      (∃ p ∈ pairs, f.isSubscribed p.symbol = false) →
        f.subscribe pairs listing =
          (f, ⟨.error (.availablePairs f.provider reason), [f.listingUrl], []⟩)) ∧
    (∀ (calls : List Call) (index : Nat) (events : List Event),
      calls[index]? = some (.asked pairs) →
      (events.filterMap (Event.listingOf? index)).length ≤ 1 ∨
        (∀ l ∈ events.filterMap (Event.listingOf? index), ∃ reason, Refused f.exchange l reason) →
      AgreeBut index (run ⟨f, calls⟩ events)
          (run ⟨f, calls⟩ (events.filter fun e => (e.listingOf? index).isNone)) ∧
        ∀ result, (run ⟨f, calls⟩ events).calls[index]? = some (.ended result) →
          result = .ok [] ∨ ∃ reason, result = .error (.availablePairs f.provider reason)) ∧
    ∀ exchange configured options e,
      (open? exchange configured options pairs listing).result = .error e ↔ pairs ≠ [] ∧
        ∃ reason, Refused exchange listing reason ∧
          e = .availablePairs exchange.provider reason := by
  refine ⟨fetched_of_new, subscribe_of_subscribed, fun _ h hnew => subscribe_of_refused hnew h,
    fun calls index events hc hown => ?_, fun _ _ _ _ => open_eq_error_iff⟩
  have hnothing : (Call.asked pairs).ComesToNothing f.exchange
      (events.filterMap (Event.listingOf? index)) := by
    intro l hl
    rcases hown with hdropped | hrefused
    · have hnone := List.length_tail (l := events.filterMap (Event.listingOf? index))
      have hpos := List.length_pos_of_mem hl
      omega
    · exact hrefused l (List.mem_of_mem_tail hl)
  obtain ⟨hagree, c', hc', hended⟩ :=
    run_agreeBut (s := ⟨f, calls⟩) (AgreeBut.refl index ⟨f, calls⟩) hc hnothing
  refine ⟨hagree, fun result hresult => ?_⟩
  obtain rfl := Option.some.inj (hc'.symm.trans hresult)
  exact hended

/-- Two subscriptions of one pair: the first one is dropped while it waits for the listing. -/
def dropped : List Event := [.call 0 twoPairsListing, .call 1 twoPairsListing, .start,
  .call 1 twoPairsListing, .call 1 twoPairsListing, .call 1 twoPairsListing]

/-- The feed becomes what the second one makes of it. Alone, the first one would have failed without
a URL to ask, and so would an opening with its pair. -/
theorem refused_subscription_traceless_dropped :
    ∃ f calls e, f = bare .coinbase none .default ∧
      calls = [.asked [.of "osmo" "usdt"], .asked [.of "osmo" "usdt"]] ∧
      (run ⟨f, calls⟩ dropped).feed = (run ⟨f, calls⟩ dropped.tail).feed ∧
      (run ⟨f, calls⟩ dropped).feed.subscribed.keys = ["OSMOUSDT"] ∧
      f.subscribe [.of "osmo" "usdt"] .withoutUrl = (f, ⟨.error e, [f.listingUrl], []⟩) ∧
      (open? .coinbase none .default [.of "osmo" "usdt"] .withoutUrl).result = .error e := by
  obtain ⟨-, -, halone, hamong, hopening⟩ := refused_subscription_traceless
    (bare .coinbase none .default) [.of "osmo" "usdt"] .withoutUrl
  obtain ⟨hagree, -⟩ := hamong [.asked [.of "osmo" "usdt"], .asked [.of "osmo" "usdt"]] 0 dropped
    rfl (.inl (by decide))
  have hrefused : Refused .coinbase .withoutUrl _ := .unfetched _
  have hkeys : (run ⟨bare .coinbase none .default,
      [.asked [.of "osmo" "usdt"], .asked [.of "osmo" "usdt"]]⟩ dropped).feed.subscribed.keys =
        ["OSMOUSDT"] := by
    simp only [dropped, twoPairsListing, coinbaseListing, Json.ascii_render]
    decide +kernel
  exact ⟨_, _, _, rfl, rfl, hagree.feed, hkeys,
    halone _ hrefused ⟨_, List.mem_cons_self, rfl⟩,
    (hopening .coinbase none .default _).mpr ⟨by simp, _, hrefused, rfl⟩⟩

end Shared

end Feed

end MarketFeed
