import MarketFeed.Proofs.Exchange.Drafts
import MarketFeed.Proofs.Feed.Ingestion

/-!
# Which messages are handled

Decoding a message never faults, whatever its octets are, and a field that cannot be read drops its
own update and no other. Handling it ends without a result in one case: 64 bits cannot count its
updates. From the opening of a feed on this takes as many updates of one kind as 64 bits count.

* `applyAll_eq_ok_iff`: updates are all taken if and only if the counters have room for them.
* `hasRoom_iff_of_run`: when the counters of a feed that has been run have room.
* `handleFrame_eq_ok_iff`: which messages are handled, and what they bring.
-/

namespace MarketFeed.Feed

/-! ## Updates -/

/-- Do counters have room for some updates? -/
def HasRoom (c : Counters) (taken : List Timed) : Prop :=
  ∀ kind, (c.get kind).toNat + taken.countP (·.1.kind = kind) < UInt64.size

theorem hasRoom_nil (c : Counters) : HasRoom c [] := fun kind => by
  simpa using (c.get kind).toNat_lt

/-- There is room for updates if the counter of the first is not full and, once it is counted,
there is room for the others. -/
theorem hasRoom_cons {c : Counters} {t : Timed} {taken : List Timed} :
    HasRoom c (t :: taken) ↔ c.isFull t.1.kind = false ∧ HasRoom (c.record t.1.kind) taken := by
  cases hfull : c.isFull t.1.kind with
  | true =>
    have hcount : (c.get t.1.kind).toNat + 1 = UInt64.size := by
      simpa [Counters.isFull] using hfull
    refine iff_of_false (fun h => ?_) (by simp)
    have hkind := h t.1.kind
    rw [List.countP_cons_of_pos (by simp)] at hkind
    omega
  | false =>
    rw [eq_self_iff_true, true_and]
    refine forall_congr' fun kind => ?_
    simp only [Counters.get_record hfull, List.countP_cons, decide_eq_true_eq]
    omega

/-- An accepted update whose cutoff fits is refused by a full counter and by nothing else. -/
theorem apply_subscribed_cases {f : Feed} {now : Int64} {u : Update}
    (hs : f.isSubscribed u.symbol = true) (hcutoff : Store.CutoffFits f.store.period now) :
    (f.counters.isFull u.kind = true ∧ ∃ g, f.apply now u = (g, .error .sum, [])) ∨
      (f.counters.isFull u.kind = false ∧ ∃ g, f.apply now u = (g, .ok (), []) ∧
        g.store.period = f.store.period ∧ g.counters = f.counters.record u.kind ∧
        g.subscribed = f.subscribed) := by
  have hrange : (u.write now).InRange f.store.period := by
    cases u with
    | ticker symbol t => trivial
    | trade t => exact hcutoff
    | candle symbol c => exact hcutoff
  obtain ⟨s, hw⟩ := Store.exists_write_iff.mpr hrange
  have hkeep : ({ f with counters := f.counters.record u.kind } : Feed).keep now u =
      .ok { f with counters := f.counters.record u.kind, store := s } :=
    keep_eq_ok.mpr ⟨s, hw, rfl⟩
  unfold apply
  rw [if_pos hs]
  cases f.counters.isFull u.kind with
  | true => exact .inl ⟨rfl, _, rfl⟩
  | false =>
    dsimp only
    rw [hkeep]
    exact .inr ⟨rfl, _, rfl, (Store.write_period hw).1, rfl, rfl⟩

/-- Updates whose cutoffs fit are all taken, unless there is no room to count them. -/
theorem applyAll_eq_ok_iff {f : Feed} {clock : Clock}
    (hcutoff : ∀ n, Store.CutoffFits f.store.period (clock.reading n)) (us : List Update) :
    ((f.applyAll clock us).2.1 = .ok () ↔ HasRoom f.counters (f.acceptedOf clock us)) ∧
      ∀ fault, (f.applyAll clock us).2.1 = .error fault → fault = .sum := by
  induction us generalizing f clock with
  | nil => exact ⟨iff_of_true rfl (hasRoom_nil f.counters), fun fault h => by cases h⟩
  | cons u us ih =>
    rw [acceptedOf_cons]
    unfold applyAll
    cases hs : f.isSubscribed u.symbol with
    | false =>
      obtain ⟨events, happly⟩ : ∃ events, f.apply (clock.reading 0) u = (f, .ok (), events) :=
        ⟨_, by rw [apply, hs, if_neg Bool.false_ne_true]⟩
      rw [happly, if_neg Bool.false_ne_true]
      exact ih fun n => hcutoff (n + 1)
    | true =>
      rw [if_pos rfl, List.singleton_append, hasRoom_cons]
      rcases apply_subscribed_cases hs (hcutoff 0) with
        ⟨hfull, g, happly⟩ | ⟨hroom, g, happly, hperiod, hcounters, hsubscribed⟩
      · rw [happly, hfull]
        exact ⟨iff_of_false (by simp) (by simp), fun fault h => (Except.error.inj h).symm⟩
      · have hlater : ∀ n, Store.CutoffFits g.store.period (clock.later.reading n) := fun n => by
          rw [hperiod]
          exact hcutoff (n + 1)
        have hrest := ih hlater
        rw [acceptedOf_congr hsubscribed, hcounters] at hrest
        rw [happly, hroom, eq_self_iff_true, true_and]
        exact hrest

/-- The counters of a feed that began with none have room as long as all updates of a kind, those of
the run and those of the next message, can be counted. -/
theorem hasRoom_iff_of_run {f₀ f : Feed} {steps : List Step} (hfresh : f₀.counters = {})
    (hrun : f₀.run steps = .ok f) (s : Step) :
    HasRoom f.counters (f.acceptedIn s) ↔
      ∀ kind, (f₀.accepted (steps ++ [s])).countP (·.1.kind = kind) < UInt64.size := by
  have hlast : f.accepted [s] = f.acceptedIn s := by
    unfold accepted
    cases f.step s <;> exact List.append_nil _
  refine forall_congr' fun kind => ?_
  have hzero : (f₀.counters.get kind).toNat = 0 := by
    rw [hfresh]
    cases kind <;> rfl
  rw [(run_ingested hrun).counters kind, hzero, Nat.zero_add, accepted_append hrun, hlast,
    List.countP_append]

/-! ## Messages -/

/-- Handling a message is decoding it and then taking its updates. -/
theorem handleFrame_result (f : Feed) (clock : Clock) (octets : List UInt8) :
    (f.handleFrame clock octets).2.1 =
      ((f.exchange.decode octets).outcome >>= fun us => (f.applyAll clock us).2.1) := by
  unfold handleFrame Decoded.outcome
  dsimp only
  cases (f.exchange.decode octets).result with
  | ok frame => cases frame <;> rfl
  | error e => cases e <;> rfl

theorem updatesIn_eq (f : Feed) (octets : List UInt8) :
    f.updatesIn octets = (f.exchange.decode octets).outcome.toOption.getD [] := by
  unfold updatesIn Decoded.outcome
  cases (f.exchange.decode octets).result with
  | ok frame => cases frame <;> rfl
  | error e => cases e <;> rfl

/-- Whatever its octets are, a message of a provider brings the drafts that can be finished, and
handling it is taking these. -/
theorem updatesIn_and_result {provider : Provider} {f : Feed}
    (hexchange : f.exchange = Service.exchangeOf provider) (clock : Clock) (octets : List UInt8) :
    f.updatesIn octets = finished (drafts provider octets) ∧
      (f.handleFrame clock octets).2.1 = (f.applyAll clock (f.updatesIn octets)).2.1 := by
  have houtcome := outcome_decode provider octets
  rw [← hexchange] at houtcome
  have hin : f.updatesIn octets = finished (drafts provider octets) := by
    rw [updatesIn_eq, houtcome]
    rfl
  refine ⟨hin, ?_⟩
  rw [handleFrame_result, houtcome, hin]
  rfl

/-- Cutoffs fit for every retention and every reading of the clock below `2 ^ 62`. -/
theorem cutoffFits_of_le {f : Feed} {clock : Clock}
    (hperiod : 1 ≤ f.store.period.toInt ∧ f.store.period.toInt ≤ 2 ^ 62)
    (hclock : ∀ n, 0 ≤ (clock.reading n).toInt ∧ (clock.reading n).toInt ≤ 2 ^ 62) (n : Nat) :
    Store.CutoffFits f.store.period (clock.reading n) := by
  have hmin : Int64.minValue.toInt = -2 ^ 63 := rfl
  have hmax : Int64.maxValue.toInt = 2 ^ 63 - 1 := rfl
  have hn := hclock n
  exact ⟨by omega, by omega⟩

/-- **Which messages are handled.** Decoding a message of a provider does not fault, whatever its
octets are; it brings all updates whose fields can be read, and a field that cannot be read drops
its own update alone. The message is handled if and only if the counters have room for its updates,
and there is no other fault than the sum of a counter. The counters of a feed that began with none
have room as long as 64 bits count all updates of a kind since then. -/
theorem handleFrame_eq_ok_iff {provider : Provider} {f : Feed} {clock : Clock}
    (hexchange : f.exchange = Service.exchangeOf provider)
    (hperiod : 1 ≤ f.store.period.toInt ∧ f.store.period.toInt ≤ 2 ^ 62)
    (hclock : ∀ n, 0 ≤ (clock.reading n).toInt ∧ (clock.reading n).toInt ≤ 2 ^ 62)
    (octets : List UInt8) :
    (∀ fault, (f.exchange.decode octets).result ≠ .error (.fault fault)) ∧
    f.updatesIn octets = finished (drafts provider octets) ∧
    ((f.handleFrame clock octets).2.1 = .ok () ↔
      HasRoom f.counters (f.acceptedIn (.frame clock octets))) ∧
    (∀ fault, (f.handleFrame clock octets).2.1 = .error fault → fault = .sum) ∧
    ∀ (f₀ : Feed) (steps : List Step), f₀.counters = {} → f₀.run steps = .ok f →
      (HasRoom f.counters (f.acceptedIn (.frame clock octets)) ↔
        ∀ kind, (f₀.accepted (steps ++ [.frame clock octets])).countP (·.1.kind = kind) <
          UInt64.size) := by
  obtain ⟨hin, hresult⟩ := updatesIn_and_result hexchange clock octets
  obtain ⟨hok, hfault⟩ := applyAll_eq_ok_iff (cutoffFits_of_le hperiod hclock) (f.updatesIn octets)
  rw [hresult]
  refine ⟨fun fault h => ?_, hin, hok, hfault, fun f₀ steps hfresh hrun =>
    hasRoom_iff_of_run hfresh hrun _⟩
  have houtcome := outcome_decode provider octets
  rw [← hexchange, Decoded.outcome, h] at houtcome
  cases houtcome

/-- A feed of Coinbase with one subscribed pair, that has counted some tickers. -/
def counted (tickers : UInt64) : Feed :=
  { bare (Service.exchangeOf .coinbase) none .default with
    subscribed := Table.empty.put "ATOMUSDT" (.of "atom" "usdt")
    counters := { ticker := tickers } }

/-- A ticker message whose price has an exponent of almost 32 bits, which is no decimal. -/
def tinyPrice : List UInt8 := coinbaseTicker "ATOM-USDT" "1.5e-4294967295" "0"

/-- A ticker message of the subscribed pair. -/
def goodPrice : List UInt8 := coinbaseTicker "ATOM-USDT" "3" "0"

theorem exchange_counted (n : UInt64) :
    (counted n).exchange = Service.exchangeOf .coinbase := rfl

theorem period_counted (n : UInt64) :
    1 ≤ (counted n).store.period.toInt ∧ (counted n).store.period.toInt ≤ 2 ^ 62 :=
  (by decide : 1 ≤ (counted 0).store.period.toInt ∧ (counted 0).store.period.toInt ≤ 2 ^ 62)

theorem reading_of_five (n : Nat) : 0 ≤ (((5 : Int64) : Clock).reading n).toInt ∧
    (((5 : Int64) : Clock).reading n).toInt ≤ 2 ^ 62 :=
  (by decide : 0 ≤ (5 : Int64).toInt ∧ (5 : Int64).toInt ≤ 2 ^ 62)

theorem updatesIn_counted (n : UInt64) :
    (counted n).updatesIn tinyPrice = [] ∧ (counted n).updatesIn goodPrice =
      [.ticker "ATOMUSDT" ⟨⟨3, 0, by decide, by decide⟩, .zero⟩] := by
  have hall : [tinyPrice, goodPrice].map (fun octets =>
      ((Service.exchangeOf .coinbase).decode octets).outcome.toOption) =
      [some [], some [.ticker "ATOMUSDT" ⟨⟨3, 0, by decide, by decide⟩, .zero⟩]] := by
    simp only [tinyPrice, goodPrice, coinbaseTicker, Json.ascii_render]
    decide
  simp only [List.map_cons, List.map_nil, List.cons.injEq, and_true] at hall
  obtain ⟨htiny, hgood⟩ := hall
  rw [updatesIn_eq, updatesIn_eq, exchange_counted, htiny, hgood]
  exact ⟨rfl, rfl⟩

/-- Any count has room for a message that brings nothing. -/
theorem hasRoom_tinyPrice (n : UInt64) :
    HasRoom (counted n).counters ((counted n).acceptedIn (.frame (5 : Int64) tinyPrice)) := by
  rw [acceptedIn, (updatesIn_counted n).1]
  exact hasRoom_nil _

/-- A full count has no room for a ticker, any other has. -/
theorem hasRoom_goodPrice_iff (n : UInt64) :
    HasRoom (counted n).counters ((counted n).acceptedIn (.frame (5 : Int64) goodPrice)) ↔
      (counted n).counters.isFull .ticker = false := by
  have haccepted : (counted n).acceptedIn (.frame (5 : Int64) goodPrice) =
      [(.ticker "ATOMUSDT" ⟨⟨3, 0, by decide, by decide⟩, .zero⟩, 5)] := by
    rw [acceptedIn, (updatesIn_counted n).2]
    rfl
  rw [haccepted, hasRoom_cons]
  exact and_iff_left (hasRoom_nil _)

/-- The message without a price is handled and brings nothing; the other one is handled up to the
last count but one, and not with a full count. -/
theorem handleFrame_eq_ok_iff_fullCount :
    (∀ n : UInt64, (counted n).exchange = Service.exchangeOf .coinbase ∧
      (1 ≤ (counted n).store.period.toInt ∧ (counted n).store.period.toInt ≤ 2 ^ 62)) ∧
    (∀ n, 0 ≤ (((5 : Int64) : Clock).reading n).toInt ∧
      (((5 : Int64) : Clock).reading n).toInt ≤ 2 ^ 62) ∧
    ((counted 18446744073709551615).handleFrame (5 : Int64) tinyPrice).2.1 = .ok () ∧
    ((counted 18446744073709551614).handleFrame (5 : Int64) goodPrice).2.1 = .ok () ∧
    ((counted 18446744073709551615).handleFrame (5 : Int64) goodPrice).2.1 ≠ .ok () := by
  have handled := fun n octets =>
    (handleFrame_eq_ok_iff (exchange_counted n) (period_counted n) reading_of_five octets).2.2.1
  refine ⟨fun n => ⟨exchange_counted n, period_counted n⟩, reading_of_five,
    (handled _ _).mpr (hasRoom_tinyPrice _),
    (handled _ _).mpr ((hasRoom_goodPrice_iff _).mpr (by decide)), fun h => ?_⟩
  have hroom := (hasRoom_goodPrice_iff _).mp ((handled _ _).mp h)
  exact absurd hroom (by decide)

/-- With a full count the next ticker is not handled. -/
theorem not_all_handled :
    ¬ ∀ (provider : Provider) (f : Feed) (clock : Clock) (octets : List UInt8),
      f.exchange = Service.exchangeOf provider →
      1 ≤ f.store.period.toInt ∧ f.store.period.toInt ≤ 2 ^ 62 →
      (∀ n, 0 ≤ (clock.reading n).toInt ∧ (clock.reading n).toInt ≤ 2 ^ 62) →
      (f.handleFrame clock octets).2.1 = .ok () := by
  intro h
  have hok := h .coinbase _ _ goodPrice (exchange_counted 18446744073709551615) (period_counted _)
    reading_of_five
  rw [(updatesIn_and_result (exchange_counted _) _ _).2] at hok
  have hcutoff := cutoffFits_of_le (period_counted 18446744073709551615) reading_of_five
  have hroom := (applyAll_eq_ok_iff hcutoff _).1.mp hok
  exact absurd ((hasRoom_goodPrice_iff _).mp hroom) (by decide)

end MarketFeed.Feed
