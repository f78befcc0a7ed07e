import MarketFeed.Proofs.Candles.Overfull
import MarketFeed.Proofs.Feed.TradeCandles

/-!
# How queries end

A feed goes on after a message that faults, with what it had taken before. Whatever messages it has
seen, a query for tickers has an answer or finds nothing. A query for candles can fault as well:
the trades of Coinbase may have sizes without a sum.

* `advance`, `advanceAll`: a feed after steps, with or without faults. `advance_writes` is the step
  and `advanceAll_writes` the run: the store is what updates of messages have written.
* `TimesBounded`: the times of all stored trades are instants.
* `candlesOf_eq_fault`: when the candles of a symbol cannot be cut.
* `queries_end`: how the queries end after any steps.
-/

namespace MarketFeed

/-! ## The times of stored trades -/

namespace Store

/-- The times of all stored trades are instants. -/
def TimesBounded (s : Store) : Prop :=
  ∀ symbol list, s.trades.get? symbol = some list →
    ∀ t ∈ list, t.timestamp.toInt.natAbs < Instant.bound

theorem TimesBounded.write {s s' : Store} {w : Write} (h : s.TimesBounded)
    (hw : s.write w = .ok s')
    (htrade : ∀ t now, w = .trade t now → t.timestamp.toInt.natAbs < Instant.bound) :
    s'.TimesBounded := by
  cases w with
  | ticker symbol t =>
    obtain rfl := Except.ok.inj hw
    exact h
  | candle symbol c now =>
    obtain ⟨-, rfl⟩ := setCandle_eq_ok.mp hw
    exact h
  | trade t now =>
    obtain ⟨-, rfl⟩ := setTrade_eq_ok.mp hw
    intro symbol list hlist a ha
    rw [get?_insertFresh] at hlist
    split at hlist
    · obtain rfl := Option.some.inj hlist
      rcases List.mem_cons.mp ha with rfl | hold
      · exact htrade a now rfl
      · have hmem := (List.mem_filter.mp hold).1
        cases hget : s.trades.get? symbol with
        | none =>
          rw [hget] at hmem
          cases hmem
        | some older =>
          rw [hget] at hmem
          exact h symbol older hget a hmem
    · exact h symbol list hlist a ha

theorem TimesBounded.writeAll {s s' : Store} {ws : List Write} (h : s.TimesBounded)
    (hm : s.writeAll ws = .ok s')
    (htrades : ∀ t now, Write.trade t now ∈ ws → t.timestamp.toInt.natAbs < Instant.bound) :
    s'.TimesBounded := by
  induction ws using List.reverseRecOn generalizing s' with
  | nil =>
    obtain rfl := Except.ok.inj hm
    exact h
  | append_singleton ws w ih =>
    obtain ⟨mid, hmid, hw⟩ := writeAll_concat.mp hm
    have hbefore := ih hmid fun t now ht => htrades t now (List.mem_append_left _ ht)
    refine hbefore.write hw fun t now ht => htrades t now ?_
    rw [← ht]
    exact List.mem_append_right _ (List.mem_singleton.mpr rfl)

end Store

namespace Feed

/-! ## What messages write -/

/-- An update leaves the store as it is or writes to it. -/
theorem apply_writes (f : Feed) (now : Int64) (u : Update) :
    ∃ ws, f.store.writeAll ws = .ok (f.apply now u).1.store ∧ ∀ w ∈ ws, w = u.write now := by
  have hnone : ∃ ws, f.store.writeAll ws = .ok f.store ∧ ∀ w ∈ ws, w = u.write now :=
    ⟨[], rfl, by simp⟩
  unfold apply
  split
  · dsimp only
    split
    · exact hnone
    · split
      · rename_i kept hkept
        obtain ⟨s, hw, rfl⟩ := keep_eq_ok.mp hkept
        exact ⟨[u.write now], by simpa [Store.writeAll] using hw, by simp⟩
      · exact hnone
  · exact hnone

theorem applyAll_writes (f : Feed) (clock : Clock) (us : List Update) :
    ∃ ws, f.store.writeAll ws = .ok (f.applyAll clock us).1.store ∧
      ∀ w ∈ ws, ∃ u ∈ us, ∃ now, w = u.write now := by
  induction us generalizing f clock with
  | nil => exact ⟨[], rfl, by simp⟩
  | cons u us ih =>
    obtain ⟨ws, hwrites, hfrom⟩ := apply_writes f (clock.reading 0) u
    have hfirst : ∀ w ∈ ws, ∃ u' ∈ u :: us, ∃ now, w = u'.write now :=
      fun w hw => ⟨u, List.mem_cons_self, _, hfrom w hw⟩
    unfold applyAll
    split
    · rename_i happly
      rw [happly] at hwrites
      exact ⟨ws, hwrites, hfirst⟩
    · rename_i mid first happly
      rw [happly] at hwrites
      obtain ⟨more, hmore, hrest⟩ := ih mid clock.later
      refine ⟨ws ++ more, Store.writeAll_append.mpr ⟨_, hwrites, hmore⟩, fun w hw => ?_⟩
      rcases List.mem_append.mp hw with hw | hw
      · exact hfirst w hw
      · obtain ⟨u', hu, hwrite⟩ := hrest w hw
        exact ⟨u', List.mem_cons_of_mem u hu, hwrite⟩

/-- A message writes nothing but its updates, even if it faults. -/
theorem handleFrame_writes (f : Feed) (clock : Clock) (octets : List UInt8) :
    ∃ ws, f.store.writeAll ws = .ok (f.handleFrame clock octets).1.store ∧
      ∀ w ∈ ws, ∃ u ∈ f.updatesIn octets, ∃ now, w = u.write now := by
  by_cases h : ∃ us, (f.exchange.decode octets).result = .ok (.updates us)
  · obtain ⟨us, hus⟩ := h
    have hin : f.updatesIn octets = us := by
      unfold updatesIn
      rw [hus]
    rw [(handleFrame_updates hus clock).1, hin]
    exact applyAll_writes f clock us
  · rw [handleFrame_other fun us hus => h ⟨us, hus⟩]
    exact ⟨[], rfl, by simp⟩

theorem open_timesBounded {exchange : Exchange} {configured : Option Endpoint}
    {options : FeedOptions} {pairs : List Pair} {listing : Listing} {f : Feed}
    (hopen : (open? exchange configured options pairs listing).result = .ok f) :
    f.store.TimesBounded := by
  obtain ⟨confirmed, c, -, rfl⟩ := open_eq hopen
  intro symbol list hlist
  cases hlist

/-! ## Steps with faults -/

/-- A feed after a step. If the step faults, the feed keeps what was done before. -/
def advance (f : Feed) : Step → Feed
  | .frame clock octets => (f.handleFrame clock octets).1
  | .subscribe pairs listing => (f.subscribe pairs listing).1
  | .start => f.start.1
  | .shutdown => f.shutdown.1

/-- A feed after some steps. -/
def advanceAll (f : Feed) (steps : List Step) : Feed := steps.foldl advance f

theorem advance_exchange (f : Feed) (s : Step) : (f.advance s).exchange = f.exchange := by
  cases s with
  | frame clock octets =>
    obtain ⟨s, c, h⟩ := handleFrame_eq f clock octets
    rw [advance, h]
  | subscribe pairs listing => exact (subscribe_ingested f pairs listing).exchange
  | start | shutdown => rfl

theorem advanceAll_exchange (f : Feed) (steps : List Step) :
    (f.advanceAll steps).exchange = f.exchange := by
  unfold advanceAll
  induction steps generalizing f with
  | nil => rfl
  | cons s rest ih => rw [List.foldl_cons, ih, advance_exchange]

/-- The step: whatever it writes are updates of a message. -/
theorem advance_writes (f : Feed) (s : Step) :
    ∃ ws, f.store.writeAll ws = .ok (f.advance s).store ∧
      ∀ w ∈ ws, ∃ octets, ∃ u ∈ f.updatesIn octets, ∃ now, w = u.write now := by
  cases s with
  | frame clock octets =>
    obtain ⟨ws, hwrites, hfrom⟩ := handleFrame_writes f clock octets
    exact ⟨ws, hwrites, fun w hw => ⟨octets, hfrom w hw⟩⟩
  | subscribe pairs listing =>
    exact ⟨[], (subscribe_ingested f pairs listing).store, by simp⟩
  | start | shutdown => exact ⟨[], rfl, by simp⟩

/-- The run: whatever happens to a feed, its store is the one that some updates write. -/
theorem advanceAll_writes (f : Feed) (steps : List Step) :
    ∃ ws, f.store.writeAll ws = .ok (f.advanceAll steps).store ∧
      ∀ w ∈ ws, ∃ octets, ∃ u ∈ f.updatesIn octets, ∃ now, w = u.write now := by
  unfold advanceAll
  induction steps generalizing f with
  | nil => exact ⟨[], rfl, by simp⟩
  | cons s rest ih =>
    obtain ⟨ws, hwrites, hfirst⟩ := advance_writes f s
    obtain ⟨more, hmore, hrest⟩ := ih (f.advance s)
    have hin : (f.advance s).updatesIn = f.updatesIn := by
      funext octets
      unfold updatesIn
      rw [advance_exchange]
    rw [hin] at hrest
    exact ⟨ws ++ more, Store.writeAll_append.mpr ⟨_, hwrites, hmore⟩,
      List.forall_mem_append.mpr ⟨hfirst, hrest⟩⟩

/-- The times of the trades that messages of Coinbase bring are instants, and so are those of all
stored trades. -/
theorem advanceAll_timesBounded {f : Feed} (hexchange : f.exchange = .coinbase)
    (h : f.store.TimesBounded) (steps : List Step) :
    (f.advanceAll steps).store.TimesBounded := by
  obtain ⟨ws, hwrites, hfrom⟩ := advanceAll_writes f steps
  refine h.writeAll hwrites fun t now ht => ?_
  obtain ⟨octets, u, hu, now', hwrite⟩ := hfrom _ ht
  have htrade : u = .trade t := by
    cases u with
    | trade t' => rw [(Store.Write.trade.inj hwrite).1]
    | ticker | candle => cases hwrite
  obtain ⟨us, hus, hmem⟩ := mem_updatesIn hu
  rw [hexchange] at hus
  obtain ⟨wire, hcarries⟩ := Coinbase.exists_carries hus hmem
  obtain ⟨s, hread⟩ := (htrade ▸ hcarries).time
  exact Instant.read_bound hread

/-! ## Queries -/

/-- The stored trades of a symbol have a window that is overfull. -/
def HasOverfull (f : Feed) (symbol : String) : Prop :=
  ∃ trades, f.store.tradesOf symbol = .ok trades ∧
    ∃ w ∈ Candles.windows (Candles.sorted trades), Candles.Overfull w

theorem ticker_ne_fault (s : Store) (symbol : String) (fault : Fault) :
    s.ticker symbol ≠ .error (.fault fault) := by
  unfold Store.ticker
  split <;> simp

/-- Streamed candles are there or not. -/
theorem candlesOf_ne_fault {f : Feed} (hsource : f.exchange.candleSource = .candles)
    (symbol : String) (fault : Fault) : f.candlesOf symbol ≠ .error (.fault fault) := by
  unfold candlesOf Store.candlesOf
  rw [hsource]
  dsimp only
  split <;> simp

/-- Candles cannot be cut from trades if and only if one of their windows is overfull. -/
theorem candlesOf_eq_fault {f : Feed} (hsource : f.exchange.candleSource = .trades)
    (htimes : f.store.TimesBounded) {symbol : String} {fault : Fault} :
    f.candlesOf symbol = .error (.fault fault) ↔ fault = .decimalSum ∧ f.HasOverfull symbol := by
  unfold candlesOf HasOverfull Store.tradesOf
  rw [hsource]
  cases hget : f.store.trades.get? symbol with
  | none => simp [bind, Except.bind]
  | some trades =>
    have hfit : Candles.AgesFit trades := fun a ha b hb =>
      Instant.fitsInt64_sub (htimes symbol trades hget a ha) (htimes symbol trades hget b hb)
    have herror : Candles.ofTrades trades = .error fault ↔ _ := Candles.ofTrades_eq_error_iff hfit
    simp only [bind, Except.bind]
    cases hof : Candles.ofTrades trades with
    | ok candles =>
      rw [hof] at herror
      simpa using herror
    | error fault' =>
      rw [hof] at herror
      simpa using herror

variable {provider : Provider} {configured : Option Endpoint} {options : FeedOptions}
  {pairs : List Pair} {listing : Listing} {f₀ : Feed}

theorem advanceAll_candlesOf_eq_fault
    (hopen : (open? (Service.exchangeOf provider) configured options pairs listing).result = .ok f₀)
    (steps : List Step) {symbol : String} {fault : Fault} :
    (f₀.advanceAll steps).candlesOf symbol = .error (.fault fault) ↔
      fault = .decimalSum ∧ provider = .coinbase ∧ (f₀.advanceAll steps).HasOverfull symbol := by
  have hexchange : (f₀.advanceAll steps).exchange = Service.exchangeOf provider := by
    rw [advanceAll_exchange, open_exchange hopen]
  cases provider with
  | coinbase =>
    have htimes := advanceAll_timesBounded (open_exchange hopen) (open_timesBounded hopen) steps
    rw [candlesOf_eq_fault (by rw [hexchange]; rfl) htimes]
    simp
  | osmosisV2 =>
    exact iff_of_false (candlesOf_ne_fault (by rw [hexchange]; rfl) symbol fault)
      fun h => by cases h.2.1

/-- **How queries end.** Let a feed of a provider be opened and take any steps, with or without
faults. A query for tickers has an answer or finds nothing, and so does a query for candles, with
one exception: it faults if and only if the provider is Coinbase and the stored trades of one of
the pairs have an overfull window. -/
theorem queries_end
    (hopen : (open? (Service.exchangeOf provider) configured options pairs listing).result = .ok f₀)
    (steps : List Step) (asked : List Pair) :
    ((∃ table, ((f₀.advanceAll steps).tickers asked).result = .ok table) ∨
      ((f₀.advanceAll steps).tickers asked).result = .error (.noTickers provider asked)) ∧
    ((∃ table, ((f₀.advanceAll steps).candles asked).result = .ok table) ∨
      ((f₀.advanceAll steps).candles asked).result = .error (.noCandles provider asked) ∨
      ((f₀.advanceAll steps).candles asked).result = .error (.fault .decimalSum)) ∧
    (((f₀.advanceAll steps).candles asked).result = .error (.fault .decimalSum) ↔
      provider = .coinbase ∧ ∃ p ∈ asked, (f₀.advanceAll steps).HasOverfull p.symbol) := by
  have hfind {symbol : String} {fault : Fault} :
      (f₀.advanceAll steps).candlesOf symbol = .error (.fault fault) ↔ _ :=
    advanceAll_candlesOf_eq_fault hopen steps
  have hprovider : (f₀.advanceAll steps).provider = provider := by
    rw [Feed.provider, advanceAll_exchange, open_exchange hopen]
    cases provider <;> rfl
  generalize f₀.advanceAll steps = f at *
  have htickers : ¬ ∃ p ∈ asked, ∃ fault, f.store.ticker p.symbol = .error (.fault fault) :=
    fun ⟨p, _, fault, h⟩ => ticker_ne_fault f.store p.symbol fault h
  unfold tickers candles
  rw [hprovider]
  refine ⟨answer_of_no_fault htickers, ?_⟩
  by_cases hfault : ∃ p ∈ asked, ∃ fault, f.candlesOf p.symbol = .error (.fault fault)
  · obtain ⟨p, hp, fault, hp', hanswer⟩ := answer_of_fault hfault
    obtain ⟨rfl, hcoinbase, hover⟩ := hfind.mp hp'
    exact ⟨.inr (.inr hanswer), iff_of_true hanswer ⟨hcoinbase, p, hp, hover⟩⟩
  · have hno : ¬ (provider = .coinbase ∧ ∃ p ∈ asked, f.HasOverfull p.symbol) :=
      fun ⟨hcoinbase, p, hp, hover⟩ =>
        hfault ⟨p, hp, .decimalSum, hfind.mpr ⟨rfl, hcoinbase, hover⟩⟩
    rcases answer_of_no_fault hfault with ⟨table, htable⟩ | hnone
    · exact ⟨.inl ⟨table, htable⟩, iff_of_false (by rw [htable]; simp) hno⟩
    · exact ⟨.inr (.inl hnone), iff_of_false (by rw [hnone]; simp) hno⟩

/-- The greatest size that a trade can have. -/
def greatestSize : Decimal := whole 79228162514264337593543950335

/-- Two trades of one millisecond, of the size 1 and of the greatest size. -/
def greatestTrades : List Step := [
  .frame (5 : Int64) (coinbaseTrade "ATOM-USDT" "2022-03-15T08:01:27Z" "1" "2"),
  .frame (6 : Int64) (coinbaseTrade "ATOM-USDT" "2022-03-15T08:01:27Z"
    "79228162514264337593543950335" "3")]

/-- The trades that are stored then. -/
def greatestStored : List Trade := [
  ⟨"ATOMUSDT", 1647331287000, greatestSize, whole 3⟩, ⟨"ATOMUSDT", 1647331287000, whole 1, whole 2⟩]

private theorem toRat_whole {n : Nat} (h : n < Decimal.bound) : (whole n).toRat = n := by
  rw [whole, Decimal.toRat_getD_ofDigits? h (Nat.zero_le _), pow_zero, div_one]

private theorem overfull_greatestStored : Candles.Overfull greatestStored := by
  have hbound : Decimal.bound = 79228162514264337593543950336 := rfl
  refine ⟨[⟨"ATOMUSDT", 1647331287000, greatestSize, whole 3⟩], _, [], greatestSize, rfl, rfl, ?_⟩
  rw [greatestSize, toRat_whole (by decide), toRat_whole (by decide), hbound]
  norm_num

private theorem exists_greatestTrades :
    ∃ f₀, (open? (Service.exchangeOf .coinbase) none .default [.of "atom" "usdt"]
        (.ok (coinbaseListing [.of "atom" "usdt"]))).result = .ok f₀ ∧
      (f₀.advanceAll greatestTrades).HasOverfull "ATOMUSDT" := by
  have hall : ((open? (Service.exchangeOf .coinbase) none .default [.of "atom" "usdt"]
      (.ok (coinbaseListing [.of "atom" "usdt"]))).result.toOption.map fun f₀ =>
        ((f₀.advanceAll greatestTrades).store.tradesOf "ATOMUSDT").toOption) =
      some (some greatestStored) := by
    simp only [greatestTrades, coinbaseListing, coinbaseTrade, Json.ascii_render]
    decide +kernel
  obtain ⟨f₀, hopen, htrades⟩ := Option.map_eq_some_iff.mp hall
  rw [toOption_eq_some] at hopen htrades
  have hsorted : Candles.sorted greatestStored = greatestStored :=
    List.mergeSort_of_pairwise (by decide)
  refine ⟨f₀, hopen, greatestStored, htrades, greatestStored, ?_, overfull_greatestStored⟩
  rw [hsorted]
  exact List.mem_singleton.mpr rfl

/-- After these trades a query for candles faults, and one for tickers finds nothing. -/
theorem queries_end_greatestTrades :
    ∃ f₀, (open? (Service.exchangeOf .coinbase) none .default [.of "atom" "usdt"]
        (.ok (coinbaseListing [.of "atom" "usdt"]))).result = .ok f₀ ∧
      ((f₀.advanceAll greatestTrades).candles [.of "atom" "usdt"]).result =
        .error (.fault .decimalSum) ∧
      ((f₀.advanceAll []).candles [.of "atom" "usdt"]).result ≠ .error (.fault .decimalSum) := by
  obtain ⟨f₀, hopen, hover⟩ := exists_greatestTrades
  have hsymbol : (Pair.of "atom" "usdt").symbol = "ATOMUSDT" := by decide
  refine ⟨f₀, hopen, ?_, fun hfault => ?_⟩
  · exact (queries_end hopen greatestTrades [.of "atom" "usdt"]).2.2.mpr
      ⟨rfl, _, List.mem_cons_self, hsymbol ▸ hover⟩
  · obtain ⟨-, p, -, trades, htrades, -⟩ :=
      (queries_end hopen [] [.of "atom" "usdt"]).2.2.mp hfault
    obtain ⟨confirmed, c, -, rfl⟩ := open_eq hopen
    cases htrades

/-- Not every query for candles has an answer or finds nothing. -/
theorem not_all_queries_answered :
    ¬ ∀ (provider : Provider) (configured : Option Endpoint) (options : FeedOptions)
      (pairs : List Pair) (listing : Listing) (f₀ : Feed) (steps : List Step) (asked : List Pair),
      (open? (Service.exchangeOf provider) configured options pairs listing).result = .ok f₀ →
      (∃ table, ((f₀.advanceAll steps).candles asked).result = .ok table) ∨
        ((f₀.advanceAll steps).candles asked).result = .error (.noCandles provider asked) := by
  intro h
  obtain ⟨f₀, hopen, hover⟩ := exists_greatestTrades
  have hsymbol : (Pair.of "atom" "usdt").symbol = "ATOMUSDT" := by decide
  have hfind := (advanceAll_candlesOf_eq_fault hopen greatestTrades).mpr
    ⟨rfl, rfl, hsymbol ▸ hover⟩
  obtain ⟨p, -, fault, -, hanswer⟩ : ∃ p ∈ [Pair.of "atom" "usdt"], ∃ fault,
      (f₀.advanceAll greatestTrades).candlesOf p.symbol = .error (.fault fault) ∧
      ((f₀.advanceAll greatestTrades).candles [.of "atom" "usdt"]).result =
        .error (.fault fault) :=
    answer_of_fault ⟨_, List.mem_singleton.mpr rfl, _, hfind⟩
  rcases h .coinbase none .default _ _ f₀ greatestTrades [.of "atom" "usdt"] hopen with
    ⟨table, htable⟩ | hnone
  · rw [hanswer] at htable
    cases htable
  · rw [hanswer] at hnone
    cases hnone

end Feed

end MarketFeed
