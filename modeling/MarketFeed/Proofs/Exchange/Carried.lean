import MarketFeed.Proofs.Market.Symbol
import MarketFeed.Service

/-!
# What messages carry

Every update that a message decodes to comes out of a part of the message that names a pair, in
the spelling of the exchange. The symbol of the update is the symbol of that pair.

* `Carries`: a message of a provider carries an update under a spelling.
* `exists_carries`: every decoded update is carried under some spelling.
* `Carries.pairOfWire`: the spelling reads as a pair, whose symbol the update has.
* `Coinbase.Carries.time`: the time of a trade is an instant.
* `isUpper_of_readListing`: the pairs of a listing are in upper case.
-/

namespace MarketFeed

/-! ## Coinbase -/

namespace Coinbase

/-- A ticker or trade message carries the update that it makes, under its product. -/
def Carries (octets : List UInt8) (wire : String) (u : Update) : Prop :=
  (readType octets = .ok "ticker" ∧
    ∃ m, readTicker octets = .ok m ∧ m.productId = wire ∧ m.update = .ok u) ∨
  ((readType octets = .ok "match" ∨ readType octets = .ok "last_match") ∧
    ∃ m, readTrade octets = .ok m ∧ m.productId = wire ∧ m.update = .ok u)

theorem pair_of_canonicalSymbol {productId symbol : String}
    (h : canonicalSymbol productId = .ok symbol) :
    ∃ r, Pair.ofSeparated? separator productId = some r ∧ r.symbol = symbol := by
  unfold canonicalSymbol at h
  split at h
  · rename_i r hr
    exact ⟨r, hr, Except.ok.inj h⟩
  · cases h

theorem Carries.pair {octets : List UInt8} {wire : String} {u : Update}
    (h : Carries octets wire u) :
    ∃ r, Pair.ofSeparated? separator wire = some r ∧ r.symbol = u.symbol := by
  rcases h with ⟨-, m, -, rfl, hu⟩ | ⟨-, m, -, rfl, hu⟩
  · simp only [TickerMessage.update, bind_eq_ok] at hu
    obtain ⟨symbol, hsymbol, price, -, volume, -, hok⟩ := hu
    obtain rfl := Except.ok.inj hok
    exact pair_of_canonicalSymbol hsymbol
  · simp only [TradeMessage.update, bind_eq_ok] at hu
    obtain ⟨timestamp, -, symbol, hsymbol, size, -, price, -, hok⟩ := hu
    obtain rfl := Except.ok.inj hok
    exact pair_of_canonicalSymbol hsymbol

/-- The time of a trade is an instant that was read. -/
theorem Carries.time {octets : List UInt8} {wire : String} {t : Trade}
    (h : Carries octets wire (.trade t)) : ∃ s, Instant.read s = .ok t.timestamp := by
  rcases h with ⟨-, m, -, -, hu⟩ | ⟨-, m, -, -, hu⟩
  · simp only [TickerMessage.update, bind_eq_ok] at hu
    obtain ⟨symbol, -, price, -, volume, -, hok⟩ := hu
    cases hok
  · simp only [TradeMessage.update, bind_eq_ok] at hu
    obtain ⟨timestamp, htime, symbol, -, size, -, price, -, hok⟩ := hu
    obtain rfl := Update.trade.inj (Except.ok.inj hok)
    unfold TradeMessage.timestamp at htime
    split at htime
    · rename_i instant hread
      obtain rfl := Except.ok.inj htime
      exact ⟨m.time, hread⟩
    · cases htime

theorem mem_keepValid {read : Except FeedError Update} {us : List Update} {u : Update}
    (h : (keepValid read).result = .ok (.updates us)) (hu : u ∈ us) : read = .ok u := by
  unfold keepValid at h
  split at h
  · obtain rfl := Frame.updates.inj (Except.ok.inj h)
    rw [List.mem_singleton.mp hu]
  · cases h
  · obtain rfl := Frame.updates.inj (Except.ok.inj h)
    cases hu

theorem exists_carries {octets : List UInt8} {us : List Update} {u : Update}
    (h : (decode octets).result = .ok (.updates us)) (hu : u ∈ us) :
    ∃ wire, Carries octets wire u := by
  unfold decode at h
  split at h
  · cases h
  · rename_i type htype
    by_cases herror : type = "error"
    · rw [if_pos herror] at h
      cases h
    · rw [if_neg herror] at h
      split at h
      · cases h
      · split at h
        · rename_i hticker
          rw [hticker] at htype
          split at h
          · rename_i m hm
            exact ⟨_, .inl ⟨htype, m, hm, rfl, mem_keepValid h hu⟩⟩
          · cases h
        · split at h
          · rename_i htrade
            have htypes : readType octets = .ok "match" ∨ readType octets = .ok "last_match" := by
              rw [htype]
              exact htrade.imp (congrArg _) (congrArg _)
            split at h
            · rename_i m hm
              exact ⟨_, .inr ⟨htypes, m, hm, rfl, mem_keepValid h hu⟩⟩
            · cases h
          · cases h

end Coinbase

/-! ## Osmosis -/

namespace Osmosis

/-- A message carries the updates of its entries, each under its key. -/
def Carries (octets : List UInt8) (wire : String) (u : Update) : Prop :=
  ∃ entries value us events, Json.Value.read octets = .ok (.object entries) ∧
    (wire, value) ∈ entries ∧ gatherEntry (wire, value) = .ok (us, events) ∧ u ∈ us

theorem mem_gatherAll {parts : List Gathered} {us : List Update} {events : Log.Events}
    {u : Update} (h : gatherAll parts = .ok (us, events)) (hu : u ∈ us) :
    ∃ us' events', Except.ok (us', events') ∈ parts ∧ u ∈ us' := by
  induction parts generalizing us events with
  | nil =>
    obtain ⟨rfl, -⟩ := Prod.mk.inj (Except.ok.inj h)
    cases hu
  | cons part rest ih =>
    unfold gatherAll at h
    split at h
    · contradiction
    · cases h
    · rename_i first firstEvents rest' hparts
      obtain ⟨rfl, rfl⟩ := List.cons.inj hparts
      split at h
      · rename_i more moreEvents hmore
        obtain ⟨rfl, -⟩ := Prod.mk.inj (Except.ok.inj h)
        rcases List.mem_append.mp hu with hfirst | hrest
        · exact ⟨first, firstEvents, List.mem_cons_self, hfirst⟩
        · obtain ⟨us', events', hmem, hin⟩ := ih hmore hrest
          exact ⟨us', events', List.mem_cons_of_mem _ hmem, hin⟩
      · cases h

theorem mem_gatherOne {what key : String} {read : Except FeedError Update} {us : List Update}
    {events : Log.Events} {u : Update} (h : gatherOne what key read = .ok (us, events))
    (hu : u ∈ us) : read = .ok u := by
  unfold gatherOne at h
  split at h
  · obtain ⟨rfl, -⟩ := Prod.mk.inj (Except.ok.inj h)
    rw [List.mem_singleton.mp hu]
  · cases h
  · obtain ⟨rfl, -⟩ := Prod.mk.inj (Except.ok.inj h)
    cases hu

/-- The updates of an entry are about the pair that its key spells. -/
theorem pair_of_gatherEntry {wire : String} {value : Json.Value} {us : List Update}
    {events : Log.Events} {u : Update} (h : gatherEntry (wire, value) = .ok (us, events))
    (hu : u ∈ us) : ∃ r, Pair.ofSeparated? separator wire = some r ∧ r.symbol = u.symbol := by
  unfold gatherEntry at h
  dsimp only at h
  split at h
  · obtain ⟨rfl, -⟩ := Prod.mk.inj (Except.ok.inj h)
    cases hu
  · rename_i r hr
    refine ⟨r, hr, ?_⟩
    split at h
    · have hread := mem_gatherOne h hu
      obtain ⟨t, -, rfl⟩ := map_eq_ok.mp hread
      rfl
    · obtain ⟨us', events', hpart, hin⟩ := mem_gatherAll h hu
      obtain ⟨item, -, hone⟩ := List.mem_map.mp hpart
      obtain ⟨c, -, rfl⟩ := map_eq_ok.mp (mem_gatherOne hone hin)
      rfl
    · obtain ⟨rfl, -⟩ := Prod.mk.inj (Except.ok.inj h)
      cases hu

theorem Carries.pair {octets : List UInt8} {wire : String} {u : Update}
    (h : Carries octets wire u) :
    ∃ r, Pair.ofSeparated? separator wire = some r ∧ r.symbol = u.symbol := by
  obtain ⟨entries, value, us, events, -, -, hentry, hu⟩ := h
  exact pair_of_gatherEntry hentry hu

theorem exists_carries {octets : List UInt8} {us : List Update} {u : Update}
    (h : (decode octets).result = .ok (.updates us)) (hu : u ∈ us) :
    ∃ wire, Carries octets wire u := by
  unfold decode at h
  split at h
  · cases h
  · split at h
    · cases h
    · rename_i entries hread
      unfold decodeEntries at h
      split at h
      · rename_i updates events hall
        obtain rfl := Frame.updates.inj (Except.ok.inj h)
        obtain ⟨us', events', hmem, hin⟩ := mem_gatherAll hall hu
        obtain ⟨⟨wire, value⟩, hentry, hone⟩ := List.mem_map.mp hmem
        exact ⟨wire, entries, value, us', events', hread, hentry, hone, hin⟩
      · cases h
    · cases h

end Osmosis

/-! ## Both exchanges -/

/-- The message of a provider carries an update under a spelling of a pair. -/
def Carries : Provider → List UInt8 → String → Update → Prop
  | .coinbase => Coinbase.Carries
  | .osmosisV2 => Osmosis.Carries

/-- Every update that a message decodes to is carried by it. -/
theorem exists_carries {provider : Provider} {octets : List UInt8} {us : List Update} {u : Update}
    (h : ((Service.exchangeOf provider).decode octets).result = .ok (.updates us)) (hu : u ∈ us) :
    ∃ wire, Carries provider octets wire u := by
  cases provider with
  | coinbase => exact Coinbase.exists_carries h hu
  | osmosisV2 => exact Osmosis.exists_carries h hu

/-- The spelling of an update reads as a pair, whose symbol the update has. -/
theorem Carries.pairOfWire {provider : Provider} {octets : List UInt8} {wire : String} {u : Update}
    (h : Carries provider octets wire u) :
    ∃ r, (Service.exchangeOf provider).pairOfWire? wire = some r ∧ r.symbol = u.symbol := by
  cases provider with
  | coinbase => exact Coinbase.Carries.pair h
  | osmosisV2 => exact Osmosis.Carries.pair h

private theorem exists_of_mapM {α β : Type} {f : α → Option β} {xs : List α} {ys : List β} {y : β}
    (h : xs.mapM f = some ys) (hy : y ∈ ys) : ∃ x, f x = some y := by
  induction xs generalizing ys with
  | nil =>
    obtain rfl : [] = ys := by simpa using h
    cases hy
  | cons x xs ih =>
    simp only [List.mapM_cons, Option.bind_eq_bind, Option.bind_eq_some_iff] at h
    obtain ⟨first, hfirst, rest, hrest, hsome⟩ := h
    obtain rfl := Option.some.inj hsome
    rcases List.mem_cons.mp hy with rfl | hmem
    · exact ⟨x, hfirst⟩
    · exact ih hrest hmem

private theorem exists_of_readRecordsWith {α : Type} {shape : Json.Shape}
    {build : Json.Fields → Option α} {octets : List UInt8} {items : List α} {a : α}
    (h : Json.readRecordsWith shape build octets = .ok items) (ha : a ∈ items) :
    ∃ fields, build fields = some a := by
  simp only [Json.readRecordsWith, bind_eq_ok] at h
  obtain ⟨records, -, h⟩ := h
  split at h
  · rename_i hmap
    obtain rfl := Except.ok.inj h
    exact exists_of_mapM hmap ha
  · cases h

/-- The pairs of a listing are in upper case. -/
theorem isUpper_of_readListing {provider : Provider} {body : List UInt8} {listed : List Pair}
    {r : Pair} (h : (Service.exchangeOf provider).readListing body = .ok listed) (hr : r ∈ listed) :
    r.IsUpper := by
  have hof : ∃ base quote, r = Pair.of base quote := by
    cases provider <;>
    · obtain ⟨fields, hbuild⟩ := exists_of_readRecordsWith h hr
      simp only [Option.bind_eq_bind, Option.bind_eq_some_iff] at hbuild
      obtain ⟨base, -, quote, -, hsome⟩ := hbuild
      exact ⟨base, quote, (Option.some.inj hsome).symm⟩
  obtain ⟨base, quote, rfl⟩ := hof
  exact Pair.of_isUpper base quote

end MarketFeed
