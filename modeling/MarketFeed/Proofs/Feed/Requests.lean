import MarketFeed.Proofs.Feed.Growth
import MarketFeed.Proofs.Feed.Ingestion
import Mathlib.Algebra.Order.Ring.Nat
import Mathlib.Data.List.Nodup
import Mathlib.Data.List.Perm.Basic
import Mathlib.Data.List.Perm.Subperm

/-!
# What the connections of a feed ask for

The connections of a feed ask the exchange for pairs, each for a portion of them. The pairs that
subscriptions add are asked for once each; those that a feed opens with are asked for as they were
confirmed, repetitions included.

* `open_run_requests`: what all connections of a run ask for, and when that is each subscribed
  symbol once.
* `requests_repeated`: a pair that a feed opens with twice is asked for twice.
-/

namespace MarketFeed

namespace Feed

/-! ## Portions together -/

/-- Portions of one pair each are as many as the pairs. -/
theorem length_flatMap_asked_one {e : Exchange} (h : e.subscribeByRequest = true)
    (hlimit : e.maxPairsPerConnection = some 1) (lists : List (List Pair)) :
    (lists.flatMap e.asked).length = lists.flatten.length := by
  have hone : ∀ pairs : List Pair, (e.asked pairs).length = pairs.length := by
    intro pairs
    rw [Exchange.asked_eq_portions h, hlimit, length_portions Nat.one_pos, ceilDiv_one]
  rw [List.length_flatMap, List.length_flatten, List.map_congr_left fun pairs _ => hone pairs]

theorem flatten_flatMap_asked {e : Exchange} (h : e.subscribeByRequest = true)
    (lists : List (List Pair)) : (lists.flatMap e.asked).flatten = lists.flatten := by
  rw [Exchange.asked_eq_portions h, flatten_flatMap_portions]

/-! ## Texts asked for -/

section Symbols

variable {asked first later : List String}

/-- Let texts be asked for, and others later, and let `first` be the ones asked for without
repetitions. All texts together are asked for once each if and only if the first ones are. -/
theorem perm_append_iff_nodup (hnodup : (first ++ later).Nodup)
    (hsame : ∀ s, s ∈ first ↔ s ∈ asked) :
    (asked ++ later).Perm (first ++ later) ↔ asked.Nodup := by
  have hfirst := (List.nodup_append.mp hnodup).1
  rw [List.perm_append_right_iff]
  constructor
  · intro hperm
    exact hperm.nodup_iff.mpr hfirst
  · intro hasked
    exact (List.perm_ext_iff_of_nodup hasked hfirst).mpr fun s => (hsame s).symm

/-- Counting is enough: they are as many as the texts without repetitions. -/
theorem length_append_eq_iff_nodup (hnodup : (first ++ later).Nodup)
    (hsame : ∀ s, s ∈ first ↔ s ∈ asked) :
    (asked ++ later).length = (first ++ later).length ↔ asked.Nodup := by
  rw [← perm_append_iff_nodup hnodup hsame]
  constructor
  · intro hlength
    rw [List.length_append, List.length_append, Nat.add_right_cancel_iff] at hlength
    have hfirst := (List.nodup_append.mp hnodup).1
    have hsub := hfirst.subperm fun s hs => (hsame s).mp hs
    exact (hsub.perm_of_length_le (Nat.le_of_eq hlength)).symm.append_right later
  · exact List.Perm.length_eq

/-- How often each text is asked for. -/
theorem count_append_eq (hnodup : (first ++ later).Nodup) (hsame : ∀ s, s ∈ first ↔ s ∈ asked)
    (s : String) :
    (asked ++ later).count s = if s ∈ first ++ later then max 1 (asked.count s) else 0 := by
  obtain ⟨-, hlater, hdisjoint⟩ := List.nodup_append.mp hnodup
  rw [List.count_append, hlater.count]
  by_cases hfirst : s ∈ first
  · have hpos := List.count_pos_iff.mpr ((hsame s).mp hfirst)
    have hnot : s ∉ later := fun hs => hdisjoint s hfirst s hs rfl
    rw [if_neg hnot, if_pos (List.mem_append_left later hfirst)]
    omega
  · have hzero := List.count_eq_zero.mpr (mt (hsame s).mpr hfirst)
    rw [hzero]
    simp [hfirst]

end Symbols

/-! ## The requests of a run -/

section Open

variable {exchange : Exchange} {configured : Option Endpoint} {options : FeedOptions}
  {pairs : List Pair} {listing : Listing} {f₀ f : Feed} {steps : List Step}

/-- Registering in a bare feed gives all symbols, without repetitions. -/
theorem mem_register_bare (confirmed : List Pair) (symbol : String) :
    symbol ∈ ((bare exchange configured options).register confirmed).2.map Pair.symbol ↔
      symbol ∈ confirmed.map Pair.symbol := by
  have hkeys := keys_register (bare exchange configured options) confirmed
  have hmem := has_putAll .empty confirmed symbol
  rw [register_fst] at hkeys
  rw [Table.has_iff_mem_keys, show (putAll .empty confirmed).keys = _ from hkeys] at hmem
  simpa [bare, Table.keys, Table.empty, Table.has, Table.get?] using hmem

/-- An opening and a run without a shutdown: the symbols of the opening come first, without
repetitions, and its pairs are asked for with them. -/
theorem open_run_grown
    (hopen : (open? exchange configured options pairs listing).result = .ok f₀)
    (hrequest : exchange.subscribeByRequest = true)
    (hrun : f₀.run steps = .ok f) (hstay : Step.shutdown ∉ steps) :
    ∃ confirmed,
      ((bare exchange configured options).confirm pairs listing).result = .ok confirmed ∧
      Grown (bare exchange configured options)
        (((bare exchange configured options).register confirmed).2 ++
          (f₀.additions steps).flatten)
        ((confirmed :: f₀.additions steps).flatMap exchange.asked) f := by
  obtain ⟨confirmed, hconfirmed, hfirst⟩ := open_grown hopen
  have hlater := run_grown hrun hstay
  rw [if_pos hrequest] at hfirst
  rw [open_exchange hopen] at hlater
  exact ⟨confirmed, hconfirmed, hfirst.trans hlater⟩

/-- **Requests.** Let an exchange be asked for pairs, and let a feed be opened and run without a
fault and without a shutdown. Its connections together ask for the confirmed pairs, as they are,
and for the pairs added later. A symbol that is not subscribed is not asked for; a subscribed one
is asked for as often as it was confirmed at the opening, or else once. So all subscribed symbols
are asked for once each if and only if none was confirmed twice at the opening; with one pair for
each connection, exactly then there are as many connections as subscribed pairs. -/
theorem open_run_requests
    (hopen : (open? exchange configured options pairs listing).result = .ok f₀)
    (hrequest : exchange.subscribeByRequest = true)
    (hrun : f₀.run steps = .ok f) (hstay : Step.shutdown ∉ steps) :
    ∃ confirmed parts,
      ((bare exchange configured options).confirm pairs listing).result = .ok confirmed ∧
      parts = (confirmed :: f₀.additions steps).flatMap exchange.asked ∧
      f.requests = parts.map exchange.subscriptionFrames ∧
      (∀ symbol, (parts.flatten.map Pair.symbol).count symbol =
        if f.isSubscribed symbol then max 1 ((confirmed.map Pair.symbol).count symbol) else 0) ∧
      ((parts.flatten.map Pair.symbol).Perm (f.subscribed.values.map Pair.symbol) ↔
        (confirmed.map Pair.symbol).Nodup) ∧
      (exchange.maxPairsPerConnection = some 1 →
        (f.controller.count = f.subscribed.values.length ↔
          (confirmed.map Pair.symbol).Nodup)) := by
  obtain ⟨confirmed, hconfirmed, hall⟩ := open_run_grown hopen hrequest hrun hstay
  obtain ⟨hsettled, hkeyed⟩ := bare_settled exchange configured options
  have hrequests : f.requests = ((confirmed :: f₀.additions steps).flatMap exchange.asked).map
      exchange.subscriptionFrames := (hall.requests hsettled).2
  -- The symbols in the table: those of the opening, without repetitions, and the later ones.
  have hkeys : f.subscribed.keys =
      ((bare exchange configured options).register confirmed).2.map Pair.symbol ++
        (f₀.additions steps).flatten.map Pair.symbol := by
    rw [hall.keys, List.map_append]
    rfl
  have hsymbols := (hall.keyed hkeyed).symbols.trans hkeys
  have hnodup := hkeys ▸ (hall.keyed hkeyed).nodup
  have hsame : ∀ symbol, symbol ∈ ((bare exchange configured options).register confirmed).2.map
      Pair.symbol ↔ symbol ∈ confirmed.map Pair.symbol := mem_register_bare confirmed
  have hparts : (((confirmed :: f₀.additions steps).flatMap exchange.asked).flatten.map
      Pair.symbol) = confirmed.map Pair.symbol ++ (f₀.additions steps).flatten.map Pair.symbol := by
    rw [flatten_flatMap_asked hrequest, List.flatten_cons, List.map_append]
  refine ⟨confirmed, _, hconfirmed, rfl, ?_, fun symbol => ?_, ?_, fun hlimit => ?_⟩
  · exact hrequests
  · rw [hparts, count_append_eq hnodup hsame]
    refine if_congr ?_ rfl rfl
    rw [isSubscribed, Table.has_iff_mem_keys, hkeys]
  · rw [hparts, hsymbols]
    exact perm_append_iff_nodup hnodup hsame
  · have hcount : f.controller.count = (confirmed.map Pair.symbol ++
        (f₀.additions steps).flatten.map Pair.symbol).length := by
      rw [← length_requests, hrequests, ← hparts, List.length_map, List.length_map,
        flatten_flatMap_asked hrequest, length_flatMap_asked_one hrequest hlimit]
    have hvalues := congrArg List.length hsymbols
    rw [List.length_map] at hvalues
    rw [hcount, hvalues]
    exact length_append_eq_iff_nodup hnodup hsame

end Open

/-- Coinbase with one pair for each connection. -/
def onePairEach : Exchange := { Exchange.coinbase with maxPairsPerConnection := some 1 }

/-- A listing of two pairs. -/
def twoPairsListing : Listing := .ok (coinbaseListing [.of "atom" "usdt", .of "osmo" "usdt"])

/-- A pair that a subscription names twice is asked for once. -/
theorem open_run_requests_named_twice :
    ∃ f₀ f,
      (open? onePairEach none .default [.of "atom" "usdt"] twoPairsListing).result = .ok f₀ ∧
      f₀.run [.subscribe [.of "osmo" "usdt", .of "OSMO" "usdt"] twoPairsListing] = .ok f ∧
      f.controller.count = f.subscribed.values.length := by
  have hall : ((open? onePairEach none .default [.of "atom" "usdt"]
      twoPairsListing).result.toOption.bind fun f₀ =>
        (f₀.run [.subscribe [.of "osmo" "usdt", .of "OSMO" "usdt"]
          twoPairsListing]).toOption.map fun _ =>
            ((bare onePairEach none .default).confirm [.of "atom" "usdt"]
              twoPairsListing).result.toOption) = some (some [.of "atom" "usdt"]) := by
    simp only [twoPairsListing, coinbaseListing, Json.ascii_render]
    decide
  obtain ⟨f₀, hopen, hrest⟩ := Option.bind_eq_some_iff.mp hall
  obtain ⟨f, hrun, hconfirm⟩ := Option.map_eq_some_iff.mp hrest
  rw [toOption_eq_some] at hopen hrun hconfirm
  obtain ⟨confirmed, -, hconfirmed, -, -, -, -, hcount⟩ :=
    open_run_requests hopen rfl hrun (by simp)
  obtain rfl := Except.ok.inj (hconfirm.symm.trans hconfirmed)
  exact ⟨f₀, f, hopen, hrun, (hcount rfl).mpr (by simp)⟩

/-- A pair that a feed opens with twice is asked for twice, over two connections, and is one
subscribed pair. -/
theorem requests_repeated :
    ∃ f,
      (open? onePairEach none .default [.of "atom" "usdt", .of "atom" "usdt"]
        twoPairsListing).result = .ok f ∧
      f.requests = [onePairEach.subscriptionFrames [.of "atom" "usdt"],
        onePairEach.subscriptionFrames [.of "atom" "usdt"]] ∧
      f.controller.count = 2 ∧ f.subscribed.values = [.of "atom" "usdt"] := by
  have hall : ((open? onePairEach none .default [.of "atom" "usdt", .of "atom" "usdt"]
      twoPairsListing).result.toOption.map fun f =>
        (f.requests, f.controller.count, f.subscribed.values)) =
      some ([onePairEach.subscriptionFrames [.of "atom" "usdt"],
        onePairEach.subscriptionFrames [.of "atom" "usdt"]], 2, [.of "atom" "usdt"]) := by
    simp only [twoPairsListing, coinbaseListing, Json.ascii_render]
    decide
  obtain ⟨f, hopen, hstate⟩ := Option.map_eq_some_iff.mp hall
  rw [toOption_eq_some] at hopen
  obtain ⟨hrequests, hcount⟩ := Prod.mk.inj hstate
  obtain ⟨hcount, hvalues⟩ := Prod.mk.inj hcount
  exact ⟨f, hopen, hrequests, hcount, hvalues⟩

end Feed

end MarketFeed
