import MarketFeed.Exchange.Coinbase
import MarketFeed.Proofs.Json.RoundTrip

/-!
# What a subscription asks for

The message that subscribes to some pairs is one JSON object, whatever characters the names of the
pairs have: a quote or a backslash in a name ends nothing, and begins nothing. So the message means
its products, in their order, and nothing else.

* `Coinbase.request`: the object that a subscription to some products is.
* `Coinbase.read_subscription`: a subscription is read as that object.
* `Exchange.coinbase_subscriptionFrames`: one message for each list of pairs, the same one only
  where their spellings are the same.
-/

namespace MarketFeed

open Json

namespace Coinbase

/-- What a subscription to some products means, with its members in the order of their names. -/
def request (products : List String) : Value :=
  .object [("channels", .array [.string "matches", .string "ticker"]),
    ("product_ids", .array (products.map .string)), ("type", .string "subscribe")]

theorem request_inj {products others : List String} (h : request products = request others) :
    products = others := by
  simp only [request, Value.object.injEq, List.cons.injEq, Prod.mk.injEq, Value.array.injEq,
    true_and, and_true] at h
  exact (List.map_injective_iff.mpr fun s t hst => Value.string.inj hst) h

theorem sortedItems_strings (ss : List String) :
    sortedItems (ss.map .string) = ss.map .string := by
  induction ss with
  | nil => rfl
  | cons s ss ih => rw [List.map_cons, sortedItems, ih, Value.sorted]

/-- A subscription depends on the pairs through their spellings alone. -/
theorem subscription_eq (pairs : List Pair) :
    subscription pairs = .object [("type", .string "subscribe"),
      ("product_ids", .array ((pairs.map Exchange.coinbase.wireSymbol).map .string)),
      ("channels", .array [.string "matches", .string "ticker"])] := by
  rw [subscription, List.map_map]
  rfl

theorem sorted_subscription (pairs : List Pair) :
    (subscription pairs).sorted = request (pairs.map Exchange.coinbase.wireSymbol) := by
  rw [subscription_eq]
  simp only [Value.sorted, sortedValues, sortedItems_strings]
  rfl

theorem fits_subscription (pairs : List Pair) : (subscription pairs).Fits 2 := by
  refine .object fun e he => ?_
  simp only [List.mem_cons, List.not_mem_nil, or_false] at he
  rcases he with rfl | rfl | rfl
  · exact .string _
  · refine .array fun v hv => ?_
    obtain ⟨p, -, rfl⟩ := List.mem_map.mp hv
    exact .string _
  · refine .array fun v hv => ?_
    simp only [List.mem_cons, List.not_mem_nil, or_false] at hv
    rcases hv with rfl | rfl <;> exact .string _

theorem read_subscription (pairs : List Pair) :
    Value.read (Text.encode (subscription pairs).render) =
      .ok (request (pairs.map Exchange.coinbase.wireSymbol)) := by
  rw [read_render (fits_subscription pairs) (by decide), sorted_subscription]

end Coinbase

/-- **A subscription says exactly what was asked for.** It is one message with three members, which
is read as the object with the spellings of the pairs in their order; the messages for two lists of
pairs are the same if and only if the spellings are. -/
theorem Exchange.coinbase_subscriptionFrames (pairs : List Pair) :
    ∃ frame, coinbase.subscriptionFrames pairs = [frame] ∧
      (∃ text : ObjectText, text.octets = Text.encode frame ∧
        text.members.map Member.name = ["type", "product_ids", "channels"]) ∧
      Value.read (Text.encode frame) = .ok (.object [
        ("channels", .array [.string "matches", .string "ticker"]),
        ("product_ids", .array (pairs.map fun p => .string (coinbase.wireSymbol p))),
        ("type", .string "subscribe")]) ∧
      ∀ others, coinbase.subscriptionFrames others = [frame] ↔
        others.map coinbase.wireSymbol = pairs.map coinbase.wireSymbol := by
  refine ⟨(Coinbase.subscription pairs).render, rfl, ?_, ?_, fun others =>
    ⟨fun h => ?_, fun h => ?_⟩⟩
  · rw [encode_render]
    exact (Coinbase.fits_subscription pairs).exists_objectText
  · rw [Coinbase.read_subscription, Coinbase.request, List.map_map]
    rfl
  · have hframe : (Coinbase.subscription others).render = (Coinbase.subscription pairs).render :=
      List.singleton_inj.mp h
    have hothers := Coinbase.read_subscription others
    rw [hframe, Coinbase.read_subscription] at hothers
    exact (Coinbase.request_inj (Except.ok.inj hothers)).symm
  · have hframe : Coinbase.subscription others = Coinbase.subscription pairs := by
      rw [Coinbase.subscription_eq, Coinbase.subscription_eq, h]
    exact congrArg (fun v : Value => [v.render]) hframe

/-- A quote in the name of a pair does not end its spelling. -/
example : (Coinbase.subscription [⟨"A\",\"B", "C\\"⟩]).render =
    "\x7b\"type\":\"subscribe\",\"product_ids\":[\"A\\\",\\\"B-C\\\\\"]," ++
      "\"channels\":[\"matches\",\"ticker\"]\x7d" := by decide

end MarketFeed
