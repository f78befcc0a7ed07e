import MarketFeed.Market.Json
import MarketFeed.Proofs.Json.Data

/-!
# Price records are read back

Pairs, tickers, candles, trades and endpoints are read back from what they are written as: with any
characters in their texts, any integer of 64 bits as their time and any decimal, whose scale is kept
too. The order of the fields does not count, nor do fields of other names, and an endpoint without a
key may be given without the field for it.

* `Pair.data` to `Endpoint.data`: records as data.
* `Pair.determines` to `Endpoint.determines`: records are built from their fields.
* `records_comeBack`: records are read back.
-/

namespace MarketFeed

open Json

/-! ## Records as data -/

/-- A pair as data. -/
def Pair.data (p : Pair) : Fields := [("base", .text p.base), ("quote", .text p.quote)]

/-- A ticker as data. -/
def Ticker.data (t : Ticker) : Fields :=
  [("price", .decimal t.price), ("volume", .decimal t.volume)]

/-- A candle as data. -/
def Candle.data (c : Candle) : Fields :=
  [("price", .decimal c.price), ("volume", .decimal c.volume), ("timestamp", .int64 c.timestamp)]

/-- A trade as data. -/
def Trade.data (t : Trade) : Fields :=
  [("symbol", .text t.symbol), ("timestamp", .int64 t.timestamp), ("size", .decimal t.size),
    ("price", .decimal t.price)]

/-- An endpoint as data, without its key. -/
def Endpoint.keylessData (e : Endpoint) : Fields :=
  [("name", .provider e.provider), ("rest", .text e.rest), ("websocket", .text e.websocket)]

/-- An endpoint as data. -/
def Endpoint.data (e : Endpoint) : Fields := e.keylessData ++ [("api_key", .optionalText e.apiKey)]

/-- An endpoint as a JSON object, without its key. -/
def Endpoint.keylessJson (e : Endpoint) : Value :=
  .object [("name", .string e.provider.name), ("rest", .string e.rest),
    ("websocket", .string e.websocket)]

/-- An endpoint is written as its data. -/
theorem Endpoint.written_data (e : Endpoint) : Value.object e.data.written = e.toJson := by
  obtain ⟨_, _, _, _ | _⟩ := e <;> rfl

/-! ## Records of fields -/

theorem Pair.determines : Pair.shape.Determines Pair.ofFields? := by
  intro fields data h
  simp only [Pair.shape, List.forall_mem_cons] at h
  obtain ⟨hbase, hquote, -⟩ := h
  simp only [Pair.ofFields?, Fields.text?, hbase, hquote]

theorem Ticker.determines : Ticker.shape.Determines Ticker.ofFields? := by
  intro fields data h
  simp only [Ticker.shape, List.forall_mem_cons] at h
  obtain ⟨hprice, hvolume, -⟩ := h
  simp only [Ticker.ofFields?, Fields.decimal?, hprice, hvolume]

theorem Candle.determines : Candle.shape.Determines Candle.ofFields? := by
  intro fields data h
  simp only [Candle.shape, List.forall_mem_cons] at h
  obtain ⟨hprice, hvolume, htimestamp, -⟩ := h
  simp only [Candle.ofFields?, Fields.decimal?, Fields.int64?, hprice, hvolume, htimestamp]

theorem Trade.determines : Trade.shape.Determines Trade.ofFields? := by
  intro fields data h
  simp only [Trade.shape, List.forall_mem_cons] at h
  obtain ⟨hsymbol, htimestamp, hsize, hprice, -⟩ := h
  simp only [Trade.ofFields?, Fields.text?, Fields.int64?, Fields.decimal?, hsymbol, htimestamp,
    hsize, hprice]

theorem Endpoint.determines : Endpoint.shape.Determines Endpoint.ofFields? := by
  intro fields data h
  simp only [Endpoint.shape, List.forall_mem_cons] at h
  obtain ⟨hname, hrest, hwebsocket, hkey, -⟩ := h
  simp only [Endpoint.ofFields?, Fields.provider?, Fields.text?, Fields.optionalText, hname, hrest,
    hwebsocket, hkey]

/-! ## Reading back -/

theorem Pair.comesBack (p : Pair) : ComesBack Pair.shape Pair.readJson p.toJson p := by
  have hadmits : Pair.shape.Admits p.data.kinds :=
    show Pair.shape.Admits [("base", .text), ("quote", .text)] by decide
  exact comesBack_of_data hadmits Pair.determines rfl

theorem Ticker.comesBack (t : Ticker) : ComesBack Ticker.shape Ticker.readJson t.toJson t := by
  have hadmits : Ticker.shape.Admits t.data.kinds :=
    show Ticker.shape.Admits [("price", .decimal), ("volume", .decimal)] by decide
  exact comesBack_of_data hadmits Ticker.determines rfl

theorem Candle.comesBack (c : Candle) : ComesBack Candle.shape Candle.readJson c.toJson c := by
  have hadmits : Candle.shape.Admits c.data.kinds :=
    show Candle.shape.Admits [("price", .decimal), ("volume", .decimal), ("timestamp", .int64)] by
      decide
  exact comesBack_of_data hadmits Candle.determines rfl

theorem Trade.comesBack (t : Trade) : ComesBack Trade.shape Trade.readJson t.toJson t := by
  have hadmits : Trade.shape.Admits t.data.kinds :=
    show Trade.shape.Admits
      [("symbol", .text), ("timestamp", .int64), ("size", .decimal), ("price", .decimal)] by decide
  exact comesBack_of_data hadmits Trade.determines rfl

theorem Endpoint.comesBack (e : Endpoint) :
    ComesBack Endpoint.shape Endpoint.readJson e.toJson e := by
  have hadmits : Endpoint.shape.Admits e.data.kinds :=
    show Endpoint.shape.Admits [("name", .provider), ("rest", .text), ("websocket", .text),
      ("api_key", .optionalText)] by decide
  rw [← e.written_data]
  exact comesBack_of_data hadmits Endpoint.determines rfl

/-- An endpoint without a key is read back from a text that does not have the field for it. -/
theorem Endpoint.comesBack_keyless (e : Endpoint) : ComesBack Endpoint.shape Endpoint.readJson
    e.keylessJson { e with apiKey := none } := by
  have hadmits : Endpoint.shape.Admits e.keylessData.kinds :=
    show Endpoint.shape.Admits [("name", .provider), ("rest", .text), ("websocket", .text)] by
      decide
  exact comesBack_of_data hadmits Endpoint.determines rfl

/-- **Records are read back** from what they are written as, from every object text that has the
same entries in another order among members of other names, and an endpoint without a key also
where the field for it is left out. -/
theorem records_comeBack :
    (∀ p : Pair, ComesBack Pair.shape Pair.readJson p.toJson p) ∧
      (∀ t : Ticker, ComesBack Ticker.shape Ticker.readJson t.toJson t) ∧
      (∀ c : Candle, ComesBack Candle.shape Candle.readJson c.toJson c) ∧
      (∀ t : Trade, ComesBack Trade.shape Trade.readJson t.toJson t) ∧
      (∀ e : Endpoint, ComesBack Endpoint.shape Endpoint.readJson e.toJson e) ∧
      ∀ e : Endpoint, ComesBack Endpoint.shape Endpoint.readJson e.keylessJson
        { e with apiKey := none } :=
  ⟨Pair.comesBack, Ticker.comesBack, Candle.comesBack, Trade.comesBack, Endpoint.comesBack,
    Endpoint.comesBack_keyless⟩

/-- An endpoint whose texts need escapes, with its fields from the last one to the first, between
members of other names. -/
theorem records_comeBack_escaped :
    let e : Endpoint := ⟨.osmosisV2, "https://a\"b\\c", "\u0000é𝄞\n", some ""⟩
    let entries := ("Name", .null) :: (e.toJson.entries.reverse ++
      [("retries", .array [.string "]\""])])
    Endpoint.readJson (Text.encode (Value.object entries).render) = .ok e := by
  intro e entries
  have hvalues : ∀ x ∈ entries, IsValue x.2.octets := by
    have hfits : ∀ x ∈ entries, x.2.Fits 1 := by
      simp only [entries, e, Endpoint.toJson, Value.entries, List.reverse_cons, List.reverse_nil,
        List.nil_append, List.cons_append, List.forall_mem_cons]
      exact ⟨.null, .string _, .string _, .string _, .string _,
        .array (List.forall_mem_singleton.mpr (.string _)), List.forall_mem_nil _⟩
    exact fun x hx => (hfits x hx).isValue
  have hknown : entries.filter (fun x => (Endpoint.shape.field? x.1).isSome) =
      e.toJson.entries.reverse := rfl
  have hperm := (List.Perm.of_eq hknown).trans (List.reverse_perm _)
  rw [encode_render, ← ObjectText.octets_ofEntries hvalues]
  exact (records_comeBack.2.2.2.2.1 e).rearranged _ (holds_ofEntries hvalues hperm)

end MarketFeed
