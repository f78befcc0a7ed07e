import Mathlib.Data.List.Induction
import Mathlib.Tactic.SplitIfs
import MarketFeed.Proofs.Config.Providers
import MarketFeed.Proofs.Config.Retention

/-!
# Nothing falls back behind a validated configuration

What is read off a configuration passes over unknown providers, takes the built-in endpoint where
none is given and the default policy where the mode is unknown. A configuration that is not refused
leaves no occasion for any of these.

* `PairSection.validate_eq_ok_iff`, `EndpointSection.validate_eq_ok_iff`: the sections that pass.
* `Config.lookup_endpointOverrides`: the endpoint of a provider is the last one given for it.
* `ReconnectSection.Configures`: the policy that a section means.
* `Config.validated_without_fallback`: what validation is good for.
-/

namespace MarketFeed

/-- A check of all elements passes if each of them passes. -/
theorem forM_eq_ok {ε α : Type} {check : α → Except ε Unit} {xs : List α} :
    xs.forM check = .ok () ↔ ∀ x ∈ xs, check x = .ok () := by
  induction xs with
  | nil => exact iff_of_true rfl (by simp)
  | cons x xs ih =>
    rw [List.forM, bind_eq_ok, List.forall_mem_cons, ← ih]
    exact ⟨fun ⟨(), hx, hxs⟩ => ⟨hx, hxs⟩, fun ⟨hx, hxs⟩ => ⟨(), hx, hxs⟩⟩

/-! ## Pairs -/

/-- A pair passes if it has both names, and providers that are all known. -/
theorem PairSection.validate_eq_ok_iff {s : PairSection} :
    s.validate = .ok () ↔ Text.isAllBlank s.base = false ∧ Text.isAllBlank s.quote = false ∧
      s.providers ≠ [] ∧
      ∀ name ∈ s.providers, ∃ p : Provider, Text.spells name p.name = true := by
  have hknown : (s.providers.find? fun name => !isProviderName name) = none ↔
      ∀ name ∈ s.providers, ∃ p : Provider, Text.spells name p.name = true := by
    simp [List.find?_eq_none, isProviderName_iff]
  unfold validate
  split_ifs with hblank hempty
  · refine iff_of_false (by simp) fun ⟨hbase, hquote, _⟩ => ?_
    simp [hbase, hquote] at hblank
  · simp [List.isEmpty_iff.mp hempty]
  · obtain ⟨hbase, hquote⟩ : Text.isAllBlank s.base = false ∧ Text.isAllBlank s.quote = false := by
      simpa using hblank
    have hne : s.providers ≠ [] := fun h => hempty (List.isEmpty_iff.mpr h)
    rw [← hknown]
    cases s.providers.find? fun name => !isProviderName name <;> simp [hbase, hquote, hne]

/-! ## Endpoints -/

namespace EndpointSection

/-- A section is for a provider, named in any letter case. -/
def IsFor (s : EndpointSection) (p : Provider) : Prop := Text.spells s.name p.name = true

instance (s : EndpointSection) (p : Provider) : Decidable (s.IsFor p) :=
  inferInstanceAs (Decidable (Text.spells s.name p.name = true))

/-- The addresses of a section as the endpoint of a provider. -/
def asEndpoint (s : EndpointSection) (p : Provider) : Endpoint :=
  ⟨p, s.rest, s.websocket, s.apiKey⟩

/-- An endpoint passes if it is for a known provider and has both addresses. -/
theorem validate_eq_ok_iff {s : EndpointSection} :
    s.validate = .ok () ↔ (∃ p, s.IsFor p) ∧ Text.isAllBlank s.rest = false ∧
      Text.isAllBlank s.websocket = false := by
  unfold validate IsFor
  rw [← isProviderName_iff]
  split_ifs with hname hblank
  · exact iff_of_false (by simp) fun ⟨hknown, _⟩ => by simp [hknown] at hname
  · refine iff_of_false (by simp) fun ⟨_, hrest, hwebsocket⟩ => ?_
    simp [hrest, hwebsocket] at hblank
  · simpa using ⟨by simpa using hname, by simpa using hblank⟩

theorem endpoint?_eq_some_iff {s : EndpointSection} {e : Endpoint} :
    s.endpoint? = some e ↔ ∃ p, s.IsFor p ∧ e = s.asEndpoint p := by
  simp only [endpoint?, Option.map_eq_some_iff, Provider.ofName?_eq_some_iff, IsFor, asEndpoint,
    @eq_comm _ e]

end EndpointSection

theorem lookup_setEndpoint (p q : Provider) (e : Endpoint)
    (overrides : List (Provider × Endpoint)) :
    (setEndpoint p e overrides).lookup q = if q = p then some e else overrides.lookup q := by
  induction overrides with
  | nil => exact lookup_cons_eq_ite p q e []
  | cons override rest ih =>
    obtain ⟨r, old⟩ := override
    simp only [setEndpoint]
    by_cases hr : p = r
    · subst hr
      by_cases h : q = p <;> simp [lookup_cons_eq_ite, h]
    · rw [if_neg hr, lookup_cons_eq_ite, lookup_cons_eq_ite, ih]
      by_cases h : q = r
      · simp [h, Ne.symm hr]
      · simp [h]

namespace Config

/-- The last endpoint that is given for a provider. -/
def lastEndpoint? (c : Config) (p : Provider) : Option EndpointSection :=
  (c.endpoints.filter (·.IsFor p)).getLast?

/-- **The endpoint of a provider** is the last one that is given for it. The sections are gone
through from the first to the last, so the induction is on them from their end. -/
theorem lookup_endpointOverrides (c : Config) (p : Provider) :
    c.endpointOverrides.lookup p = (c.lastEndpoint? p).map (·.asEndpoint p) := by
  obtain ⟨-, sections, -, -, -⟩ := c
  simp only [endpointOverrides, lastEndpoint?]
  induction sections using List.reverseRecOn with
  | nil => rfl
  | append_singleton sections s ih =>
    rw [List.filterMap_append, List.foldl_append, List.filter_append]
    cases hs : s.endpoint? with
    | none =>
      have hnot : ¬ s.IsFor p := fun h => by
        simpa [hs] using EndpointSection.endpoint?_eq_some_iff.mpr ⟨p, h, rfl⟩
      simpa [hs, hnot] using ih
    | some e =>
      -- the new section is the last one for its own provider, and none for any other
      obtain ⟨q, hq, rfl⟩ := EndpointSection.endpoint?_eq_some_iff.mp hs
      have hfor : s.IsFor p ↔ p = q :=
        ⟨fun h => Provider.name_inj (Text.eq_of_spells h hq), fun h => h ▸ hq⟩
      simp only [List.filterMap_cons, hs, List.filterMap_nil, List.foldl_cons, List.foldl_nil,
        lookup_setEndpoint, ih]
      by_cases h : p = q
      · subst h
        simp [EndpointSection.asEndpoint, hq]
      · simp [EndpointSection.asEndpoint, mt hfor.mp h, h]

theorem exists_lastEndpoint {c : Config} {s : EndpointSection} {p : Provider}
    (hs : s ∈ c.endpoints) (hp : s.IsFor p) : ∃ last, c.lastEndpoint? p = some last := by
  refine Option.ne_none_iff_exists'.mp fun hnone => ?_
  have hnot := List.filter_eq_nil_iff.mp (List.getLast?_eq_none_iff.mp hnone) s hs
  exact hnot (decide_eq_true hp)

end Config

/-- An endpoint that is configured for an exchange takes the place of the built-in one. -/
theorem Exchange.resolveEndpoint_asEndpoint (e : Exchange) (s : EndpointSection) :
    e.resolveEndpoint (some (s.asEndpoint e.provider)) = s.asEndpoint e.provider :=
  if_pos rfl

/-! ## Reconnecting -/

/-- The policy that a section means: that of its mode, in any letter case, with its delays. -/
inductive ReconnectSection.Configures (r : ReconnectSection) : ReconnectPolicy → Prop
  | immediate (h : Text.spells r.mode "immediate" = true) : r.Configures .immediate
  | fixed (h : Text.spells r.mode "fixed" = true) : r.Configures (.fixed r.baseDelay.toNat)
  | backoff (h : Text.spells r.mode "backoff" = true) :
    r.Configures (.backoff r.baseDelay.toNat r.maxDelay.toNat)

theorem ReconnectSection.policy?_eq_some_iff {r : ReconnectSection} {policy : ReconnectPolicy} :
    r.policy? = some policy ↔ r.Configures policy := by
  have honly : ∀ {word other : String}, word ≠ other → Text.spells r.mode word = true →
      ¬ Text.spells r.mode other = true :=
    fun hne hword hother => hne (Text.eq_of_spells hword hother)
  constructor
  · intro h
    unfold policy? at h
    split_ifs at h with himmediate hfixed hbackoff <;> obtain rfl := Option.some.inj h
    · exact .immediate himmediate
    · exact .fixed hfixed
    · exact .backoff hbackoff
  · rintro (himmediate | hfixed | hbackoff)
    · exact if_pos himmediate
    · rw [policy?, if_neg (honly (by decide) hfixed), if_pos hfixed]
    · rw [policy?, if_neg (honly (by decide) hbackoff), if_neg (honly (by decide) hbackoff),
        if_pos hbackoff]

theorem ConnectionSection.exists_stallMillis_iff {s : ConnectionSection} :
    (∃ stall, s.stallMillis = .ok stall) ↔
      s.stallTimeout ≠ 0 ∨ 2 * s.pingInterval.toNat < UInt64.size := by
  unfold stallMillis
  split_ifs with hstall hping
  · exact iff_of_true ⟨_, rfl⟩ (.inr hping)
  · exact iff_of_false (by simp) (by simp [hstall, hping])
  · exact iff_of_true ⟨_, rfl⟩ (.inl hstall)

/-- The settings of a connection have the policy that its section means. -/
theorem ConnectionSection.settings_eq {s : ConnectionSection} {policy : ReconnectPolicy}
    (h : s.reconnect.Configures policy) :
    s.settings = s.stallMillis.map fun stall => ⟨millis s.pingInterval, stall, policy⟩ := by
  rw [settings, ReconnectSection.policy?_eq_some_iff.mpr h]
  cases s.stallMillis <;> rfl

/-! ## Validated configurations -/

namespace Config

/-- **A validated configuration falls back on nothing.** There are pairs, and each one is found
under every provider that its section names; the endpoint of a provider is the last one that is
given for it, and takes the place of the built-in one; connections have the policy that is
configured, wherever they have settings at all: the time that they may be silent has to be a
duration. -/
theorem validated_without_fallback {c : Config} (h : c.validate = .ok ()) :
    c.providerPairs ≠ [] ∧
    (∀ s ∈ c.pairs, s.providers ≠ [] ∧ ∀ name ∈ s.providers, ∃ p pairs,
      Text.spells name p.name = true ∧ c.providerPairs.lookup p = some pairs ∧ s.pair ∈ pairs) ∧
    (∀ p, c.endpointOverrides.lookup p = (c.lastEndpoint? p).map (·.asEndpoint p)) ∧
    (∀ s ∈ c.endpoints, ∃ p last, s.IsFor p ∧ c.lastEndpoint? p = some last ∧
      ∀ exchange : Exchange, exchange.provider = p →
        exchange.resolveEndpoint (c.endpointOverrides.lookup exchange.provider) =
          last.asEndpoint p) ∧
    ∃ policy, c.connection.reconnect.Configures policy ∧
      (c.connection.settings = c.connection.stallMillis.map fun stall =>
        ⟨millis c.connection.pingInterval, stall, policy⟩) ∧
      ((∃ stall, c.connection.stallMillis = .ok stall) ↔ c.connection.stallTimeout ≠ 0 ∨
        2 * c.connection.pingInterval.toNat < UInt64.size) := by
  obtain ⟨hsome, hpairs, hendpoints, -, hmode, -⟩ := validate_eq_ok_iff.mp h
  have hgroup : ∀ s ∈ c.pairs, s.providers ≠ [] ∧ ∀ name ∈ s.providers, ∃ p pairs,
      Text.spells name p.name = true ∧ c.providerPairs.lookup p = some pairs ∧
        s.pair ∈ pairs := by
    intro s hs
    obtain ⟨-, -, hne, hknown⟩ := PairSection.validate_eq_ok_iff.mp (forM_eq_ok.mp hpairs s hs)
    refine ⟨hne, fun name hname => ?_⟩
    obtain ⟨p, hp⟩ := hknown name hname
    have hpair : s.pair ∈ c.pairsNaming p := mem_pairsNaming.mpr ⟨s, hs, ⟨name, hname, hp⟩, rfl⟩
    refine ⟨p, (c.pairsNaming p).eraseDups, hp, ?_, List.mem_eraseDups.mpr hpair⟩
    rw [lookup_providerPairs]
    exact if_neg (List.ne_nil_of_mem hpair)
  refine ⟨?_, hgroup, lookup_endpointOverrides c, fun s hs => ?_, ?_⟩
  · obtain ⟨s, hs⟩ := List.exists_mem_of_ne_nil c.pairs fun hnil => by simp [hnil] at hsome
    obtain ⟨hne, hnames⟩ := hgroup s hs
    obtain ⟨name, hname⟩ := List.exists_mem_of_ne_nil s.providers hne
    obtain ⟨p, pairs, -, hlookup, -⟩ := hnames name hname
    intro hnil
    rw [hnil] at hlookup
    cases hlookup
  · obtain ⟨⟨p, hp⟩, -⟩ :=
      EndpointSection.validate_eq_ok_iff.mp (forM_eq_ok.mp hendpoints s hs)
    obtain ⟨last, hlast⟩ := exists_lastEndpoint hs hp
    refine ⟨p, last, hp, hlast, ?_⟩
    rintro exchange rfl
    rw [lookup_endpointOverrides, hlast]
    exact exchange.resolveEndpoint_asEndpoint last
  · obtain ⟨policy, hpolicy⟩ := Option.isSome_iff_exists.mp (by simpa using hmode :
      c.connection.reconnect.policy?.isSome = true)
    have hconfigures := ReconnectSection.policy?_eq_some_iff.mp hpolicy
    exact ⟨policy, hconfigures, ConnectionSection.settings_eq hconfigures,
      ConnectionSection.exists_stallMillis_iff⟩

/-- A configuration that writes names and the mode in several letter cases, with two endpoints for
one provider. -/
def mixedCase : Config where
  pairs := [⟨"atom", "usdt", ["Coinbase", "OSMOSISV2"]⟩, ⟨"BTC", "usd", ["coinbase"]⟩]
  endpoints := [⟨"osmosisv2", "https://elsewhere.example.org", "elsewhere.example.org", none⟩,
    ⟨"OsmosisV2", "https://osmosis.example.org", "osmosis.example.org", some "key"⟩]
  connection := ⟨15, 0, ⟨"Fixed", 250, 4000⟩⟩
  candlePeriod := 900
  priceLogInterval := 30

/-- Its second endpoint is the one that counts, and its delay the one between attempts. -/
theorem validated_without_fallback_mixedCase :
    mixedCase.validate = .ok () ∧
    (∃ pairs, mixedCase.providerPairs.lookup .osmosisV2 = some pairs ∧
      Pair.of "atom" "usdt" ∈ pairs) ∧
    Exchange.osmosis.resolveEndpoint (mixedCase.endpointOverrides.lookup .osmosisV2) =
      ⟨.osmosisV2, "https://osmosis.example.org", "osmosis.example.org", some "key"⟩ ∧
    mixedCase.connection.settings = .ok ⟨15000, 30000, .fixed 250⟩ := by
  have hvalid : mixedCase.validate = .ok () := rfl
  obtain ⟨-, hpairs, -, hendpoints, policy, hpolicy, hsettings, -⟩ :=
    validated_without_fallback hvalid
  refine ⟨hvalid, ?_, ?_, ?_⟩
  · obtain ⟨p, pairs, hp, hlookup, hmem⟩ := (hpairs _ List.mem_cons_self).2 "OSMOSISV2" (by decide)
    obtain rfl : p = .osmosisV2 := Provider.name_inj (Text.eq_of_spells hp (by decide))
    exact ⟨pairs, hlookup, hmem⟩
  · obtain ⟨p, last, hp, hlast, hresolve⟩ := hendpoints _ List.mem_cons_self
    obtain rfl : p = .osmosisV2 := Provider.name_inj (Text.eq_of_spells hp (by decide))
    obtain rfl : (⟨"OsmosisV2", "https://osmosis.example.org", "osmosis.example.org", some "key"⟩ :
      EndpointSection) = last := Option.some.inj hlast
    exact hresolve .osmosis rfl
  · rw [hsettings]
    cases hpolicy with
    | immediate h => exact absurd h (by decide)
    | fixed => rfl
    | backoff h => exact absurd h (by decide)

end Config

end MarketFeed
