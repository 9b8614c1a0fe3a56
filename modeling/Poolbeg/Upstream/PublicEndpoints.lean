import Poolbeg.Rpc.Handler
import Poolbeg.Supplement
import Poolbeg.Upstream.Strategy

/-!
# Upstreams from the public registry

The embedding of `upstream/public_endpoints.rs`. At startup a registry of public endpoints is
fetched, and every chain with `auto_public` gets those of its chain id as fallback upstreams.

## What is left out

A URL is left out when a configured upstream has it. The URLs it is compared with are collected
before the first one is added, so a URL that the registry lists twice is added twice: each of the
two is a new one (`resolveAutoPublic_iff`). On a second pass all of them are there, so the function
is idempotent even then. Comparing is by the text of the URL, and a trailing slash makes another
one.

## What is a parameter

What the registry has for a chain id is a `HashMap`, here a function of the id in decimal. How it is
fetched is not modelled, only how that may end: no client, no connection, a status that is no
success, a body that is not a registry, or a registry. In all cases but the last the chains stay as
they are, and the caller is told.

## Main definitions

* `UpstreamConfig`, `ConfiguredChain`, `EndpointsResponse`, `RegistryFetch` — the data
* `injectPublic`, `resolveAutoPublic` — the source
* `Resolved` — what the chains are to become
* `NewOnce` — the condition on the registry

## Main results

* `httpUrls_injectPublic` — the URLs of a chain are supplemented
* `injectPublic_injectPublic` — a second pass adds nothing
* `resolveAutoPublic_of_error` — when the registry cannot be had
* `resolveAutoPublic_iff` — when the chains become what they should
-/

namespace Poolbeg

open Supplement

structure UpstreamConfig where
  id : String
  role : UpstreamRole
  httpUrl : String
  wsUrl : Option String
  maxRps : UInt32

/-- A `ChainConfig` with what it says about the upstreams. -/
structure ConfiguredChain extends ChainConfig where
  autoPublic : Bool
  upstreams : List UpstreamConfig

structure ChainEndpoints where
  endpoints : List String

/-- The registry, by chain ids in decimal. -/
structure EndpointsResponse where
  chains : String → Option ChainEndpoints

/-- How fetching the registry ends; a status is one that is not a success. -/
inductive RegistryFetch
  | noClient
  | unreachable
  | status (status : String)
  | malformed
  | registry (registry : EndpointsResponse)

/-- `DEFAULT_PUBLIC_MAX_RPS`. -/
def defaultPublicMaxRps : UInt32 := 10

/-- The upstream for the endpoint with the number `i` of a chain. Numbers of endpoints that are left
out are left out as well. -/
def publicUpstream (chainId i : ℕ) (url : String) : UpstreamConfig where
  id := "auto-public-" ++ toString chainId ++ "-" ++ toString i
  role := .fallback
  httpUrl := url
  wsUrl := none
  maxRps := defaultPublicMaxRps

namespace ConfiguredChain

def httpUrls (chain : ConfiguredChain) : List String := chain.upstreams.map UpstreamConfig.httpUrl

/-- What the registry has for a chain. -/
def published (registry : EndpointsResponse) (chain : ConfiguredChain) : Option ChainEndpoints :=
  registry.chains (toString chain.chainId)

/-- The body of the loop over the endpoints. What has been pushed before is not looked at. -/
def pushEndpoint (chainId : ℕ) (existingUrls : List String) (upstreams : List UpstreamConfig)
    (endpoint : String × ℕ) : List UpstreamConfig :=
  if endpoint.1 ∈ existingUrls then upstreams
  else upstreams ++ [publicUpstream chainId endpoint.2 endpoint.1]

/-- What `resolve_auto_public` does to one chain. -/
def injectPublic (registry : EndpointsResponse) (chain : ConfiguredChain) : ConfiguredChain :=
  if chain.autoPublic then
    match chain.published registry with
    | none => chain
    | some entry => { chain with
        upstreams := entry.endpoints.zipIdx.foldl (pushEndpoint chain.chainId chain.httpUrls)
          chain.upstreams }
  else chain

end ConfiguredChain

open ConfiguredChain

/-- `resolve_auto_public`: the result, and what the chains have become. Without a chain that wants
them nothing is fetched. -/
def resolveAutoPublic (fetch : RegistryFetch) (chains : List ConfiguredChain) :
    Except String Unit × List ConfiguredChain :=
  if (chains.filter ConfiguredChain.autoPublic).isEmpty then (.ok (), chains)
  else
    match fetch with
    | .noClient => (.error "failed to build HTTP client for public endpoints", chains)
    | .unreachable => (.error "failed to fetch public endpoints registry", chains)
    | .status status => (.error ("public endpoints registry returned HTTP " ++ status), chains)
    | .malformed => (.error "failed to parse public endpoints JSON", chains)
    | .registry registry => (.ok (), chains.map (injectPublic registry))

/-! ### One chain -/

section Chain

variable {registry : EndpointsResponse} {chain : ConfiguredChain} {entry : ChainEndpoints}

/-- The loop adds an upstream for each endpoint that is new. -/
theorem foldl_pushEndpoint (chainId : ℕ) (existingUrls : List String)
    (endpoints : List (String × ℕ)) (upstreams : List UpstreamConfig) :
    endpoints.foldl (pushEndpoint chainId existingUrls) upstreams =
      upstreams ++ (endpoints.filter fun e => e.1 ∉ existingUrls).map fun e =>
        publicUpstream chainId e.2 e.1 := by
  induction endpoints generalizing upstreams with
  | nil => simp
  | cons e endpoints ih =>
    rw [List.foldl_cons, ih, pushEndpoint, List.filter_cons]
    by_cases he : e.1 ∈ existingUrls
    · simp [he]
    · simp [he]

/-- The endpoints of a chain that is to have them. -/
def ConfiguredChain.wanted (registry : EndpointsResponse) (chain : ConfiguredChain) : List String :=
  if chain.autoPublic then ((chain.published registry).map ChainEndpoints.endpoints).getD [] else []

/-- The upstreams that a chain gets. -/
def ConfiguredChain.added (registry : EndpointsResponse) (chain : ConfiguredChain) :
    List UpstreamConfig :=
  ((chain.wanted registry).zipIdx.filter fun e => e.1 ∉ chain.httpUrls).map fun e =>
    publicUpstream chain.chainId e.2 e.1

theorem injectPublic_eq (registry : EndpointsResponse) (chain : ConfiguredChain) :
    chain.injectPublic registry =
      { chain with upstreams := chain.upstreams ++ chain.added registry } := by
  have hnone : chain.wanted registry = [] →
      { chain with upstreams := chain.upstreams ++ chain.added registry } = chain := by
    intro hwanted
    rw [added, hwanted, List.zipIdx_nil, List.filter_nil, List.map_nil, List.append_nil]
  rw [injectPublic]
  split
  · rename_i hauto
    split
    · rename_i hentry
      exact (hnone (by rw [wanted, hentry, if_pos hauto]; rfl)).symm
    · rename_i entry hentry
      have hwanted : chain.wanted registry = entry.endpoints := by
        rw [wanted, hentry, if_pos hauto]
        rfl
      rw [foldl_pushEndpoint, added, hwanted]
  · rename_i hmanual
    exact (hnone (if_neg hmanual)).symm

theorem map_httpUrl_added (registry : EndpointsResponse) (chain : ConfiguredChain) :
    (chain.added registry).map UpstreamConfig.httpUrl =
      (chain.wanted registry).filter (· ∉ chain.httpUrls) := by
  conv_rhs => rw [← List.zipIdx_map_fst 0 (chain.wanted registry), List.filter_map]
  rw [added, List.map_map]
  rfl

/-- **The URLs of a chain are supplemented with the published ones.** -/
theorem httpUrls_injectPublic (registry : EndpointsResponse) (chain : ConfiguredChain) :
    (chain.injectPublic registry).httpUrls = supplement chain.httpUrls (chain.wanted registry) := by
  rw [injectPublic_eq, httpUrls, List.map_append, map_httpUrl_added]
  rfl

/-- What was configured stays in front. -/
theorem upstreams_prefix_injectPublic (registry : EndpointsResponse) (chain : ConfiguredChain) :
    chain.upstreams <+: (chain.injectPublic registry).upstreams := by
  rw [injectPublic_eq]
  exact List.prefix_append _ _

theorem injectPublic_of_added (h : chain.added registry = []) :
    chain.injectPublic registry = chain := by
  rw [injectPublic_eq, h, List.append_nil]

/-- A chain without `auto_public` is left as it is. -/
theorem injectPublic_of_manual (hmanual : chain.autoPublic = false) :
    chain.injectPublic registry = chain := by
  rw [injectPublic, hmanual]
  rfl

theorem wanted_injectPublic (registry : EndpointsResponse) (chain : ConfiguredChain) :
    (chain.injectPublic registry).wanted registry = chain.wanted registry := by
  rw [injectPublic_eq]
  rfl

/-- **A second pass adds nothing.** -/
theorem injectPublic_injectPublic (registry : EndpointsResponse) (chain : ConfiguredChain) :
    (chain.injectPublic registry).injectPublic registry = chain.injectPublic registry := by
  have hurls : ((chain.injectPublic registry).added registry).map UpstreamConfig.httpUrl = [] := by
    rw [map_httpUrl_added, wanted_injectPublic, httpUrls_injectPublic, List.filter_eq_nil_iff]
    exact fun url hurl hnot => of_decide_eq_true hnot (mem_supplement.mpr (.inr hurl))
  exact injectPublic_of_added (List.map_eq_nil_iff.mp hurls)

end Chain

/-! ### All chains -/

section Chains

variable {registry : EndpointsResponse} {chain : ConfiguredChain} {chains : List ConfiguredChain}

/-- When the registry cannot be had, the chains stay as they are, and the caller gets the message.
-/
theorem resolveAutoPublic_of_error {fetch : RegistryFetch} {message : String}
    (h : (resolveAutoPublic fetch chains).1 = .error message) :
    (resolveAutoPublic fetch chains).2 = chains := by
  unfold resolveAutoPublic at h ⊢
  split
  · rfl
  · rename_i hneeded
    rw [if_neg hneeded] at h
    cases fetch with
    | registry registry => cases h
    | _ => rfl

/-- With the registry, each chain is resolved by itself. -/
theorem resolveAutoPublic_registry (registry : EndpointsResponse) (chains : List ConfiguredChain) :
    resolveAutoPublic (.registry registry) chains =
      (.ok (), chains.map (injectPublic registry)) := by
  rw [resolveAutoPublic]
  split
  · rename_i hempty
    have hmanual := List.filter_eq_nil_iff.mp (List.isEmpty_iff.mp hempty)
    have hself : ∀ chain ∈ chains, injectPublic registry chain = chain :=
      fun chain hchain => injectPublic_of_manual (Bool.eq_false_iff.mpr (hmanual chain hchain))
    rw [List.map_congr_left hself, List.map_id']
  · rfl

/-- What a chain with `auto_public` becomes: its URLs are distinct, what was configured stays in
front, and it has every published URL once. -/
structure Injected (registry : EndpointsResponse) (chain chain' : ConfiguredChain) : Prop where
  distinct : chain'.httpUrls.Nodup
  kept : chain.upstreams <+: chain'.upstreams
  once : ∀ entry, chain.published registry = some entry →
    ∀ url ∈ entry.endpoints, chain'.httpUrls.count url = 1

/-- **What the chains become.** Those without `auto_public` stay as they are, the others are
injected, and doing it again changes nothing. -/
structure Resolved (registry : EndpointsResponse) (chains chains' : List ConfiguredChain) :
    Prop where
  chain : List.Forall₂ (fun chain chain' =>
    if chain.autoPublic then Injected registry chain chain' else chain' = chain) chains chains'
  again : (resolveAutoPublic (.registry registry) chains').2 = chains'

/-- What the registry has for a chain, and the chain has not, is there once. A URL the chain has may
be listed as often as one likes. -/
def NewOnce (registry : EndpointsResponse) (chain : ConfiguredChain) : Prop :=
  ∀ entry, chain.published registry = some entry →
    (entry.endpoints.filter (· ∉ chain.httpUrls)).Nodup

theorem wanted_of_published {entry : ChainEndpoints} (hauto : chain.autoPublic = true)
    (hentry : chain.published registry = some entry) :
    chain.wanted registry = entry.endpoints := by
  rw [wanted, if_pos hauto, hentry]
  rfl

theorem injected_iff (hauto : chain.autoPublic = true) (hdistinct : chain.httpUrls.Nodup) :
    Injected registry chain (chain.injectPublic registry) ↔ NewOnce registry chain := by
  constructor
  · intro h entry hentry
    have hurls := h.distinct
    rw [httpUrls_injectPublic, nodup_supplement_iff hdistinct,
      wanted_of_published hauto hentry] at hurls
    exact hurls
  · intro h
    have hnodup : (chain.injectPublic registry).httpUrls.Nodup := by
      rw [httpUrls_injectPublic, nodup_supplement_iff hdistinct]
      cases hentry : chain.published registry with
      | none => rw [wanted, if_pos hauto, hentry]; exact List.nodup_nil
      | some entry =>
        rw [wanted_of_published hauto hentry]
        exact h entry hentry
    refine ⟨hnodup, upstreams_prefix_injectPublic registry chain, fun entry hentry url hurl => ?_⟩
    refine List.count_eq_one_of_mem hnodup ?_
    rw [httpUrls_injectPublic, wanted_of_published hauto hentry]
    exact mem_supplement.mpr (.inr hurl)

theorem forall₂_map_iff {α : Type} {R : α → α → Prop} {f : α → α} {l : List α} :
    List.Forall₂ R l (l.map f) ↔ ∀ a ∈ l, R a (f a) := by
  rw [List.forall₂_map_right_iff, List.forall₂_same]

/-- **The chains become what they should exactly when the registry lists no URL twice that one of
them is to get.** -/
theorem resolveAutoPublic_iff (hdistinct : ∀ chain ∈ chains, chain.httpUrls.Nodup) :
    Resolved registry chains (resolveAutoPublic (.registry registry) chains).2 ↔
      ∀ chain ∈ chains, chain.autoPublic = true → NewOnce registry chain := by
  rw [resolveAutoPublic_registry]
  have hagain : (resolveAutoPublic (.registry registry) (chains.map (injectPublic registry))).2 =
      chains.map (injectPublic registry) := by
    rw [resolveAutoPublic_registry, List.map_map]
    exact List.map_congr_left fun chain _ => injectPublic_injectPublic registry chain
  have hchain : ∀ chain ∈ chains,
      ((if chain.autoPublic then Injected registry chain (chain.injectPublic registry)
        else chain.injectPublic registry = chain) ↔
          (chain.autoPublic = true → NewOnce registry chain)) := by
    intro chain hmem
    cases hauto : chain.autoPublic with
    | false => simp [injectPublic_of_manual hauto]
    | true => simp [injected_iff hauto (hdistinct chain hmem)]
  constructor
  · intro h chain hmem
    exact (hchain chain hmem).mp (forall₂_map_iff.mp h.chain chain hmem)
  · intro h
    exact ⟨forall₂_map_iff.mpr fun chain hmem => (hchain chain hmem).mpr (h chain hmem), hagain⟩

/-- A registry with these endpoints for the chain with the number one. -/
def registryOf (endpoints : List String) : EndpointsResponse :=
  ⟨fun key => if key = "1" then some ⟨endpoints⟩ else none⟩

/-- A chain with one upstream of its own. -/
def ownUpstreamChain : ConfiguredChain where
  chainId := 1
  finalityDepth := 64
  autoPublic := true
  upstreams := [{
    id := "existing", role := .primary, httpUrl := "https://example.com/rpc", wsUrl := none
    maxRps := 50 }]

theorem ownUpstreamChain_resolved :
    Resolved (registryOf ["https://a.com", "https://example.com/rpc", "https://b.com"])
      [ownUpstreamChain] (resolveAutoPublic
        (.registry (registryOf ["https://a.com", "https://example.com/rpc", "https://b.com"]))
        [ownUpstreamChain]).2 := by
  have hdistinct : ∀ chain ∈ [ownUpstreamChain], chain.httpUrls.Nodup :=
    List.forall_mem_singleton.mpr (by decide)
  refine (resolveAutoPublic_iff hdistinct).mpr
    (List.forall_mem_singleton.mpr fun _ entry hentry => ?_)
  obtain rfl := Option.some.inj hentry
  decide

/-- What the registry lists twice is there twice. -/
theorem listedTwice_addedTwice :
    (resolveAutoPublic (.registry (registryOf ["https://a.com", "https://a.com"]))
        [ownUpstreamChain]).2.map httpUrls =
        [["https://example.com/rpc", "https://a.com", "https://a.com"]] ∧
      ¬ Resolved (registryOf ["https://a.com", "https://a.com"]) [ownUpstreamChain]
        (resolveAutoPublic (.registry (registryOf ["https://a.com", "https://a.com"]))
          [ownUpstreamChain]).2 := by
  refine ⟨by decide, fun h => ?_⟩
  have hinjected := forall₂_map_iff.mp h.chain ownUpstreamChain List.mem_cons_self
  exact absurd ((if_pos rfl).mp hinjected).distinct (by decide)

end Chains

end Poolbeg
