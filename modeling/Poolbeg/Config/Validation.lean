import Poolbeg.Config.Interpolation
import Poolbeg.Upstream.PublicEndpoints

/-!
# What the program starts with

`main` loads the configuration, resolves the chains with `auto_public` and runs the server. Loading
interpolates the environment, parses, and validates.

## What is validated

There have to be chains; each has an upstream or is to get some (`auto_public`); and their routes
begin with a slash and are distinct. Nothing else is looked at: two chains may have one name or one
chain id, a rate may be zero, and a chain may be put where the health check is.

Validation goes through the chains with a map of the routes it has seen, and stops at the first
offence. Which one that is, and what it is called, can be said without the map (`Offends`): there is
one offence at most for a chain after those before it, and the text names the chain, and the other
one too where both have one route.

## What is resolved

A chain with `auto_public` may be validated without an upstream, and then has none when the server
starts exactly if the registry has none for it. The registry is not asked where no chain has
`auto_public`. Where it is asked and cannot be had, the program does not start.

The parser is a parameter; of what it yields only the chains are looked at.

## Main definitions

* `NamedChain`, `validate`, `load`, `startUp` — as in the code
* `ValidChain`, `ValidChains`, `Offends` — what is valid, and what is wrong
* `StartedAs` — what is served of a chain that was configured

## Main results

* `checkChain_spec` — one turn of the loop
* `validate_eq_ok_iff`, `validate_eq_error_iff` — what is accepted, and what is said otherwise
* `load_spec` — the same of loading
* `startUp_spec` — what is served is what was configured, and more upstreams
-/

namespace Poolbeg

/-- A chain with its name and its route, which is all of it that validation reads beyond the
upstreams. -/
structure NamedChain extends ConfiguredChain where
  name : String
  route : String

/-! ### As in the code -/

/-- The body of the loop of `validate`, with the names by route. The map is read where it is
written: `insert` returns the name that was there. -/
def checkChain (routes : String → Option String) (chain : NamedChain) :
    Except String (String → Option String) :=
  if chain.upstreams = [] ∧ chain.autoPublic = false then
    .error ("chain '" ++ chain.name ++
      "' must have at least one upstream (or set auto_public: true)")
  else if chain.route.toList.head? ≠ some '/' then
    .error ("chain '" ++ chain.name ++ "' route must start with '/'")
  else
    match routes chain.route with
    | some existing =>
      .error ("duplicate route '" ++ chain.route ++ "' used by chains '" ++ existing ++ "' and '" ++
        chain.name ++ "'")
    | none => .ok (Function.update routes chain.route (some chain.name))

/-- The loop of `validate`. The first offence ends it. -/
def checkChains (routes : String → Option String) :
    List NamedChain → Except String (String → Option String)
  | [] => .ok routes
  | chain :: chains =>
    match checkChain routes chain with
    | .error e => .error e
    | .ok routes => checkChains routes chains

def validate (chains : List NamedChain) : Except String Unit :=
  if chains = [] then .error "at least one chain must be configured"
  else (checkChains (fun _ => none) chains).map fun _ => ()

/-- `Config::load`; reading the file may fail, and so may parsing. Interpolation does not. -/
def load (path : String) (env : Env) (parse : List Char → Option (List NamedChain))
    (raw : Option (List Char)) : Except String (List NamedChain) :=
  match raw with
  | none => .error ("failed to read config file: " ++ path)
  | some raw =>
    match parse (interpolateEnvVars env raw) with
    | none => .error "failed to parse config YAML"
    | some chains => (validate chains).map fun _ => chains

/-- What `main` does before the server runs. Loading may fail, and so may resolving, where the
registry is asked and cannot be had. -/
def startUp (path : String) (env : Env) (parse : List Char → Option (List NamedChain))
    (raw : Option (List Char)) (fetch : RegistryFetch) : Except String (List NamedChain) :=
  match load path env parse raw with
  | .error e => .error e
  | .ok chains =>
    match resolveAutoPublic fetch (chains.map NamedChain.toConfiguredChain) with
    | (.error e, _) => .error e
    | (.ok (), resolved) =>
      .ok (chains.zipWith (fun chain conf => { chain with toConfiguredChain := conf }) resolved)

/-! ### What is valid -/

/-- A chain by itself. -/
structure ValidChain (chain : NamedChain) : Prop where
  upstream : chain.upstreams = [] → chain.autoPublic = true
  route : chain.route.toList.head? = some '/'

/-- What is wrong with a chain, after those before it. Whoever offends in two ways is told the first
of them, in the order of the cases. -/
inductive Offends (before : List NamedChain) (chain : NamedChain) : String → Prop
  | noUpstream (hupstreams : chain.upstreams = []) (hmanual : chain.autoPublic = false) :
      Offends before chain ("chain '" ++ chain.name ++
        "' must have at least one upstream (or set auto_public: true)")
  | noPath (hupstream : chain.upstreams = [] → chain.autoPublic = true)
      (hroute : chain.route.toList.head? ≠ some '/') :
      Offends before chain ("chain '" ++ chain.name ++ "' route must start with '/'")
  | duplicate {existing : NamedChain} (hvalid : ValidChain chain) (hmem : existing ∈ before)
      (hroute : existing.route = chain.route) :
      Offends before chain ("duplicate route '" ++ chain.route ++ "' used by chains '" ++
        existing.name ++ "' and '" ++ chain.name ++ "'")

/-- Chains that can be served side by side. This is what validation is for. -/
structure ValidChains (chains : List NamedChain) : Prop where
  valid : ∀ chain ∈ chains, ValidChain chain
  distinct : (chains.map NamedChain.route).Nodup

variable {chains before pre post : List NamedChain} {chain : NamedChain} {e e' : String}
  {routes : String → Option String}

theorem ValidChains.not_offends (h : ValidChains (before ++ chain :: post)) :
    ¬ Offends before chain e := by
  have hvalid := h.valid chain (List.mem_append_right _ List.mem_cons_self)
  rintro (⟨hupstreams, hmanual⟩ | ⟨-, hroute⟩ | ⟨-, hmem, hroute⟩)
  · exact Bool.false_ne_true (hmanual.symm.trans (hvalid.upstream hupstreams))
  · exact hroute hvalid.route
  · have hdistinct := h.distinct
    rw [List.map_append, List.nodup_append] at hdistinct
    exact hdistinct.2.2 _ (List.mem_map_of_mem hmem) _ (by simp) hroute

/-- There is one offence at most, and one text for it. -/
theorem Offends.unique (hbefore : ValidChains before) (h : Offends before chain e)
    (h' : Offends before chain e') : e = e' := by
  cases h with
  | noUpstream hupstreams hmanual =>
    cases h' with
    | noUpstream => rfl
    | noPath hupstream => exact absurd ((hupstream hupstreams).symm.trans hmanual) (by simp)
    | duplicate hvalid => exact absurd ((hvalid.upstream hupstreams).symm.trans hmanual) (by simp)
  | noPath hupstream hroute =>
    cases h' with
    | noUpstream hupstreams hmanual =>
      exact absurd ((hupstream hupstreams).symm.trans hmanual) (by simp)
    | noPath => rfl
    | duplicate hvalid => exact absurd hvalid.route hroute
  | @duplicate existing hvalid hmem hroute =>
    cases h' with
    | noUpstream hupstreams hmanual =>
      exact absurd ((hvalid.upstream hupstreams).symm.trans hmanual) (by simp)
    | noPath _ hroute' => exact absurd hvalid.route hroute'
    | @duplicate existing' _ hmem' hroute' =>
      rw [List.inj_on_of_nodup_map hbefore.distinct hmem hmem' (hroute.trans hroute'.symm)]

/-! ### Validation -/

/-- The map has the names of the chains by their routes, and nothing else. This is the invariant of
the loop. -/
def NamesOf (before : List NamedChain) (routes : String → Option String) : Prop :=
  ∀ route name, routes route = some name ↔
    ∃ chain ∈ before, chain.route = route ∧ chain.name = name

/-- **One chain**: it offends, or it may join those before it. -/
theorem checkChain_spec (hbefore : ValidChains before) (hroutes : NamesOf before routes)
    (chain : NamedChain) :
    (∃ e, checkChain routes chain = .error e ∧ Offends before chain e) ∨
      ∃ routes', checkChain routes chain = .ok routes' ∧ ValidChains (before ++ [chain]) ∧
        NamesOf (before ++ [chain]) routes' := by
  rw [checkChain]
  split_ifs with hupstreams hroute
  · exact .inl ⟨_, rfl, .noUpstream hupstreams.1 hupstreams.2⟩
  · refine .inl ⟨_, rfl, .noPath (fun h => ?_) hroute⟩
    exact Bool.eq_true_of_not_eq_false fun hmanual => hupstreams ⟨h, hmanual⟩
  · have hvalid : ValidChain chain :=
      ⟨fun h => Bool.eq_true_of_not_eq_false fun hmanual => hupstreams ⟨h, hmanual⟩,
        not_not.mp hroute⟩
    cases hseen : routes chain.route with
    | some existing =>
      obtain ⟨other, hmem, hother, rfl⟩ := (hroutes _ _).mp hseen
      exact .inl ⟨_, rfl, .duplicate hvalid hmem hother⟩
    | none =>
      have hfresh : ∀ other ∈ before, other.route ≠ chain.route := fun other hmem hother =>
        absurd (hseen.symm.trans ((hroutes _ _).mpr ⟨other, hmem, hother, rfl⟩)) (by simp)
      refine .inr ⟨_, rfl, ⟨?_, ?_⟩, fun route name => ?_⟩
      · exact List.forall_mem_append.mpr ⟨hbefore.valid, List.forall_mem_singleton.mpr hvalid⟩
      · rw [List.map_append, List.nodup_append]
        refine ⟨hbefore.distinct, List.nodup_singleton _, fun route hmem route' hmem' => ?_⟩
        obtain ⟨other, hother, rfl⟩ := List.mem_map.mp hmem
        obtain rfl := List.mem_singleton.mp hmem'
        exact hfresh other hother
      · by_cases hsame : route = chain.route
        · subst hsame
          rw [Function.update_self, Option.some.injEq]
          refine ⟨?_, ?_⟩
          · rintro rfl
            exact ⟨chain, List.mem_append_right _ (List.mem_singleton_self _), rfl, rfl⟩
          · rintro ⟨other, hmem, hother, rfl⟩
            rcases List.mem_append.mp hmem with hmem | hmem
            · exact absurd hother (hfresh other hmem)
            · rw [List.mem_singleton.mp hmem]
        · rw [Function.update_of_ne hsame, hroutes]
          refine exists_congr fun other => ⟨fun ⟨hmem, h⟩ => ⟨List.mem_append_left _ hmem, h⟩, ?_⟩
          rintro ⟨hmem, hother, hname⟩
          refine ⟨(List.mem_append.mp hmem).resolve_right fun hlast => hsame ?_, hother, hname⟩
          rw [← hother, List.mem_singleton.mp hlast]

/-- The chains are accepted, or the first one that offends is named, from any chains that have been
accepted before. -/
theorem checkChains_spec (hbefore : ValidChains before) (hroutes : NamesOf before routes) :
    ((∃ routes', checkChains routes chains = .ok routes') ↔ ValidChains (before ++ chains)) ∧
      ∀ e, checkChains routes chains = .error e ↔ ∃ pre chain post, chains = pre ++ chain :: post ∧
        ValidChains (before ++ pre) ∧ Offends (before ++ pre) chain e := by
  induction chains generalizing before routes with
  | nil =>
    rw [List.append_nil]
    refine ⟨iff_of_true ⟨routes, rfl⟩ hbefore, fun e => iff_of_false (by simp [checkChains]) ?_⟩
    rintro ⟨pre, chain, post, hchains, -⟩
    cases pre <;> cases hchains
  | cons chain chains ih =>
    rw [checkChains]
    rcases checkChain_spec hbefore hroutes chain with
      ⟨e', hcheck, hoffends⟩ | ⟨routes', hcheck, hvalid, hroutes'⟩
    · rw [hcheck]
      have hinvalid : ∀ post, ¬ ValidChains (before ++ chain :: post) :=
        fun post h => h.not_offends hoffends
      refine ⟨iff_of_false (by simp) (hinvalid chains), fun e => ⟨?_, ?_⟩⟩
      · rintro ⟨⟩
        exact ⟨[], chain, chains, rfl, (List.append_nil before).symm ▸ hbefore,
          (List.append_nil before).symm ▸ hoffends⟩
      · rintro ⟨pre, other, post, hchains, hpre, hother⟩
        cases pre with
        | nil =>
          obtain ⟨rfl, -⟩ := List.cons.inj hchains
          rw [List.append_nil] at hother
          exact congrArg Except.error (hoffends.unique hbefore hother)
        | cons first pre =>
          obtain ⟨rfl, -⟩ := List.cons.inj hchains
          exact absurd hpre (hinvalid pre)
    · rw [hcheck]
      obtain ⟨hok, herror⟩ := ih hvalid hroutes'
      simp only [List.append_assoc, List.singleton_append] at hok herror
      refine ⟨hok, fun e => (herror e).trans ⟨?_, ?_⟩⟩
      · rintro ⟨pre, other, post, rfl, hpre, hother⟩
        exact ⟨chain :: pre, other, post, rfl, hpre, hother⟩
      · rintro ⟨pre, other, post, hchains, hpre, hother⟩
        cases pre with
        | nil =>
          obtain ⟨rfl, -⟩ := List.cons.inj hchains
          rw [List.append_nil] at hother
          exact absurd hother hvalid.not_offends
        | cons first pre =>
          obtain ⟨rfl, rfl⟩ := List.cons.inj hchains
          exact ⟨pre, other, post, rfl, hpre, hother⟩

theorem validChains_nil : ValidChains [] where
  valid _ h := absurd h List.not_mem_nil
  distinct := List.nodup_nil

theorem namesOf_nil : NamesOf [] fun _ => none := by
  simp [NamesOf]

/-- From the start no name is taken. -/
theorem checkChains_none_spec :
    ((∃ routes, checkChains (fun _ => none) chains = .ok routes) ↔ ValidChains chains) ∧
      ∀ e, checkChains (fun _ => none) chains = .error e ↔ ∃ pre chain post,
        chains = pre ++ chain :: post ∧ ValidChains pre ∧ Offends pre chain e := by
  simpa only [List.nil_append] using checkChains_spec validChains_nil namesOf_nil

theorem validate_eq_ok_iff : validate chains = .ok () ↔ chains ≠ [] ∧ ValidChains chains := by
  rw [validate]
  split_ifs with hnil
  · exact iff_of_false (by simp) fun h => h.1 hnil
  · rw [← checkChains_none_spec.1, and_iff_right hnil]
    cases checkChains (fun _ => none) chains <;> simp [Except.map]

theorem validate_eq_error_iff : validate chains = .error e ↔
    chains = [] ∧ e = "at least one chain must be configured" ∨
      ∃ pre chain post, chains = pre ++ chain :: post ∧ ValidChains pre ∧ Offends pre chain e := by
  rw [validate, ← checkChains_none_spec.2]
  split_ifs with hnil
  · subst hnil
    simp [checkChains, eq_comm]
  · rw [or_iff_right fun h => hnil h.1]
    cases checkChains (fun _ => none) chains <;> simp [Except.map]

/-- What loading accepts: the file is there, it parses once it is interpolated, and its chains are
valid. -/
theorem load_eq_ok_iff {path : String} {env : Env} {parse : List Char → Option (List NamedChain)}
    {raw : Option (List Char)} : load path env parse raw = .ok chains ↔
      raw.bind (fun text => parse (interpolateEnvVars env text)) = some chains ∧ chains ≠ [] ∧
        ValidChains chains := by
  cases raw with
  | none => simp [load]
  | some text =>
    rw [load, Option.bind_some]
    cases parse (interpolateEnvVars env text) with
    | none => simp
    | some parsed =>
      have hok : ((validate parsed).map fun _ => parsed) = .ok chains ↔
          validate parsed = .ok () ∧ parsed = chains := by
        cases validate parsed <;> simp [Except.map]
      rw [hok, validate_eq_ok_iff, Option.some.injEq, and_comm]
      exact and_congr_right fun h => h ▸ Iff.rfl

/-- **Loading**: what is accepted are chains that can be served side by side, and what is refused is
refused for the first thing that is wrong. -/
theorem load_spec (path : String) (env : Env) (parse : List Char → Option (List NamedChain))
    (raw : Option (List Char)) :
    (∀ chains, load path env parse raw = .ok chains ↔
      raw.bind (fun text => parse (interpolateEnvVars env text)) = some chains ∧ chains ≠ [] ∧
        ValidChains chains) ∧
    ∀ e, load path env parse raw = .error e ↔
      raw = none ∧ e = "failed to read config file: " ++ path ∨
      (∃ text, raw = some text ∧ parse (interpolateEnvVars env text) = none ∧
        e = "failed to parse config YAML") ∨
      raw.bind (fun text => parse (interpolateEnvVars env text)) = some [] ∧
        e = "at least one chain must be configured" ∨
      ∃ pre chain post,
        raw.bind (fun text => parse (interpolateEnvVars env text)) = some (pre ++ chain :: post) ∧
          ValidChains pre ∧ Offends pre chain e := by
  refine ⟨fun chains => load_eq_ok_iff, fun e => ?_⟩
  cases raw with
  | none => simp [load, eq_comm]
  | some text =>
    rw [load, Option.bind_some]
    cases hparse : parse (interpolateEnvVars env text) with
    | none => simp [hparse, eq_comm]
    | some chains =>
      have herror : ((validate chains).map fun _ => chains) = .error e ↔
          validate chains = .error e := by
        cases validate chains <;> simp [Except.map]
      rw [herror, validate_eq_error_iff]
      simp [hparse]

/-! ### Starting up -/

/-- What `resolve_auto_public` makes of a chain that has a name. Name and route stay as they are. -/
def NamedChain.resolve (registry : EndpointsResponse) (chain : NamedChain) : NamedChain :=
  { chain with toConfiguredChain := chain.toConfiguredChain.injectPublic registry }

theorem resolve_of_manual {registry : EndpointsResponse} (hmanual : chain.autoPublic = false) :
    chain.resolve registry = chain := by
  rw [NamedChain.resolve, injectPublic_of_manual hmanual]

/-- A chain ends up without upstreams if none is configured and the registry has none for it. It is
served all the same. -/
theorem upstreams_resolve_eq_nil {registry : EndpointsResponse} (hauto : chain.autoPublic = true) :
    (chain.resolve registry).upstreams = [] ↔ chain.upstreams = [] ∧
      ∀ entry, chain.published registry = some entry → entry.endpoints = [] := by
  have hurls : (chain.resolve registry).upstreams = [] ↔
      (chain.toConfiguredChain.injectPublic registry).httpUrls = [] := List.map_eq_nil_iff.symm
  have hown : chain.upstreams = [] ↔ chain.httpUrls = [] := List.map_eq_nil_iff.symm
  rw [hurls, hown, httpUrls_injectPublic, Supplement.supplement, List.append_eq_nil_iff]
  refine and_congr_right fun hnil => ?_
  rw [hnil, ConfiguredChain.wanted, if_pos hauto]
  cases chain.published registry <;> simp

/-- Starting up is loading, and resolving each chain if one is to be resolved. -/
theorem startUp_eq_ok_iff {path : String} {env : Env}
    {parse : List Char → Option (List NamedChain)} {raw : Option (List Char)}
    {fetch : RegistryFetch} {served : List NamedChain} :
    startUp path env parse raw fetch = .ok served ↔
      ∃ chains, load path env parse raw = .ok chains ∧
        ((∀ chain ∈ chains, chain.autoPublic = false) ∧ served = chains ∨
          ∃ registry, fetch = .registry registry ∧ served = chains.map (.resolve registry)) := by
  have hkept (chains : List NamedChain) :
      chains.zipWith (fun chain conf => { chain with toConfiguredChain := conf })
        (chains.map NamedChain.toConfiguredChain) = chains := by
    rw [List.zipWith_map_right, List.zipWith_self]
    exact List.map_id' chains
  have hmap (registry : EndpointsResponse) (chains : List NamedChain) :
      chains.zipWith (fun chain conf => { chain with toConfiguredChain := conf })
        ((chains.map NamedChain.toConfiguredChain).map (ConfiguredChain.injectPublic registry)) =
          chains.map (.resolve registry) := by
    rw [List.map_map, List.zipWith_map_right, List.zipWith_self]
    rfl
  rw [startUp]
  cases load path env parse raw with
  | error e => simp
  | ok chains =>
    have hempty : ((chains.map NamedChain.toConfiguredChain).filter
        ConfiguredChain.autoPublic).isEmpty = true ↔
          ∀ chain ∈ chains, chain.autoPublic = false := by
      rw [List.isEmpty_iff, List.filter_eq_nil_iff, List.forall_mem_map]
      exact forall₂_congr fun chain _ => Bool.not_eq_true _ |>.to_iff
    cases hfetch : fetch with
    | registry registry =>
      simp only [resolveAutoPublic_registry, hmap, Except.ok.injEq]
      refine ⟨fun h => ⟨chains, rfl, .inr ⟨registry, rfl, h.symm⟩⟩, ?_⟩
      rintro ⟨_, rfl, ⟨hmanual, rfl⟩ | ⟨_, ⟨rfl⟩, rfl⟩⟩
      · exact (List.map_congr_left fun chain hmem => resolve_of_manual (hmanual chain hmem)).trans
          (List.map_id' _)
      · rfl
    | _ =>
      by_cases hmanual : ∀ chain ∈ chains, chain.autoPublic = false
      · simp only [resolveAutoPublic, if_pos (hempty.mpr hmanual), hkept, Except.ok.injEq]
        refine ⟨fun h => ⟨chains, rfl, .inl ⟨hmanual, h.symm⟩⟩, ?_⟩
        rintro ⟨_, rfl, ⟨-, rfl⟩ | ⟨_, ⟨⟩, -⟩⟩
        rfl
      · simp only [resolveAutoPublic, if_neg (mt hempty.mp hmanual), Except.ok.injEq]
        refine iff_of_false (by simp) ?_
        rintro ⟨_, rfl, ⟨hall, -⟩ | ⟨_, ⟨⟩, -⟩⟩
        exact hmanual hall

/-- The chains that are served have distinct paths, since resolving leaves the routes alone. -/
theorem routes_of_startUp {path : String} {env : Env} {parse : List Char → Option (List NamedChain)}
    {raw : Option (List Char)} {fetch : RegistryFetch} {served : List NamedChain}
    (h : startUp path env parse raw fetch = .ok served) :
    (served.map NamedChain.route).Nodup ∧
      ∀ chain ∈ served, chain.route.toList.head? = some '/' := by
  obtain ⟨chains, hload, hserved⟩ := startUp_eq_ok_iff.mp h
  obtain ⟨-, -, hvalid⟩ := load_eq_ok_iff.mp hload
  have hroutes : served.map NamedChain.route = chains.map NamedChain.route := by
    rcases hserved with ⟨-, rfl⟩ | ⟨registry, -, rfl⟩
    · rfl
    · exact List.map_map
  refine ⟨hroutes ▸ hvalid.distinct, fun chain hmem => ?_⟩
  obtain ⟨original, horiginal, hroute⟩ := List.mem_map.mp (hroutes ▸ List.mem_map_of_mem hmem)
  exact hroute ▸ (hvalid.valid original horiginal).route

/-- What is served of a chain that was configured: the same chain, with its own upstreams first and
perhaps some of the registry after them. -/
structure StartedAs (fetch : RegistryFetch) (chain served : NamedChain) : Prop where
  name : served.name = chain.name
  route : served.route = chain.route
  kept : chain.upstreams <+: served.upstreams
  without : served.upstreams = [] ↔ chain.upstreams = [] ∧ ∃ registry, fetch = .registry registry ∧
    ∀ entry, chain.published registry = some entry → entry.endpoints = []

/-- **Starting up**: the chains that are served are those of the configuration, in order, under
distinct paths, and one of them is without upstreams exactly if it has none of its own and the
registry has none for it. -/
theorem startUp_spec {path : String} {env : Env} {parse : List Char → Option (List NamedChain)}
    {raw : Option (List Char)} {fetch : RegistryFetch} {served : List NamedChain}
    (h : startUp path env parse raw fetch = .ok served) :
    (served.map NamedChain.route).Nodup ∧
      (∀ chain ∈ served, chain.route.toList.head? = some '/') ∧
      ∃ chains, load path env parse raw = .ok chains ∧ served ≠ [] ∧
        List.Forall₂ (StartedAs fetch) chains served := by
  obtain ⟨chains, hload, hserved⟩ := startUp_eq_ok_iff.mp h
  obtain ⟨-, hne, hvalid⟩ := load_eq_ok_iff.mp hload
  have hstarted : List.Forall₂ (StartedAs fetch) chains served := by
    rcases hserved with ⟨hmanual, rfl⟩ | ⟨registry, rfl, rfl⟩
    · refine List.forall₂_same.mpr fun chain hmem => ⟨rfl, rfl, List.prefix_rfl, ?_⟩
      have hown : chain.upstreams ≠ [] := fun hnil => Bool.false_ne_true
        ((hmanual chain hmem).symm.trans ((hvalid.valid chain hmem).upstream hnil))
      exact iff_of_false hown fun h => hown h.1
    · refine List.forall₂_map_right_iff.mpr (List.forall₂_same.mpr fun chain hmem =>
        ⟨rfl, rfl, upstreams_prefix_injectPublic registry chain.toConfiguredChain, ?_⟩)
      cases hauto : chain.autoPublic with
      | true =>
        refine (upstreams_resolve_eq_nil hauto).trans (and_congr_right fun _ => ?_)
        exact ⟨fun h => ⟨registry, rfl, h⟩, fun ⟨_, heq, h⟩ => by cases heq; exact h⟩
      | false =>
        rw [resolve_of_manual hauto]
        have hown : chain.upstreams ≠ [] := fun hnil =>
          Bool.false_ne_true (hauto.symm.trans ((hvalid.valid chain hmem).upstream hnil))
        exact iff_of_false hown fun h => hown h.1
  obtain ⟨hdistinct, hpaths⟩ := routes_of_startUp h
  refine ⟨hdistinct, hpaths, chains, hload, ?_, hstarted⟩
  rintro rfl
  exact hne (List.forall₂_nil_right_iff.mp hstarted)

/-- A chain that has no upstream of its own. -/
def publicChain : NamedChain where
  chainId := 1
  finalityDepth := 64
  autoPublic := true
  upstreams := []
  name := "eth"
  route := "/eth"

theorem startUp_publicChain :
    startUp "config.yaml" (fun _ => none) (fun _ => some [publicChain]) (some [])
      (.registry (registryOf ["https://a.com"])) =
        .ok [publicChain.resolve (registryOf ["https://a.com"])] := by
  have hload : load "config.yaml" (fun _ => none) (fun _ => some [publicChain]) (some []) =
      .ok [publicChain] := rfl
  rw [startUp, hload]
  rfl

theorem publicChain_started :
    ∃ served chains, startUp "config.yaml" (fun _ => none) (fun _ => some [publicChain]) (some [])
        (.registry (registryOf ["https://a.com"])) = .ok served ∧
      load "config.yaml" (fun _ => none) (fun _ => some [publicChain]) (some []) = .ok chains ∧
      List.Forall₂ (StartedAs (.registry (registryOf ["https://a.com"]))) chains served := by
  obtain ⟨-, -, chains, hchains, -, hstarted⟩ := startUp_spec startUp_publicChain
  exact ⟨_, chains, startUp_publicChain, hchains, hstarted⟩

end Poolbeg
