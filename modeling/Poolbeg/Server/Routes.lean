import Poolbeg.Config.Validation
import Poolbeg.Server.Gateway

/-!
# The routes

`setup` in `server.rs` builds the router from the chains that are served: the health check under
`/health`, and for each chain a POST and a GET handler under its route.

## The router of axum

The router is that of axum and is taken as given. It puts two handlers together that are added under
one path, and panics when both take the same method. `AxumRouter.Documented` says so for routes that
are literal, which have none of the characters that captures are written with, and nothing of any
others. A request gets to the handlers under its path, and of these to the one for its method; a GET
handler takes HEAD as well (`AxumRouter.dispatch`).

## What may go wrong

Validation has made sure that no two chains have one path. It does not know of `/health`, which the
program has itself: a chain may be configured there, and then the program panics when it starts,
since the health check and the WebSocket handler of that chain both take GET. Otherwise a request
gets to the chain whose route is its path, and every chain is there.

So the gateway, which has the chains by their paths, is what is served: for a router that has been
built, `AxumRouter.dispatch` and `Gateway.dispatch` come to the same.

## Main definitions

* `MethodRouter`, `AxumRouter`, `AxumRouter.Documented` — what is taken of axum
* `buildRouter`, `AxumRouter.dispatch` — as in the code
* `routeOf`, `routerOf` — what it is for
* `AxumRouter.Serves` — the router has these handlers and no others

## Main results

* `addChain_spec` — one chain more
* `buildRouter_spec` — the router is built unless a chain is where the health check is
* `dispatch_of_handlers` — it does what the gateway says
* `setup_serves` — what is configured is what is served
-/

namespace Poolbeg

/-! ### As in the code -/

/-- Where a route leads; a chain is its index in the configuration. -/
inductive Handler
  | health
  | rpc (chain : ℕ)
  | ws (chain : ℕ)

/-- The handlers under one path. -/
structure MethodRouter where
  get : Option Handler
  post : Option Handler

/-- Two handlers for one method overlap, and there is nothing to put together. -/
def mergeHandlers : Option Handler → Option Handler → Option (Option Handler)
  | none, handler => some handler
  | some handler, none => some (some handler)
  | some _, some _ => none

/-- The handlers of both, method by method, unless two of them overlap. -/
def MethodRouter.merge (a b : MethodRouter) : Option MethodRouter :=
  match mergeHandlers a.get b.get, mergeHandlers a.post b.post with
  | some get, some post => some ⟨get, post⟩
  | _, _ => none

/-- The router of axum: an empty one, adding a route if that does not panic, and the handlers for
the path of a request. What a router is stays open. -/
structure AxumRouter (R : Type) where
  new : R
  route : R → String → MethodRouter → Option R
  handlers : R → String → Option MethodRouter

variable {R : Type}

/-- The path stands for itself: it has none of the characters that captures are written with, in
this version of axum or the one before. -/
def Literal (path : String) : Prop := ∀ c ∈ path.toList, c ∉ ['{', '}', ':', '*']

/-- The router has been built with literal routes. -/
inductive AxumRouter.Built (axum : AxumRouter R) : R → Prop
  | new : Built axum axum.new
  | route {router router' : R} {path : String} {handlers : MethodRouter}
      (hrouter : Built axum router) (hpath : Literal path)
      (hroute : axum.route router path handlers = some router') : Built axum router'

/-- What is documented of literal routes: a request gets to the handlers under its path, and those
that are added under one path are put together or, if they overlap, panic. -/
structure AxumRouter.Documented (axum : AxumRouter R) : Prop where
  new : ∀ path, axum.handlers axum.new path = none
  fresh : ∀ {router path} handlers, axum.Built router → path.toList.head? = some '/' →
    Literal path → axum.handlers router path = none →
      ∃ router', axum.route router path handlers = some router' ∧
        axum.handlers router' = Function.update (axum.handlers router) path (some handlers)
  merged : ∀ {router path existing merged} handlers, axum.Built router →
    path.toList.head? = some '/' → Literal path →
    axum.handlers router path = some existing → existing.merge handlers = some merged →
      ∃ router', axum.route router path handlers = some router' ∧
        axum.handlers router' = Function.update (axum.handlers router) path (some merged)
  overlap : ∀ {router path existing} handlers, axum.Built router → Literal path →
    axum.handlers router path = some existing → existing.merge handlers = none →
      axum.route router path handlers = none

variable (axum : AxumRouter R)

/-- The body of the loop over the chains: the POST handler is added first, then the GET handler
under the same path. -/
def addChain (router : R) (entry : NamedChain × ℕ) : Option R :=
  (axum.route router entry.1.route ⟨none, some (.rpc entry.2)⟩).bind fun router =>
    axum.route router entry.1.route ⟨some (.ws entry.2), none⟩

/-- The routes of `setup`. It is `none` where adding one of them panics. -/
def buildRouter (chains : List NamedChain) : Option R :=
  (axum.route axum.new "/health" ⟨some .health, none⟩).bind fun router =>
    chains.zipIdx.foldlM (addChain axum) router

/-- What the gateway calls the handler. -/
def Handler.disposition : Handler → Disposition ℕ
  | .health => .healthy
  | .rpc chain => .handleRpc chain
  | .ws chain => .handleWs chain

/-- What becomes of a request that reaches the router. A GET handler takes HEAD as well. -/
def AxumRouter.dispatch (router : R) (req : HttpRequest) : Disposition ℕ :=
  match axum.handlers router req.path with
  | none => .notFound
  | some handlers =>
    let handler := match req.method with
      | .get | .head => handlers.get
      | .post => handlers.post
      | _ => none
    (handler.map Handler.disposition).getD .methodNotAllowed

/-! ### What it is for -/

/-- The chain with this route, by its index; the first one, if there were several. -/
def routeOf (chains : List NamedChain) (path : String) : Option ℕ :=
  chains.findIdx? fun chain => chain.route = path

/-- The health check, and the handlers of the chain with this route. -/
def routerOf (chains : List NamedChain) (path : String) : Option MethodRouter :=
  if path = "/health" then some ⟨some .health, none⟩
  else (routeOf chains path).map fun idx => ⟨some (.ws idx), some (.rpc idx)⟩

variable {chains before : List NamedChain} {chain : NamedChain} {path : String} {idx : ℕ}

theorem routeOf_eq_none (h : path ∉ chains.map NamedChain.route) : routeOf chains path = none := by
  refine List.findIdx?_eq_none_iff.mpr fun chain hmem => decide_eq_false fun hroute => h ?_
  exact hroute ▸ List.mem_map_of_mem hmem

theorem routeOf_append (chains : List NamedChain) : routeOf (before ++ chains) path =
    (routeOf before path).or ((routeOf chains path).map (· + before.length)) :=
  List.findIdx?_append

/-- Every chain is under its route. Two chains with one path would not both be. -/
theorem routeOf_route (hdistinct : (chains.map NamedChain.route).Nodup)
    (hget : chains[idx]? = some chain) : routeOf chains chain.route = some idx := by
  obtain ⟨hlt, hchain⟩ := List.getElem?_eq_some_iff.mp hget
  refine List.findIdx?_eq_some_iff_getElem.mpr ⟨hlt, decide_eq_true (hchain ▸ rfl), fun j hj => ?_⟩
  have hne := (List.pairwise_iff_getElem.mp hdistinct) j idx (by simp; omega) (by simpa) hj
  simpa [hchain] using hne

theorem routeOf_concat (h : path ≠ chain.route) :
    routeOf (before ++ [chain]) path = routeOf before path := by
  have hone : routeOf [chain] path = none := routeOf_eq_none (by simpa using h)
  rw [routeOf_append, hone, Option.map_none, Option.or_none]

theorem routeOf_concat_self (hnew : chain.route ∉ before.map NamedChain.route) :
    routeOf (before ++ [chain]) chain.route = some before.length := by
  have hone : routeOf [chain] chain.route = some 0 := by simp [routeOf]
  rw [routeOf_append, routeOf_eq_none hnew, hone]
  simp

/-- The handlers of the chain after these: what the next step of the loop adds under the new path is
what `routerOf` has there. -/
theorem update_routerOf (hhealth : chain.route ≠ "/health")
    (hnew : chain.route ∉ before.map NamedChain.route) :
    Function.update (routerOf before) chain.route
        (some ⟨some (.ws before.length), some (.rpc before.length)⟩) =
      routerOf (before ++ [chain]) := by
  funext path
  by_cases hpath : path = chain.route
  · subst hpath
    rw [Function.update_self, routerOf, if_neg hhealth, routeOf_concat_self hnew]
    rfl
  · rw [Function.update_of_ne hpath, routerOf, routerOf, routeOf_concat hpath]

variable {axum} {router : R}

/-- The router has these handlers, all of them under literal paths. This is the invariant of the
loop. -/
structure AxumRouter.Serves (axum : AxumRouter R) (router : R)
    (handlers : String → Option MethodRouter) : Prop where
  built : axum.Built router
  handlers : axum.handlers router = handlers

/-- **One chain more**: its handlers are added, unless its route is that of the health check. -/
theorem addChain_spec (haxum : axum.Documented) (hrouter : axum.Serves router (routerOf before))
    (hslash : chain.route.toList.head? = some '/') (hliteral : Literal chain.route)
    (hnew : chain.route ∉ before.map NamedChain.route) :
    (chain.route = "/health" → addChain axum router (chain, before.length) = none) ∧
      (chain.route ≠ "/health" → ∃ router',
        addChain axum router (chain, before.length) = some router' ∧
          axum.Serves router' (routerOf (before ++ [chain]))) := by
  constructor
  · -- the POST handler goes with the health check, the GET handler does not
    intro hhealth
    have hold : axum.handlers router chain.route = some ⟨some .health, none⟩ := by
      rw [hrouter.handlers]
      exact if_pos hhealth
    obtain ⟨router', hpost, hhandlers⟩ := haxum.merged
      ⟨none, some (.rpc before.length)⟩ hrouter.built hslash hliteral hold rfl
    have hboth : axum.handlers router' chain.route =
        some ⟨some .health, some (.rpc before.length)⟩ := by
      rw [hhandlers, Function.update_self]
    rw [addChain, hpost]
    exact haxum.overlap _ (.route hrouter.built hliteral hpost) hliteral hboth rfl
  · intro hhealth
    have hnone : axum.handlers router chain.route = none := by
      rw [hrouter.handlers, routerOf, if_neg hhealth, routeOf_eq_none hnew, Option.map_none]
    obtain ⟨router', hpost, hhandlers⟩ := haxum.fresh
      ⟨none, some (.rpc before.length)⟩ hrouter.built hslash hliteral hnone
    have hbuilt := AxumRouter.Built.route hrouter.built hliteral hpost
    have hone : axum.handlers router' chain.route = some ⟨none, some (.rpc before.length)⟩ := by
      rw [hhandlers, Function.update_self]
    obtain ⟨router'', hget, hhandlers'⟩ := haxum.merged
      ⟨some (.ws before.length), none⟩ hbuilt hslash hliteral hone rfl
    refine ⟨router'', by rw [addChain, hpost]; exact hget, .route hbuilt hliteral hget, ?_⟩
    rw [hhandlers', hhandlers, hrouter.handlers, ← update_routerOf hhealth hnew]
    exact Function.update_idem ..

/-- The whole loop, from any chains that are there: it is built exactly if none of the chains is
where the health check is. -/
theorem addChains_spec (haxum : axum.Documented) (before : List NamedChain)
    (hrouter : axum.Serves router (routerOf before))
    (hslash : ∀ chain ∈ chains, chain.route.toList.head? = some '/')
    (hliteral : ∀ chain ∈ chains, Literal chain.route)
    (hdistinct : ((before ++ chains).map NamedChain.route).Nodup) :
    ("/health" ∈ chains.map NamedChain.route →
        (chains.zipIdx before.length).foldlM (addChain axum) router = none) ∧
      ("/health" ∉ chains.map NamedChain.route →
        ∃ router', (chains.zipIdx before.length).foldlM (addChain axum) router = some router' ∧
          axum.Serves router' (routerOf (before ++ chains))) := by
  induction chains generalizing before router with
  | nil => simpa using hrouter
  | cons chain chains ih =>
    obtain ⟨hfirst, hrest⟩ := List.forall_mem_cons.mp hslash
    obtain ⟨hfirst', hrest'⟩ := List.forall_mem_cons.mp hliteral
    have hnew : chain.route ∉ before.map NamedChain.route := by
      rw [List.map_append, List.nodup_append'] at hdistinct
      exact fun h => hdistinct.2.2 h (by simp)
    obtain ⟨hpanics, hadds⟩ := addChain_spec haxum hrouter hfirst hfirst' hnew
    rw [List.zipIdx_cons, List.foldlM_cons, List.map_cons, List.mem_cons]
    by_cases hhealth : chain.route = "/health"
    · rw [hpanics hhealth]
      exact ⟨fun _ => rfl, fun h => absurd (.inl hhealth.symm) h⟩
    · obtain ⟨router', hadded, hrouter'⟩ := hadds hhealth
      have hsplit : before ++ chain :: chains = (before ++ [chain]) ++ chains := by simp
      have hlength : before.length + 1 = (before ++ [chain]).length := by simp
      rw [hsplit] at hdistinct ⊢
      rw [or_iff_right (Ne.symm hhealth), hadded, hlength]
      exact ih (before ++ [chain]) hrouter' hrest hrest' hdistinct

/-- **The router is built**, with the chains under their routes, unless one of them is where the
health check is. Their paths have to be distinct, literal, and begin with a slash. -/
theorem buildRouter_spec (haxum : axum.Documented)
    (hslash : ∀ chain ∈ chains, chain.route.toList.head? = some '/')
    (hliteral : ∀ chain ∈ chains, Literal chain.route)
    (hdistinct : (chains.map NamedChain.route).Nodup) :
    ("/health" ∈ chains.map NamedChain.route → buildRouter axum chains = none) ∧
      ("/health" ∉ chains.map NamedChain.route → ∃ router, buildRouter axum chains = some router ∧
        axum.handlers router = routerOf chains) := by
  have hhealth : Literal "/health" := by simp [Literal]
  obtain ⟨router, hrouter, hhandlers⟩ := haxum.fresh ⟨some .health, none⟩ .new
    (by decide) hhealth (haxum.new "/health")
  have hserves : axum.Serves router (routerOf []) := by
    refine ⟨.route .new hhealth hrouter, hhandlers.trans (funext fun path => ?_)⟩
    by_cases hpath : path = "/health" <;> simp [hpath, routerOf, routeOf, haxum.new]
  rw [buildRouter, hrouter]
  obtain ⟨hpanics, hadds⟩ := addChains_spec haxum [] hserves hslash hliteral hdistinct
  refine ⟨hpanics, fun h => ?_⟩
  obtain ⟨router', hbuilt, hserves'⟩ := hadds h
  exact ⟨router', hbuilt, hserves'.handlers⟩

/-! ### What becomes of a request -/

/-- The router does what the gateway says of it. CORS has answered every `OPTIONS` before, so the
handlers are asked for the other methods only. -/
theorem dispatch_of_handlers (hrouter : axum.handlers router = routerOf chains) {g : Gateway ℕ}
    (hroute : g.route = routeOf chains) {req : HttpRequest} (hmethod : req.method ≠ .options) :
    axum.dispatch router req = g.dispatch req := by
  rw [AxumRouter.dispatch, Gateway.dispatch, if_neg hmethod, hrouter, routerOf, hroute]
  by_cases hhealth : req.path = "/health"
  · rw [if_pos hhealth, if_pos hhealth]
    cases req.method <;> rfl
  · rw [if_neg hhealth, if_neg hhealth]
    cases routeOf chains req.path with
    | none => rfl
    | some idx => cases req.method <;> rfl

/-- **What is configured is what is served.** Where the program starts up, it panics on its routes
exactly if a chain is where the health check is; otherwise the router is that of the gateway in
which every chain is under its own route. -/
theorem setup_serves (haxum : axum.Documented) {path : String} {env : Env}
    {parse : List Char → Option (List NamedChain)} {raw : Option (List Char)}
    {fetch : RegistryFetch} {served : List NamedChain}
    (h : startUp path env parse raw fetch = .ok served)
    (hliteral : ∀ chain ∈ served, Literal chain.route) :
    (buildRouter axum served = none ↔ ∃ chain ∈ served, chain.route = "/health") ∧
    ∀ router, buildRouter axum served = some router →
      (∀ g : Gateway ℕ, g.route = routeOf served → ∀ req, req.method ≠ .options →
        axum.dispatch router req = g.dispatch req) ∧
      ∀ idx chain, served[idx]? = some chain → ∀ req, req.path = chain.route →
        (req.method = .post → axum.dispatch router req = .handleRpc idx) ∧
          (req.method = .get → axum.dispatch router req = .handleWs idx) := by
  obtain ⟨hdistinct, hslash⟩ := routes_of_startUp h
  obtain ⟨hpanics, hbuilds⟩ := buildRouter_spec haxum hslash hliteral hdistinct
  rw [← List.mem_map]
  by_cases hhealth : "/health" ∈ served.map NamedChain.route
  · rw [hpanics hhealth]
    exact ⟨iff_of_true rfl hhealth, fun router hrouter => by cases hrouter⟩
  · obtain ⟨router, hrouter, hhandlers⟩ := hbuilds hhealth
    rw [hrouter]
    refine ⟨iff_of_false (by simp) hhealth, fun _ hsame => ?_⟩
    cases hsame
    refine ⟨fun g hroute req => dispatch_of_handlers hhandlers hroute,
      fun idx chain hget req hpath => ?_⟩
    have hne : chain.route ≠ "/health" := fun heq =>
      hhealth (heq ▸ List.mem_map_of_mem (List.mem_of_getElem? hget))
    have hrouted : axum.handlers router req.path = some ⟨some (.ws idx), some (.rpc idx)⟩ := by
      rw [hhandlers, routerOf, hpath, if_neg hne, routeOf_route hdistinct hget]
      rfl
    rw [AxumRouter.dispatch, hrouted]
    exact ⟨fun hmethod => by rw [hmethod]; rfl, fun hmethod => by rw [hmethod]; rfl⟩

/-! ### A chain that is served -/

/-- A router that takes every path literally. -/
def literalRouter : AxumRouter (String → Option MethodRouter) where
  new _ := none
  route router path handlers :=
    if path.toList.head? = some '/' then
      match router path with
      | none => some (Function.update router path (some handlers))
      | some existing => (existing.merge handlers).map fun merged =>
          Function.update router path (some merged)
    else none
  handlers router := router

theorem literalRouter_documented : literalRouter.Documented where
  new _ := rfl
  fresh := by
    intro router path handlers _ hslash _ hnone
    refine ⟨Function.update router path (some handlers), ?_, rfl⟩
    simp only [literalRouter, if_pos hslash, show router path = none from hnone]
  merged := by
    intro router path existing merged handlers _ hslash _ hsome hmerge
    refine ⟨Function.update router path (some merged), ?_, rfl⟩
    simp only [literalRouter, if_pos hslash, show router path = some existing from hsome, hmerge,
      Option.map_some]
  overlap := by
    intro router path existing handlers _ _ hsome hmerge
    simp only [literalRouter, show router path = some existing from hsome, hmerge, Option.map_none,
      ite_self]

/-- A chain on `/eth` is served there. -/
theorem publicChain_served :
    ∃ served router, startUp "config.yaml" (fun _ => none) (fun _ => some [publicChain]) (some [])
        (.registry (registryOf ["https://a.com"])) = .ok served ∧
      buildRouter literalRouter served = some router ∧
      ∀ req : HttpRequest, req.path = "/eth" → req.method = .post →
        literalRouter.dispatch router req = .handleRpc 0 := by
  have hliteral : ∀ chain ∈ [publicChain.resolve (registryOf ["https://a.com"])],
      Literal chain.route := by
    rintro chain hmem
    cases List.mem_singleton.mp hmem
    simp [Literal, publicChain, NamedChain.resolve]
  obtain ⟨hpanics, hserves⟩ := setup_serves literalRouter_documented startUp_publicChain hliteral
  cases hbuilt : buildRouter literalRouter
      [publicChain.resolve (registryOf ["https://a.com"])] with
  | none =>
    obtain ⟨chain, hmem, hroute⟩ := hpanics.mp hbuilt
    cases List.mem_singleton.mp hmem
    exact absurd hroute (by decide)
  | some router =>
    exact ⟨_, router, startUp_publicChain, hbuilt, fun req hpath hmethod =>
      ((hserves router hbuilt).2 0 _ rfl req hpath).1 hmethod⟩

end Poolbeg
