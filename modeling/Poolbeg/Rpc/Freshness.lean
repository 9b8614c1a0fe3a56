import Poolbeg.Deadlines
import Poolbeg.Rpc.CacheHit

/-!
# Cached answers are fresh

A TTL becomes the `PX` argument of a `SET`, and Redis drops the key that many milliseconds later. So
what the cache answers is never older than the TTL of its method, counted from the moment it was
stored.

## Time

The steps of the proxy take no time, and time passes between them. A timed run is a run of the proxy
with waits, and a clock that no step reads. What Redis promises is a promise about waits: no key is
there after its deadline. The deadlines are those of the last `SET` of each key; a `SET` without
`PX` and a `DEL` clear them, and `SADD` leaves them alone. Keys may also go earlier, since eviction
is a step that may be taken at any time, and this only makes an answer fresher.

## Two exceptions in the source

A duration of zero is stored without `PX`, so it does not expire at all; the result excepts it. And
a duration is passed as a number of milliseconds of 64 bits, of which Redis refuses those that are
not positive as a signed number. Redis then stores nothing and drops nothing, and such a step is not
taken.

## Main definitions

* `Command.expiry`, `timedProxyStep` — commands and deadlines
* `acceptedStep` — what Redis refuses does not happen
* `StoredAt`, `FreshEntry` — when and for what something was stored

## Main results

* `timedProxy_exists_wait` — the clock is never stuck
* `freshEntry_run` — every entry is fresh
* `cacheHit_fresh` — and so is every hit
-/

namespace Poolbeg

open Lts

variable {ι Text : Type}

/-! ### The proxy with a clock -/

/-- Redis refuses an expiry that is not positive. -/
def Command.accepted : Command Text → Bool
  | .set _ _ (some px) => 0 < px
  | _ => true

/-- The deadline a command sets for its key, or takes away. -/
def Command.expiry : Command Text → DeadlineEffect String
  | .set key _ (some px) => .set key px.toNat
  | .set key _ none => .clear key
  | .sadd _ _ => .keep
  | .del key => .clear key

/-- The command a task issues next, when it is storing. -/
def TaskPhase.command : TaskPhase Text → Option (Command Text)
  | .coalescing _ (.storing (c :: _) _) => some c
  | .forwarding _ (.storing (c :: _) _) => some c
  | _ => none

variable (serde : SerdeJson Text) (blake3 : Blake3 Text) (app : AppConfig ι)

/-- The command that Redis carries out in a step. A store that fails is a step as well, and carries
out none. -/
def issued (s : ProxyState ι Text) : ProxyAction ι → Option (Command Text)
  | .task i (.store true) => (s.tasks i).bind fun task => task.phase.command
  | .write w n => (w.commands serde app)[n]?
  | _ => none

def expiryEffect (s : ProxyState ι Text) (a : ProxyAction ι) : DeadlineEffect String :=
  match issued serde app s a with
  | some c => c.expiry
  | none => .keep

variable [DecidableEq ι]

/-- A step of the proxy, unless it has Redis do what Redis refuses. The client of the source ignores
the refusal, as it does any error of a command. -/
def acceptedStep (s : ProxyState ι Text) (a : ProxyAction ι) : Option (ProxyState ι Text) :=
  if (issued serde app s a).all Command.accepted then proxyStep serde blake3 app s a else none

def timedProxyStep :
    Clocked (ProxyState ι Text) String → TimedLabel (ProxyAction ι) →
      Option (Clocked (ProxyState ι Text) String) :=
  timedStep (acceptedStep serde blake3 app) (expiryEffect serde app)

/-- At this time the response is stored, with this TTL, for the request it answers. The request is
the resolved one. -/
def StoredAt (chain : ι) (req : JsonRpcRequest) (resp : JsonRpcResponse) (ttl time : ℕ)
    (s : Clocked (ProxyState ι Text) String) (l : TimedLabel (ProxyAction ι)) : Prop :=
  s.clock = time ∧
    resolveTtl app.cache req.method
      (blockRefIsUnfinalized req (app.chains chain).finalityDepth) = some ttl ∧
    ∃ i task wrap cmds, l = .act (.task i (.store true)) ∧ s.state.tasks i = some task ∧
      task.chain = chain ∧ Forwards req wrap ∧
      task.phase = wrap (.storing (RedisClient.set (app.key serde blake3 chain req)
        (resp.toText serde) ttl :: cmds) (.ok resp))

variable {serde blake3 app} {s t : ProxyState ι Text} {a : ProxyAction ι}

theorem proxyStep_of_accepted (h : acceptedStep serde blake3 app s a = some t) :
    proxyStep serde blake3 app s a = some t :=
  (Option.ite_none_right_eq_some.mp h).2

/-- A timed run is a run of the proxy. -/
theorem proxyRun_of_timed {c d : Clocked (ProxyState ι Text) String}
    {as : List (TimedLabel (ProxyAction ι))}
    (hrun : run (timedProxyStep serde blake3 app) c as = some d) :
    run (proxyStep serde blake3 app) c.state (untimed as) = some d.state :=
  run_mono (fun _ _ _ h => proxyStep_of_accepted h) (run_untimed hrun)

/-- The key whose deadline is next can expire, so the clock is never stuck. What is proved of timed
runs is therefore not proved of runs in which nothing waits. -/
theorem timedProxy_exists_wait (c : Clocked (ProxyState ι Text) String) (ms : ℕ) :
    ∃ as d, run (timedProxyStep serde blake3 app) c as = some d ∧ d.clock = c.clock + ms := by
  have hclear : ∀ s key, ∃ a t, acceptedStep serde blake3 app s a = some t ∧
      expiryEffect serde app s a = .clear key :=
    fun s key => ⟨.write (.delete key) 0, _, rfl, rfl⟩
  exact exists_wait hclear c ms

/-! ### What is stored, and until when -/

theorem bmod_le (n m : ℕ) : Int.bmod n m ≤ n := by
  have hmod : (n : ℤ) % m ≤ n := by exact_mod_cast Nat.mod_le n m
  rw [Int.bmod_def]
  split_ifs
  · exact hmod
  · exact (sub_le_self _ (Int.natCast_nonneg m)).trans hmod

omit [DecidableEq ι] in
/-- What is stored for an answer has the TTL of the request. -/
theorem set_of_mem_storeAnswer {cache : CacheConfig} {chain : ChainConfig} {req : JsonRpcRequest}
    {x : Answer} {key : String} {text : Text} {px : Option ℤ}
    (h : .set key text px ∈ storeAnswer serde blake3 cache chain req x) :
    ∃ resp ttl, x = .ok resp ∧ resp.error = none ∧
      resolveTtl cache req.method (blockRefIsUnfinalized req chain.finalityDepth) = some ttl ∧
      .set key text px =
        RedisClient.set (cacheKey serde blake3 chain.chainId req) (resp.toText serde) ttl := by
  cases x with
  | error e => exact absurd h List.not_mem_nil
  | ok resp =>
    obtain ⟨-, resp', hresp, herror, -⟩ := eq_of_mem_storeAnswer h
    cases hresp
    simp only [storeAnswer] at h
    split_ifs at h with hstored
    · rw [CacheLayer.set] at h
      split at h
      · cases h
      · rename_i ttl httl
        refine ⟨resp, ttl, rfl, herror, httl, (List.mem_cons.mp h).resolve_right fun h => ?_⟩
        split_ifs at h
        · cases List.mem_singleton.mp h
        · cases h
    · cases h

omit [DecidableEq ι] in
/-- A task that moves has Redis do nothing, or what it stores next. -/
theorem issued_move {i : ℕ} {task : Task ι Text} {b : TaskStep} {m : Move Text}
    (htask : s.tasks i = some task) (h : TaskMoved serde blake3 app s i task b m)
    (hok : TaskOk serde blake3 app task (s.coalescer.calls i) (s.answers i)) :
    (m.redis = s.redis ∧ issued serde app s (.task i b) = none) ∨
      ∃ req wrap c cmds x, b = .store true ∧ Forwards req wrap ∧
        task.phase = wrap (.storing (c :: cmds) x) ∧
        c ∈ storeAnswer serde blake3 app.cache (app.chains task.chain) req x ∧
        m.redis = s.redis.exec c ∧ issued serde app s (.task i b) = some c := by
  cases h with
  | @store req wrap c cmds x ok hwrap hphase hcall =>
    cases ok with
    | false => exact .inl ⟨rfl, rfl⟩
    | true =>
      obtain ⟨-, ⟨-, hcmds⟩, -⟩ := forwardingOk_of_taskOk hwrap hphase hcall hok
      refine .inr ⟨req, wrap, c, cmds, x, rfl, hwrap, hphase, hcmds c List.mem_cons_self, rfl, ?_⟩
      rw [issued, htask, Option.bind_some, hphase]
      cases hwrap <;> rfl
  | _ => exact .inl ⟨rfl, rfl⟩

variable (serde blake3 app) in
/-- What is under a key was answered and stored in the run, and the key has a deadline that is no
further away from that than the TTL. With a TTL of zero there is no deadline. -/
def FreshEntry (start : ProxyState ι Text) (as : List (TimedLabel (ProxyAction ι)))
    (s : Clocked (ProxyState ι Text) String) (key : String) (text : Text) : Prop :=
  ∃ i orig req chain resp ttl time, key = app.key serde blake3 chain req ∧
    text = resp.toText serde ∧ resp.error = none ∧
    Once (proxyStep serde blake3 app) (ResolvedBy app i chain orig req) start (untimed as) ∧
    Once (proxyStep serde blake3 app)
      (UpstreamAnswered app (app.chains chain).chainId req resp) start (untimed as) ∧
    Once (timedProxyStep serde blake3 app) (StoredAt serde blake3 app chain req resp ttl time)
      (.start start) as ∧
    (ttl ≠ 0 → ∃ d, (key, d) ∈ s.deadlines ∧ d ≤ time + ttl)

section Fresh

variable {start : ProxyState ι Text} {as : List (TimedLabel (ProxyAction ι))}
  {c d : Clocked (ProxyState ι Text) String} {l : TimedLabel (ProxyAction ι)} {key : String}
  {text : Text}

theorem FreshEntry.append (h : FreshEntry serde blake3 app start as c key text)
    (hdeadlines : ∀ e, (key, e) ∈ c.deadlines → (key, e) ∈ d.deadlines)
    (bs : List (TimedLabel (ProxyAction ι))) :
    FreshEntry serde blake3 app start (as ++ bs) d key text := by
  obtain ⟨i, orig, req, chain, resp, ttl, time, hkey, htext, herror, hresolved, hanswered, hstored,
    hdue⟩ := h
  refine ⟨i, orig, req, chain, resp, ttl, time, hkey, htext, herror, ?_, ?_, hstored.append bs,
    fun httl => ?_⟩
  · rw [untimed_append]
    exact hresolved.append _
  · rw [untimed_append]
    exact hanswered.append _
  · obtain ⟨e, he, hle⟩ := hdue httl
    exact ⟨e, hdeadlines e he, hle⟩

/-- A command leaves the deadlines of the other keys. -/
theorem Command.mem_expiry {cmd : Command Text} {clock e : ℕ} {ds : List (String × ℕ)}
    (hne : key ≠ cmd.key) (he : (key, e) ∈ ds) : (key, e) ∈ cmd.expiry.apply clock ds := by
  refine DeadlineEffect.mem_apply_of_mem he (fun h => hne ?_) fun after h => hne ?_
  · cases cmd with
    | set key value px => cases px <;> cases h; rfl
    | sadd key member => cases h
    | del key => cases h; rfl
  · cases cmd with
    | set key value px => cases px <;> cases h; rfl
    | sadd key member => cases h
    | del key => cases h

/-- With a TTL there is a deadline, and it is no further away. -/
theorem RedisClient.mem_expiry_set {ttl : ℕ} (httl : ttl ≠ 0) (key : String) (text : Text)
    (clock : ℕ) (ds : List (String × ℕ)) :
    ∃ e, (key, e) ∈ (RedisClient.set key text ttl).expiry.apply clock ds ∧ e ≤ clock + ttl := by
  rw [RedisClient.set, if_neg httl]
  refine ⟨_, List.mem_cons_self, ?_⟩
  have hle : asI64 ttl ≤ ttl := bmod_le ttl _
  omega

theorem freshEntry_step {chain : ι} {req : JsonRpcRequest} {latest : ι → Option ℕ}
    (hrun : run (timedProxyStep serde blake3 app) (.start (.init (fun _ => none) latest)) as =
      some c)
    (h : ∀ chain req text, c.state.redis.get (app.key serde blake3 chain req) = some text →
      FreshEntry serde blake3 app (.init (fun _ => none) latest) as c
        (app.key serde blake3 chain req) text)
    (hd : timedProxyStep serde blake3 app c l = some d)
    (hget : d.state.redis.get (app.key serde blake3 chain req) = some text) :
    FreshEntry serde blake3 app (.init (fun _ => none) latest) (as ++ [l]) d
      (app.key serde blake3 chain req) text := by
  have hproxy := proxyRun_of_timed hrun
  have hhistory := cacheHistory_run hproxy
  cases timedMove hd with
  | wait hwait => exact (h chain req text hget).append (fun _ he => he) _
  | @act a t ht =>
    have hget : t.redis.get (app.key serde blake3 chain req) = some text := hget
    have hquiet (hredis : t.redis = c.state.redis) (hnone : issued serde app c.state a = none) :
        FreshEntry serde blake3 app (.init (fun _ => none) latest) (as ++ [.act a])
          ⟨t, c.clock, (expiryEffect serde app c.state a).apply c.clock c.deadlines⟩
          (app.key serde blake3 chain req) text := by
      refine (h chain req text (hredis ▸ hget)).append (fun e he => ?_) _
      rw [expiryEffect, hnone]
      exact he
    have helsewhere {cmd : Command Text} (hissued : issued serde app c.state a = some cmd)
        (hredis : t.redis = c.state.redis.exec cmd)
        (hne : app.key serde blake3 chain req ≠ cmd.key) :
        FreshEntry serde blake3 app (.init (fun _ => none) latest) (as ++ [.act a])
          ⟨t, c.clock, (expiryEffect serde app c.state a).apply c.clock c.deadlines⟩
          (app.key serde blake3 chain req) text := by
      have hold : c.state.redis.get (app.key serde blake3 chain req) = some text := by
        rw [← Redis.get_congr (c.state.redis.exec_of_ne cmd hne), ← hredis]
        exact hget
      refine (h chain req text hold).append (fun e he => ?_) _
      rw [expiryEffect, hissued]
      exact Command.mem_expiry hne he
    cases stepped (proxyStep_of_accepted ht) with
    | @move i a task m htask hm =>
      have hok := (proxyInv_run hproxy).task i task htask
      rcases issued_move htask (taskMoved hm) hok with ⟨hredis, hnone⟩ |
        ⟨req', wrap, cmd, cmds, x, rfl, hwrap, hphase, hcmd, hexec, hissued⟩
      · exact hquiet hredis hnone
      by_cases hkey : app.key serde blake3 chain req = cmd.key
      · obtain ⟨-, resp, rfl, -, ⟨px, rfl⟩ | rfl⟩ := eq_of_mem_storeAnswer hcmd
        · obtain ⟨resp', ttl, hresp, herror, httl, hset⟩ := set_of_mem_storeAnswer hcmd
          cases hresp
          have hrequest : task.phase.request = some req' := hphase ▸ hwrap.request _
          have htext : text = resp.toText serde := by
            have hredis : (c.state.apply i task m).redis = m.redis := rfl
            rw [hredis, hexec, hkey, Redis.get, Redis.exec, Command.key,
              Function.update_self] at hget
            exact (Option.some.inj hget).symm
          refine ⟨i, task.req, req', task.chain, resp, ttl, c.clock, hkey, htext, herror,
            ?_, ?_, ?_, fun hne => ?_⟩
          · rw [untimed_append]
            exact (hhistory.resolved i task req' htask hrequest).append _
          · rw [untimed_append]
            exact (hhistory.answered i task req' wrap _ resp htask hwrap hphase).append _
          · exact once_concat hrun ⟨rfl, httl, i, task, wrap, cmds, rfl, htask, rfl, hwrap,
              hphase.trans (by rw [hset]; rfl)⟩
          · rw [expiryEffect, hissued, hset, hkey]
            exact RedisClient.mem_expiry_set hne _ _ _ _
        · exact absurd hkey (cacheKey_ne_headCacheSetKey serde blake3 _ _ _)
      · exact helsewhere hissued hexec hkey
    | write hc =>
      have hharmless : HarmlessFor (app.key serde blake3 chain req) _ := harmless_cacheWrite hc
      rcases hharmless with hne | rfl
      · exact helsewhere hc rfl hne
      · have hgone : (c.state.redis.exec (.del (app.key serde blake3 chain req))).get
            (app.key serde blake3 chain req) = some text := hget
        rw [Redis.get, Redis.exec_del_self] at hgone
        cases hgone
    | request | head | batch | skip | item | collect | reply => exact hquiet rfl rfl

theorem freshEntry_run {latest : ι → Option ℕ}
    (hrun : run (timedProxyStep serde blake3 app) (.start (.init (fun _ => none) latest)) as =
      some c) :
    ∀ chain req text, c.state.redis.get (app.key serde blake3 chain req) = some text →
      FreshEntry serde blake3 app (.init (fun _ => none) latest) as c
        (app.key serde blake3 chain req) text :=
  run_history (H := fun as (c : Clocked (ProxyState ι Text) String) => ∀ chain req text,
      c.state.redis.get (app.key serde blake3 chain req) = some text →
        FreshEntry serde blake3 app (.init (fun _ => none) latest) as c
          (app.key serde blake3 chain req) text)
    (fun _ _ _ hget => by cases hget)
    (fun _ _ _ _ hu h hv _ _ _ hget => freshEntry_step hu h hv hget) hrun

end Fresh

/-! ### Hits -/

/-- **A cached answer is no older than its TTL.** In a timed run from an empty Redis in which
digests are apart, what a request gets from the cache is the result of a response without an error
that was stored for a request with its method and its resolved parameters on a chain with its chain
id, and the time since is at most the TTL that the policies give that request, unless it is
zero. -/
theorem cacheHit_fresh {latest : ι → Option ℕ} {as : List (TimedLabel (ProxyAction ι))}
    {c d : Clocked (ProxyState ι Text) String} {i : ℕ} {b : TaskStep} {task : Task ι Text}
    {resp : JsonRpcResponse} (hdecoded : ∀ a ∈ untimed as, a.Decoded)
    (hdigests : blake3.Separates serde {req | req ∈ gather (proxyStep serde blake3 app)
      app.resolved (.init (fun _ => none) latest) (untimed as)})
    (hrun : run (timedProxyStep serde blake3 app) (.start (.init (fun _ => none) latest)) as =
      some c)
    (htask : c.state.tasks i = some task)
    (hd : timedProxyStep serde blake3 app c (.act (.task i b)) = some d)
    (hhit : d.state.tasks i = some { task with phase := .done .cacheHit resp }) :
    ∃ req chain req' stored ttl time,
      Once (proxyStep serde blake3 app) (ResolvedBy app i task.chain task.req req)
        (.init (fun _ => none) latest) (untimed as) ∧
      (app.chains chain).chainId = (app.chains task.chain).chainId ∧
      req'.method = req.method ∧ req'.params = req.params ∧
      Once (proxyStep serde blake3 app)
        (UpstreamAnswered app (app.chains chain).chainId req' stored)
        (.init (fun _ => none) latest) (untimed as) ∧
      Once (timedProxyStep serde blake3 app) (StoredAt serde blake3 app chain req' stored ttl time)
        (.start (.init (fun _ => none) latest)) as ∧
      stored.error = none ∧ resp.error = none ∧ resp.result = stored.result ∧
      (ttl = 0 ∨ c.clock ≤ time + ttl) := by
  have hproxy := proxyRun_of_timed hrun
  have hhistory := cacheHistory_run hproxy
  cases timedMove hd with
  | @act _ t ht =>
    have hhit : t.tasks i = some { task with phase := .done .cacheHit resp } := hhit
    cases stepped (proxyStep_of_accepted ht) with
    | @move _ _ task₀ m htask₀ hm =>
      obtain rfl := Option.some.inj (htask.symm.trans htask₀)
      rw [c.state.tasks_apply_self, Option.some.injEq] at hhit
      have hphase : m.phase = .done .cacheHit resp := congrArg Task.phase hhit
      cases (taskMove_spec ((proxyInv_run hproxy).task i task htask) hm).finishes _ _ hphase with
      | @cacheHit req text decoded hlooking hget hread =>
        have hresolved := hhistory.resolved i task req htask (by rw [hlooking]; rfl)
        obtain ⟨j, orig, req', chain, stored, ttl, time, hkey, rfl, herror, hresolved', hanswered,
          hstored, hdue⟩ := freshEntry_run hrun task.chain req text hget
        have hmem := mem_gather_of_once (hresolved.mono fun u a h => h.mem_resolved)
        have hmem' := mem_gather_of_once (hresolved'.mono fun u a h => h.mem_resolved)
        obtain ⟨hchain, hmethod, hparams⟩ := hdigests.eq_of_cacheKey hmem hmem' hkey
        rw [JsonRpcResponse.ofText_toText, decoded_of_answered hdecoded hanswered,
          Option.some.injEq] at hread
        subst hread
        refine ⟨req, chain, req', stored, ttl, time, hresolved, hchain.symm, hmethod.symm,
          hparams.symm, hanswered, hstored, herror, herror, rfl, ?_⟩
        by_cases httl : ttl = 0
        · exact .inl httl
        · obtain ⟨e, he, hle⟩ := hdue httl
          exact .inr ((inTime_run hrun _ he).trans hle)

/-- The balance of `repeatedBalance` is asked for again when it has been there for three seconds. -/
def agedBalance : List (TimedLabel (ProxyAction Unit)) := repeatedBalance.map .act ++ [.wait 3000]

theorem agedBalance_fresh :
    ∃ c d : Clocked (ProxyState Unit Value) String,
      run (timedProxyStep .tree balanceDigest oneChain)
        (.start (.init (fun _ => none) fun _ => none)) agedBalance = some c ∧
      timedProxyStep .tree balanceDigest oneChain c (.act (.task 1 (.get true))) = some d ∧
      d.state.tasks 1 = some ⟨(), balanceRequest (.ofU64 2), none,
        .done .cacheHit (.success (.ofU64 2) (.string "0x10"))⟩ ∧
      ∃ req stored ttl time,
        Once (timedProxyStep .tree balanceDigest oneChain)
          (StoredAt .tree balanceDigest oneChain () req stored ttl time)
          (.start (.init (fun _ => none) fun _ => none)) agedBalance ∧
        stored.result = some (.string "0x10") ∧ (ttl = 0 ∨ 3000 ≤ time + ttl) := by
  obtain ⟨c, d, hrun, hd, htask, hhit, hclock⟩ :
      ∃ c d : Clocked (ProxyState Unit Value) String,
        run (timedProxyStep .tree balanceDigest oneChain)
          (.start (.init (fun _ => none) fun _ => none)) agedBalance = some c ∧
        timedProxyStep .tree balanceDigest oneChain c (.act (.task 1 (.get true))) = some d ∧
        c.state.tasks 1 = some ⟨(), balanceRequest (.ofU64 2), none,
          .lookingUp (balanceRequest (.ofU64 2))⟩ ∧
        d.state.tasks 1 = some ⟨(), balanceRequest (.ofU64 2), none,
          .done .cacheHit (.success (.ofU64 2) (.string "0x10"))⟩ ∧ c.clock = 3000 :=
    ⟨_, _, rfl, rfl, rfl, rfl, rfl⟩
  have hdecoded : ∀ a ∈ untimed agedBalance, a.Decoded := by
    have hanswer : ∃ v, JsonRpcResponse.deserialize v =
        some (.success (.ofU64 1) (.string "0x10")) :=
      ⟨(JsonRpcResponse.success (.ofU64 1) (.string "0x10")).serialize,
        JsonRpcResponse.deserialize_serialize _⟩
    simpa [agedBalance, repeatedBalance, untimed, ProxyAction.Decoded] using hanswer
  have hresolved : gather (proxyStep .tree balanceDigest oneChain) oneChain.resolved
      (.init (fun _ => none) fun _ => none) (untimed agedBalance) =
        [balanceRequest (.ofU64 1), balanceRequest (.ofU64 2)] := rfl
  obtain ⟨-, chain, req, stored, ttl, time, -, -, -, -, -, hstored, -, -, hresult, hage⟩ :=
    cacheHit_fresh hdecoded (hresolved ▸ balanceDigest_separates) hrun htask hd hhit
  exact ⟨c, d, hrun, hd, hhit, req, stored, ttl, time, hstored, hresult.symm, hclock ▸ hage⟩

end Poolbeg
