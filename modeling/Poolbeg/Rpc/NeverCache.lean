import Poolbeg.Rpc.Batches
import Poolbeg.Rpc.CacheHit

/-!
# Methods that are never cached

A TTL of `-1` means that a method is never cached and always forwarded. The policy is consulted only
when a response is written, and there it holds: no entry is ever stored under a key of such a
method. But responses are shared in two more places, which do not ask the policy. A call that finds
another one in flight under its key waits for its response, and a batch item with the key of an
earlier one is answered with a clone of its response.

So each request of a never cached method is answered by a call of its own exactly when none of the
three ways of sharing is taken: no waiter receives a broadcast, no item is marked as a duplicate,
and no lookup meets an entry that was in Redis before the run.

## Digests

A key stands for a method only as far as digests do. `SeparatesMethod` says this of a set of
requests, which in the end are those that are resolved in a run: no request of another method among
them has the digest of one of the method's. Two requests of the method may well have one digest, for
instance because they are alike; that is when the coalescer and the first pass share.

## Why the third way is there

A run may start from any contents of Redis. What another configuration has stored there, when the
method still had a TTL, is found by the first lookup. The invariant is that nothing is added to it:
under the keys of the method there is what was there before, or nothing. From an empty Redis only
the other two ways are left (`notShared_of_unshared`).

## Main definitions

* `NeverCached`, `SeparatesMethod` — the policy, and what is asked of digests
* `ProxyState.Forwarded` — every request of the method is answered by itself
* `NotShared` — what that asks of a step

## Main results

* `redisKept_step` — nothing is stored under a key of the method
* `forwarded_step_iff` — one step
* `always_forwarded_iff` — every run
-/

namespace Poolbeg

open Lts

variable {ι Text : Type}

/-- The policies give the method no TTL, in either finality state. It is the first policy that lists
the method which decides. -/
def NeverCached (app : AppConfig ι) (method : String) : Prop :=
  ∀ isUnfinalized, resolveTtl app.cache method isUnfinalized = none

/-- Among these requests only those of the method have the digest of one of its requests. It is
asked of finitely many requests, and a digest of 256 bits can meet it. -/
def SeparatesMethod (serde : SerdeJson Text) (blake3 : Blake3 Text)
    (requests : Set JsonRpcRequest) (method : String) : Prop :=
  ∀ req ∈ requests, ∀ req' ∈ requests, req.method = method →
    blake3.hex (serde.toString (normalizeForCache req)) =
      blake3.hex (serde.toString (normalizeForCache req')) → req'.method = method

/-- The request `i` was refused, served from memory, or answered by the upstream call it made. In
neither case was the response another request's. -/
def ProxyState.AnsweredByItself (s : ProxyState ι Text) (i : ℕ) (task : Task ι Text) (exit : Exit)
    (resp : JsonRpcResponse) : Prop :=
  exit = .blocked ∨ exit = .memoryIntercept ∨
    ∃ answer, s.answers i = some answer ∧ resp = respond task.req.id answer

/-- Every request of the method that has been answered was answered by itself, and every item of a
batch that has been replied to was a request of its own. -/
structure ProxyState.Forwarded (method : String) (s : ProxyState ι Text) : Prop where
  tasks : ∀ i task exit resp, s.tasks i = some task → task.req.method = method →
    task.phase = .done exit resp → s.AnsweredByItself i task exit resp
  batches : ∀ (b : ℕ) (batch : Batch ι) (responses : List JsonRpcResponse) (k : ℕ)
    (req : JsonRpcRequest), s.batches b = some batch → batch.replied = some responses →
    batch.reqs[k]? = some req → req.method = method →
    ∃ i task exit resp, s.tasks i = some task ∧ task.origin = some (b, k) ∧ task.req = req ∧
      task.phase = .done exit resp ∧ responses[k]? = some resp

variable (serde : SerdeJson Text) (blake3 : Blake3 Text) (app : AppConfig ι) (redis : Redis Text)
  (method : String)

/-- No response is shared with a request of the method: by a broadcast, by an entry that was there
before the run, or by the first pass over a batch. Every clause is about a state before a step. -/
def NotShared (s : ProxyState ι Text) : ProxyAction ι → Prop
  | .task i (.coalesce .recv) => ∀ task c msg, s.tasks i = some task → task.req.method = method →
      ¬ ReceivedBy s.coalescer i c msg
  | .task i (.get true) => ∀ task req text, s.tasks i = some task → task.req.method = method →
      task.phase = .lookingUp req →
      redis.get (app.key serde blake3 task.chain req) = some text →
      s.redis.get (app.key serde blake3 task.chain req) = some text →
      JsonRpcResponse.ofText serde text = none
  | .reply b => ∀ (batch : Batch ι) (k : ℕ) (req : JsonRpcRequest), s.batches b = some batch →
      batch.reqs[k]? = some req → req.method = method →
      (batch.dedup serde blake3 app)[k]? = some none
  | _ => True

variable {serde blake3 app redis method} {requests : Set JsonRpcRequest} {s t : ProxyState ι Text}

/-! ### Nothing is stored under a key of the method -/

/-- All tasks work on requests of this set. -/
def ProxyState.WorksOn (requests : Set JsonRpcRequest) (s : ProxyState ι Text) : Prop :=
  ∀ i task req, s.tasks i = some task → task.phase.request = some req → req ∈ requests

theorem worksOn_step [DecidableEq ι] {a : ProxyAction ι} (hs : s.WorksOn requests)
    (hresolved : ∀ req ∈ app.resolved s a, req ∈ requests)
    (h : proxyStep serde blake3 app s a = some t) : t.WorksOn requests := by
  intro i task req htask hreq
  cases taskOrigin h htask with
  | kept hkept => exact hs i task req hkept hreq
  | moved hold hm heq =>
    subst heq
    rcases hm.request hold hreq with hsame | hresolves
    · exact hs i _ req hold hsame
    · exact hresolved req hresolves.mem_resolved
  | requested hfresh heq | item hfresh hbatch hitem heq =>
    subst heq
    exact absurd hreq (Option.some_ne_none _).symm

variable (serde blake3 app redis requests method) in
/-- Under the keys of the method Redis holds what it held before the run, or nothing. Deletions and
evictions are allowed. -/
def ProxyState.RedisKept (s : ProxyState ι Text) : Prop :=
  ∀ chain, ∀ req ∈ requests, req.method = method →
    s.redis (app.key serde blake3 chain req) = redis (app.key serde blake3 chain req) ∨
      s.redis (app.key serde blake3 chain req) = none

theorem redisKept_exec {s' : ProxyState ι Text} {c : Command Text}
    (hs : s.RedisKept serde blake3 app redis method requests) (hredis : s'.redis = s.redis.exec c)
    (hc : ∀ chain, ∀ req ∈ requests, req.method = method →
      HarmlessFor (app.key serde blake3 chain req) c) :
    s'.RedisKept serde blake3 app redis method requests := by
  intro chain req hreq hmethod
  rw [hredis]
  rcases (hc chain req hreq hmethod).exec (r := s.redis) with hsame | hnone
  · rw [hsame]
    exact hs chain req hreq hmethod
  · exact .inr hnone

theorem harmless_storeAnswer (hnever : NeverCached app method)
    (hdigest : SeparatesMethod serde blake3 requests method) {chain chain' : ι}
    {req req' : JsonRpcRequest} (hreq : req ∈ requests) (hreq' : req' ∈ requests)
    {answer : Answer} {c : Command Text} (hmethod : req.method = method)
    (h : c ∈ storeAnswer serde blake3 app.cache (app.chains chain') req' answer) :
    HarmlessFor (app.key serde blake3 chain req) c := by
  obtain ⟨⟨isUnfinalized, httl⟩, hkey⟩ := key_of_mem_storeAnswer h
  refine .inl ?_
  rcases hkey with hkey | hkey
  · rw [hkey]
    intro heq
    have hmethod' := hdigest req hreq req' hreq' hmethod (chainKey_inj.mp heq).2
    exact httl (hmethod' ▸ hnever isUnfinalized)
  · rw [hkey]
    exact cacheKey_ne_headCacheSetKey serde blake3 _ _ _

theorem redisKept_step [DecidableEq ι] {a : ProxyAction ι} (hnever : NeverCached app method)
    (hdigest : SeparatesMethod serde blake3 requests method) (hinv : ProxyInv serde blake3 app s)
    (hworks : s.WorksOn requests) (hs : s.RedisKept serde blake3 app redis method requests)
    (h : proxyStep serde blake3 app s a = some t) :
    t.RedisKept serde blake3 app redis method requests := by
  cases stepped h with
  | @move i a task m htask hm =>
    rcases (taskMoved hm).redis (hinv.task i task htask) with
      hsame | ⟨req, wrap, cmds, c, answer, hwrap, hphase, hc, hexec⟩
    · have hredis : (s.apply i task m).redis = s.redis := hsame
      rw [ProxyState.RedisKept, hredis]
      exact hs
    · have hreq : req ∈ requests := hworks i task req htask (hphase ▸ hwrap.request _)
      exact redisKept_exec hs hexec fun chain req' hreq' hmethod =>
        harmless_storeAnswer hnever hdigest hreq' hreq hmethod hc
  | write hc => exact redisKept_exec hs rfl fun chain req _ _ => harmless_cacheWrite hc
  | _ => exact hs

/-! ### One step -/

section Step

variable {i : ℕ} {task : Task ι Text} {a : TaskStep} {m : Move Text}

/-- Batches are as they were answered while tasks only move on. -/
theorem forwarded_batches (hs : s.Forwarded method) (hkept : TasksKept s t)
    {b : ℕ} {batch : Batch ι} {responses : List JsonRpcResponse} {k : ℕ} {req : JsonRpcRequest}
    (hb : s.batches b = some batch) (hreplied : batch.replied = some responses)
    (hreq : batch.reqs[k]? = some req) (hmethod : req.method = method) :
    ∃ i task exit resp, t.tasks i = some task ∧ task.origin = some (b, k) ∧ task.req = req ∧
      task.phase = .done exit resp ∧ responses[k]? = some resp := by
  obtain ⟨i, task, exit, resp, htask, horigin, htaskReq, hdone, hresp⟩ :=
    hs.batches b batch responses k req hb hreplied hreq hmethod
  obtain ⟨phase, htask', hphase⟩ := hkept i task htask
  exact ⟨i, _, exit, resp, htask', horigin, htaskReq, hphase exit resp hdone, hresp⟩

/-- A move keeps the promise unless it ends a request of the method on one of the two exits that
share. -/
theorem forwarded_apply_iff (hinv : ProxyInv serde blake3 app s) (hs : s.Forwarded method)
    (htask : s.tasks i = some task) (hm : taskMove serde blake3 app s i task a = some m) :
    (s.apply i task m).Forwarded method ↔ (task.req.method = method →
      ∀ exit resp, m.phase = .done exit resp → exit ≠ .cacheHit ∧ exit ≠ .coalesced) := by
  have hspec := taskMove_spec (hinv.task i task htask) hm
  constructor
  · intro h hmethod exit resp hphase
    have hself := h.tasks i { task with phase := m.phase } exit resp
      (s.tasks_apply_self i task m) hmethod hphase
    have hok := hspec.ok
    rw [TaskOk, hphase] at hok
    -- on these exits the task has no answer of its own
    constructor
    · rintro rfl
      rcases hself with h | h | ⟨answer, hanswer, -⟩
      · cases h
      · cases h
      · rw [s.answers_apply_self] at hanswer
        exact absurd (Eq.trans (Eq.symm hok) hanswer) (Option.some_ne_none _).symm
    · rintro rfl
      rcases hself with h | h | ⟨answer, hanswer, -⟩
      · cases h
      · cases h
      · rw [s.answers_apply_self] at hanswer
        exact absurd (Eq.trans (Eq.symm hok) hanswer) (Option.some_ne_none _).symm
  · intro h
    refine ⟨fun j task' exit resp hj hmethod hphase => ?_,
      fun b batch responses k req hb hreplied hreq hmethod =>
        forwarded_batches hs (tasksKept_apply htask hm) hb hreplied hreq hmethod⟩
    rcases ProxyState.tasks_apply_eq_some hj with ⟨rfl, rfl⟩ | ⟨hji, hj⟩
    · obtain ⟨hcache, hcoalesced⟩ := h hmethod exit resp hphase
      cases hspec.finishes exit resp hphase with
      | blocked => exact .inl rfl
      | memoryIntercept => exact .inr (.inl rfl)
      | cacheHit => exact absurd rfl hcache
      | coalesced => exact absurd rfl hcoalesced
      | upstream hanswer =>
        exact .inr (.inr ⟨_, (s.answers_apply_self j task m).trans (hspec.answer _ hanswer), rfl⟩)
    · rcases hs.tasks j task' exit resp hj hmethod hphase with h | h | ⟨answer, hanswer, hresp⟩
      · exact .inl h
      · exact .inr (.inl h)
      · exact .inr (.inr ⟨answer, (s.answers_apply_of_ne task m hji).trans hanswer, hresp⟩)

/-- A lookup that finds a readable response returns it. -/
theorem done_of_get {req : JsonRpcRequest} {text : Text} {resp : JsonRpcResponse}
    (hphase : task.phase = .lookingUp req)
    (hget : s.redis.get (app.key serde blake3 task.chain req) = some text)
    (hresp : JsonRpcResponse.ofText serde text = some resp)
    (hm : taskMove serde blake3 app s i task (.get true) = some m) :
    m.phase = .done .cacheHit (resp.withId task.req.id) := by
  rw [taskMove, hphase] at hm
  simp only [lookingUpMove, if_true, hget, Option.bind_some, hresp, Option.some.injEq] at hm
  exact hm ▸ rfl

theorem notShared_move_iff (hinv : ProxyInv serde blake3 app s) (hworks : s.WorksOn requests)
    (hredis : s.RedisKept serde blake3 app redis method requests) (htask : s.tasks i = some task)
    (hm : taskMove serde blake3 app s i task a = some m) :
    (task.req.method = method →
        ∀ exit resp, m.phase = .done exit resp → exit ≠ .cacheHit ∧ exit ≠ .coalesced) ↔
      NotShared serde blake3 app redis method s (.task i a) := by
  have hok := hinv.task i task htask
  have hfinishes := (taskMove_spec hok hm).finishes
  constructor
  · intro h
    cases a with
    | get ok =>
      cases ok with
      | false => trivial
      | true =>
        intro task' req text htask' hmethod hphase _ hget
        obtain rfl := Option.some.inj (htask.symm.trans htask')
        rw [Option.eq_none_iff_forall_ne_some]
        intro resp hresp
        exact (h hmethod _ _ (done_of_get hphase hget hresp hm)).1 rfl
    | coalesce op =>
      cases op with
      | recv =>
        intro task' c msg htask' hmethod hreceived
        obtain rfl := Option.some.inj (htask.symm.trans htask')
        obtain ⟨leader, answer, -, -, hresp⟩ := hinv.received hreceived
        exact (h hmethod _ _ (done_of_received hreceived hresp hm)).2 rfl
      | _ => trivial
    | _ => trivial
  · intro h hmethod exit resp hphase
    cases hfinishes exit resp hphase with
    | blocked => exact ⟨nofun, nofun⟩
    | memoryIntercept => exact ⟨nofun, nofun⟩
    | upstream => exact ⟨nofun, nofun⟩
    | coalesced hreceived _ => exact absurd hreceived (h task _ _ htask hmethod)
    | @cacheHit req text resp hlooking hget hresp =>
      -- the entry is one from before the run
      have hreq : req.method = method := by
        rw [TaskOk, hlooking] at hok
        exact hok.1.trans hmethod
      have hkept : redis.get (app.key serde blake3 task.chain req) = some text := by
        have hmem : req ∈ requests := hworks i task req htask (hlooking ▸ rfl)
        rcases hredis task.chain req hmem hreq with hsame | hnone
        · rwa [← Redis.get_congr hsame]
        · rw [Redis.get, hnone] at hget
          cases hget
      have hnone := h task req text htask hmethod hlooking hkept hget
      exact absurd (hresp.symm.trans hnone) (Option.some_ne_none _)

theorem forwarded_reply_iff {b : ℕ} {batch : Batch ι} {responses : List JsonRpcResponse}
    (hbatches : BatchInv serde blake3 app s) (hs : s.Forwarded method)
    (hbatch : s.batches b = some batch) (hlength : batch.items.length = batch.reqs.length)
    (hresponses : thirdPass (batch.dedup serde blake3 app) batch.reqs batch.responses =
      some responses) :
    (s.setBatch b { batch with replied := some responses }).Forwarded method ↔
      NotShared serde blake3 app redis method s (.reply b) := by
  constructor
  · intro h batch' k req hbatch' hreq hmethod
    obtain rfl := Option.some.inj (hbatch.symm.trans hbatch')
    obtain ⟨i, task, exit, resp, htask, horigin, -⟩ := h.batches b _ responses k req
      (s.batches_setBatch_self b _) rfl hreq hmethod
    obtain ⟨batch', hbatch', hdedup⟩ := hbatches.origin i task b k htask horigin
    obtain rfl := Option.some.inj (hbatch.symm.trans hbatch')
    exact hdedup
  · intro h
    refine ⟨hs.tasks, fun b' batch' responses' k req hb' hreplied hreq hmethod => ?_⟩
    rcases ProxyState.batches_setBatch_eq_some hb' with ⟨rfl, rfl⟩ | ⟨-, hb'⟩
    · cases hreplied
      exact reply_item (s := s) (hbatches.batch b' batch hbatch) hlength hresponses hreq
        (h batch k req hbatch hreq hmethod)
    · exact hs.batches b' batch' responses' k req hb' hreplied hreq hmethod

/-- A batch that has not been replied to promises nothing. -/
theorem forwarded_setBatch (hs : s.Forwarded method) {b : ℕ} {batch' : Batch ι}
    (hold : ∀ batch, s.batches b = some batch → batch'.replied = batch.replied ∧
      batch'.reqs = batch.reqs)
    (hnew : s.batches b = none → batch'.replied = none) :
    (s.setBatch b batch').Forwarded method := by
  refine ⟨hs.tasks, fun b' batch'' responses k req hb' hreplied hreq hmethod => ?_⟩
  rcases ProxyState.batches_setBatch_eq_some hb' with ⟨rfl, rfl⟩ | ⟨-, hb'⟩
  · cases hb : s.batches b' with
    | none => exact absurd ((hnew hb).symm.trans hreplied) nofun
    | some batch =>
      obtain ⟨hreplied', hreqs⟩ := hold batch hb
      exact hs.batches b' batch responses k req hb (hreplied' ▸ hreplied) (hreqs ▸ hreq) hmethod
  · exact hs.batches b' batch'' responses k req hb' hreplied hreq hmethod

theorem forwarded_withTask (hs : s.Forwarded method) (hfresh : s.tasks i = none) (chain : ι)
    (req : JsonRpcRequest) (origin : Option (ℕ × ℕ)) :
    (s.withTask i chain req origin).Forwarded method := by
  refine ⟨fun j task exit resp hj hmethod hphase => ?_,
    fun b batch responses k req' hb hreplied hreq hmethod =>
      forwarded_batches hs (tasksKept_withTask hfresh chain req origin) hb hreplied hreq hmethod⟩
  rcases ProxyState.tasks_withTask_eq_some hj with ⟨rfl, rfl⟩ | ⟨-, hj⟩
  · exact absurd hphase nofun
  · exact hs.tasks j task exit resp hj hmethod hphase

theorem forwarded_step_iff [DecidableEq ι] {a : ProxyAction ι}
    (hinv : ProxyInv serde blake3 app s) (hworks : s.WorksOn requests)
    (hredis : s.RedisKept serde blake3 app redis method requests)
    (hbatches : BatchInv serde blake3 app s) (hs : s.Forwarded method)
    (h : proxyStep serde blake3 app s a = some t) :
    t.Forwarded method ↔ NotShared serde blake3 app redis method s a := by
  cases stepped h with
  | request hfresh => exact iff_of_true (forwarded_withTask hs hfresh _ _ _) trivial
  | move htask hm =>
    rw [forwarded_apply_iff hinv hs htask hm]
    exact notShared_move_iff hinv hworks hredis htask hm
  | head => exact iff_of_true ⟨hs.tasks, hs.batches⟩ trivial
  | write hc => exact iff_of_true ⟨hs.tasks, hs.batches⟩ trivial
  | batch hfresh =>
    refine iff_of_true (forwarded_setBatch hs (fun batch hb => ?_) fun _ => rfl) trivial
    exact absurd (hfresh.symm.trans hb) nofun
  | @skip b first batch hbatch hcurrent hdedup =>
    refine iff_of_true (forwarded_setBatch hs (fun batch' hb => ?_) fun hb => ?_) trivial
    · obtain rfl := Option.some.inj (hbatch.symm.trans hb)
      exact ⟨rfl, rfl⟩
    · exact absurd (hb.symm.trans hbatch) nofun
  | @item b i batch req hbatch hcurrent hdedup hreq hfresh =>
    refine iff_of_true (forwarded_setBatch (forwarded_withTask hs hfresh _ _ _)
      (fun batch' hb => ?_) fun hb => ?_) trivial
    · obtain rfl := Option.some.inj (hbatch.symm.trans hb)
      exact ⟨rfl, rfl⟩
    · exact absurd (hb.symm.trans hbatch) nofun
  | @collect b i batch task exit resp hbatch hcurrent htask hdone =>
    refine iff_of_true (forwarded_setBatch hs (fun batch' hb => ?_) fun hb => ?_) trivial
    · obtain rfl := Option.some.inj (hbatch.symm.trans hb)
      exact ⟨rfl, rfl⟩
    · exact absurd (hb.symm.trans hbatch) nofun
  | reply hbatch hcurrent hlength hreplied hresponses =>
    exact forwarded_reply_iff hbatches hs hbatch hlength hresponses

end Step

variable (serde blake3 app redis) in
/-- **Every request of a never cached method is answered by a call of its own, in every state of a
run, exactly when no response is shared with one.** Of the digests it is asked that they tell the
requests of the method, as they are resolved in the run, from those of other methods. -/
theorem always_forwarded_iff [DecidableEq ι] (hnever : NeverCached app method)
    (latest : ι → Option ℕ) (as : List (ProxyAction ι))
    (hdigest : SeparatesMethod serde blake3 {req | req ∈
      gather (proxyStep serde blake3 app) app.resolved (.init redis latest) as} method) :
    Always (proxyStep serde blake3 app) (ProxyState.Forwarded method) (.init redis latest) as ↔
      Along (proxyStep serde blake3 app) (NotShared serde blake3 app redis method)
        (.init redis latest) as := by
  set requests := {req | req ∈
    gather (proxyStep serde blake3 app) app.resolved (.init redis latest) as} with hrequests
  refine always_iff_along_of_along (D := fun s a => ∀ req ∈ app.resolved s a, req ∈ requests)
    (I := fun s => ProxyInv serde blake3 app s ∧ s.WorksOn requests ∧
      s.RedisKept serde blake3 app redis method requests ∧ BatchInv serde blake3 app s)
    (fun s a t hs hresolved ht => ?_) (fun s a t hs hresolved hforwarded ht => ?_)
    (along_mem_gather (List.Subset.refl _)) ?_ ?_
  · obtain ⟨hinv, hworks, hredis, hbatches⟩ := hs
    exact ⟨proxyInv_step hinv ht, worksOn_step hworks hresolved ht,
      redisKept_step hnever hdigest hinv hworks hredis ht, batchInv_step hbatches ht⟩
  · obtain ⟨hinv, hworks, hredis, hbatches⟩ := hs
    exact forwarded_step_iff hinv hworks hredis hbatches hforwarded ht
  · exact ⟨proxyInv_init redis latest, fun _ _ _ h => absurd h (Option.some_ne_none _).symm,
      fun _ _ _ _ => .inl rfl, batchInv_init redis latest⟩
  · refine ⟨?_, ?_⟩
    · exact fun _ _ _ _ h => absurd h (Option.some_ne_none _).symm
    · exact fun _ _ _ _ _ h => absurd h (Option.some_ne_none _).symm

/-- A step that receives no broadcast and replies to no batch. -/
def ProxyAction.Unshared : ProxyAction ι → Prop
  | .task _ (.coalesce .recv) => False
  | .reply _ => False
  | _ => True

/-- From an empty Redis, responses are shared in these steps only: the receiving of a broadcast and
the reply of a batch. -/
theorem notShared_of_unshared {a : ProxyAction ι} (hempty : ∀ key, redis.get key = none)
    (ha : a.Unshared) : NotShared serde blake3 app redis method s a := by
  cases a with
  | reply b => exact absurd ha not_false
  | task i a =>
    cases a with
    | get ok =>
      cases ok with
      | false => trivial
      | true =>
        intro task req text _ _ _ htext
        exact absurd ((hempty _).symm.trans htext) nofun
    | coalesce op =>
      cases op with
      | recv => exact absurd ha not_false
      | _ => trivial
    | _ => trivial
  | _ => trivial

/-! ### A filter method -/

/-- A request for a new filter; the response is a number that is the client's own. -/
def filterRequest (id : Value) : JsonRpcRequest where
  jsonrpc := "2.0"
  method := "eth_newBlockFilter"
  params := .array []
  id := id

/-- The digest of every `filterRequest`, and another one for everything else. -/
def filterDigest : Blake3 Value where
  hex v :=
    if (v.get "method").bind Value.asStr = some "eth_newBlockFilter" then
      "7cab3647060361d36692a1305b5d28d9c6bf6545723818982f39a7c35e1c7d65"
    else "2a4c222b80fd651378c62764fe596794173dce5f0a430145970c0476f0e1bf34"
  hex_digits v := by
    refine List.all_eq_true.mp ?_
    split_ifs
    · decide
    · decide

/-- One chain, on which `eth_newBlockFilter` is never cached. -/
def filterApp : AppConfig Unit where
  chains := fun _ => { chainId := 1, finalityDepth := 64 }
  cache := ⟨[{ methods := ["eth_newBlockFilter"], finality := .any, ttl := .never }]⟩
  blockedMethods := []
  maxBatchSize := 100
  debugClient := .off

theorem neverCached_filterApp : NeverCached filterApp "eth_newBlockFilter" := by
  intro isUnfinalized
  cases isUnfinalized <;> rfl

theorem separatesMethod_filterDigest (requests : Set JsonRpcRequest) :
    SeparatesMethod .tree filterDigest requests "eth_newBlockFilter" := by
  intro req _ req' _ hmethod heq
  have hex : ∀ r : JsonRpcRequest,
      filterDigest.hex (SerdeJson.tree.toString (normalizeForCache r)) =
      if r.method = "eth_newBlockFilter" then
        "7cab3647060361d36692a1305b5d28d9c6bf6545723818982f39a7c35e1c7d65"
      else "2a4c222b80fd651378c62764fe596794173dce5f0a430145970c0476f0e1bf34" := by
    intro r
    have hread : ((normalizeForCache r).get "method").bind Value.asStr = some r.method := rfl
    change (if ((normalizeForCache r).get "method").bind Value.asStr = some _ then _ else _) = _
    rw [hread]
    simp only [Option.some.injEq]
  rw [hex, hex, if_pos hmethod] at heq
  by_contra hne
  rw [if_neg hne] at heq
  exact absurd heq (by decide)

/-- A request on its own, from its arrival to its response. -/
def filterCall (i : ℕ) (id filter : Value) : List (ProxyAction Unit) :=
  [.request i () (filterRequest id), .task i .enter, .task i .resolve, .task i (.get true),
    .task i (.coalesce .lookup), .task i (.coalesce .insert), .task i .forward,
    .task i (.answer (.ok (.success id filter))), .task i .finish, .task i (.coalesce .broadcast),
    .task i (.coalesce .remove)]

/-- Two clients that ask one after the other get filters of their own. -/
theorem filterCalls_forwarded :
    Always (proxyStep .tree filterDigest filterApp) (ProxyState.Forwarded "eth_newBlockFilter")
      (.init (fun _ => none) fun _ => none)
      (filterCall 0 (.ofU64 1) (.string "0x1") ++ filterCall 1 (.ofU64 2) (.string "0x2")) := by
  refine (always_forwarded_iff .tree filterDigest filterApp (fun _ => none) neverCached_filterApp
    (fun _ => none) _ (separatesMethod_filterDigest _)).mpr ?_
  refine Along.mono (along_of_forall (L := ProxyAction.Unshared) ?_) fun s a ha =>
    notShared_of_unshared (fun _ => rfl) ha
  simp [filterCall, ProxyAction.Unshared]

/-- A batch of two requests for a filter. -/
def filterBatch : List (ProxyAction Unit) :=
  [.batch 0 () [filterRequest (.ofU64 1), filterRequest (.ofU64 2)], .item 0 0,
    .task 0 .enter, .task 0 .resolve, .task 0 (.get true), .task 0 (.coalesce .lookup),
    .task 0 (.coalesce .insert), .task 0 .forward,
    .task 0 (.answer (.ok (.success (.ofU64 1) (.string "0x1")))), .task 0 .finish,
    .task 0 (.coalesce .broadcast), .task 0 (.coalesce .remove),
    .collect 0, .skip 0, .reply 0]

/-- The second request of the batch is not forwarded and gets the filter of the first one. -/
theorem filterBatch_not_forwarded :
    ∃ s, run (proxyStep .tree filterDigest filterApp) (.init (fun _ => none) fun _ => none)
        filterBatch = some s ∧
      (∃ batch, s.batches 0 = some batch ∧ batch.replied =
        some [.success (.ofU64 1) (.string "0x1"), .success (.ofU64 2) (.string "0x1")]) ∧
      ¬ s.Forwarded "eth_newBlockFilter" := by
  obtain ⟨s, hrun, batch, hbatch, hreqs, hreplied, hdedup⟩ :
      ∃ s, run (proxyStep .tree filterDigest filterApp) (.init (fun _ => none) fun _ => none)
          filterBatch = some s ∧ ∃ batch, s.batches 0 = some batch ∧
        batch.reqs[1]? = some (filterRequest (.ofU64 2)) ∧
        batch.replied =
          some [.success (.ofU64 1) (.string "0x1"), .success (.ofU64 2) (.string "0x1")] ∧
        (batch.dedup .tree filterDigest filterApp)[1]? = some (some 0) :=
    ⟨_, rfl, _, rfl, rfl, rfl, rfl⟩
  refine ⟨s, hrun, ⟨batch, hbatch, hreplied⟩, fun h => ?_⟩
  obtain ⟨i, task, exit, resp, htask, horigin, -⟩ :=
    h.batches 0 batch _ 1 _ hbatch hreplied hreqs rfl
  have hinv : BatchInv .tree filterDigest filterApp s :=
    run_inv (fun _ _ _ hs ht => batchInv_step hs ht) (batchInv_init _ _) hrun
  obtain ⟨batch', hbatch', hnone⟩ := hinv.origin i task 0 1 htask horigin
  obtain rfl := Option.some.inj (hbatch.symm.trans hbatch')
  exact absurd (hdedup.symm.trans hnone) nofun

end Poolbeg
