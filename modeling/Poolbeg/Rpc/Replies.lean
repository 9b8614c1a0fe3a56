import Poolbeg.Rpc.Answers
import Poolbeg.Rpc.BatchDedup
import Poolbeg.Rpc.NeverCache

/-!
# What leaves the proxy

A client that sends one request gets what its task returned. A client that sends a batch gets one
response for each request, in their order, and each of them is what one task of the batch returned:
the task of that position, or the one of an earlier position with the same method and parameters,
under the id of the request.

## From tasks to replies

What a task returns is justified by the run. What is left for a batch is that its reply consists of
nothing else: it is what the third pass makes of the collected responses, which are those of its
tasks, and the pass fills a duplicate with the response of the position it was marked with, whose
key is the same. A key is a digest, so "the same method and parameters" needs digests to be apart on
the requests of the run, and no more.

A reply that the log cannot show is no reply. A batch with such an item has no `replied`, and the
result says nothing about it.

## Main definitions

* `RepliedOk` — the reply of a batch is what its passes compute

## Main results

* `repliedOk_run` — it is so in every reachable state
* `exists_replyTask` — which task a position of a reply comes from
* `answers_justified` — everything that leaves the proxy
-/

namespace Poolbeg

open Lts

variable {ι Text : Type} {serde : SerdeJson Text} {blake3 : Blake3 Text} {app : AppConfig ι}
  {s t : ProxyState ι Text}

/-! ### Replies -/

variable (serde blake3 app) in
/-- The tasks of a batch are on its chain, and a reply is what the third pass makes of them. -/
structure RepliedOk (s : ProxyState ι Text) : Prop where
  chain : ∀ i task b k, s.tasks i = some task → task.origin = some (b, k) →
    ∃ batch, s.batches b = some batch ∧ batch.chain = task.chain
  replied : ∀ b batch responses, s.batches b = some batch → batch.replied = some responses →
    batch.current = none ∧ batch.items.length = batch.reqs.length ∧
      thirdPass (batch.dedup serde blake3 app) batch.reqs batch.responses = some responses

/-- A batch changes, and stays on its chain. -/
theorem repliedOk_setBatch (hs : RepliedOk serde blake3 app s) {b : ℕ} {batch' : Batch ι}
    (hchain : ∀ batch, s.batches b = some batch → batch'.chain = batch.chain)
    (hreplied : ∀ responses, batch'.replied = some responses → batch'.current = none ∧
      batch'.items.length = batch'.reqs.length ∧
        thirdPass (batch'.dedup serde blake3 app) batch'.reqs batch'.responses = some responses) :
    RepliedOk serde blake3 app (s.setBatch b batch') where
  chain := by
    intro i task b' k htask horigin
    obtain ⟨batch, hbatch, hsame⟩ := hs.chain i task b' k htask horigin
    by_cases hne : b' = b
    · subst hne
      exact ⟨batch', s.batches_setBatch_self b' batch', (hchain batch hbatch).trans hsame⟩
    · exact ⟨batch, (s.batches_setBatch_of_ne batch' hne).trans hbatch, hsame⟩
  replied := by
    intro b' batch responses hb' hresponses
    rcases ProxyState.batches_setBatch_eq_some hb' with ⟨rfl, rfl⟩ | ⟨-, hb'⟩
    · exact hreplied responses hresponses
    · exact hs.replied b' batch responses hb' hresponses

/-- A task starts, on the chain of its batch. -/
theorem repliedOk_withTask (hs : RepliedOk serde blake3 app s) (i : ℕ) (chain : ι)
    (req : JsonRpcRequest) {origin : Option (ℕ × ℕ)}
    (horigin : ∀ b k, origin = some (b, k) → ∃ batch, s.batches b = some batch ∧
      batch.chain = chain) : RepliedOk serde blake3 app (s.withTask i chain req origin) where
  chain := by
    intro j task b k hj hb
    rcases ProxyState.tasks_withTask_eq_some hj with ⟨rfl, rfl⟩ | ⟨-, hj⟩
    · exact horigin b k hb
    · exact hs.chain j task b k hj hb
  replied := hs.replied

theorem repliedOk_step [DecidableEq ι] {a : ProxyAction ι} (hs : RepliedOk serde blake3 app s)
    (h : proxyStep serde blake3 app s a = some t) : RepliedOk serde blake3 app t := by
  -- a batch that has been replied to is past its last item
  have hopen : ∀ {b : ℕ} {batch : Batch ι} {entry : Option ℕ}, s.batches b = some batch →
      (batch.dedup serde blake3 app)[batch.items.length]? = some entry → batch.replied = none := by
    intro b batch entry hbatch hentry
    by_contra hreplied
    obtain ⟨responses, hresponses⟩ := Option.ne_none_iff_exists'.mp hreplied
    obtain ⟨-, hlength, -⟩ := hs.replied b batch responses hbatch hresponses
    have hlt := (List.getElem?_eq_some_iff.mp hentry).1
    rw [Batch.dedup, length_firstPass, hlength] at hlt
    exact lt_irrefl _ hlt
  have hsame : ∀ {b : ℕ} {batch : Batch ι}, s.batches b = some batch →
      ∀ batch', s.batches b = some batch' → batch.chain = batch'.chain := by
    intro b batch hbatch batch' hbatch'
    rw [Option.some.inj (hbatch.symm.trans hbatch')]
  cases stepped h with
  | @request i chain req hfresh => exact repliedOk_withTask hs i chain req (by rintro b k ⟨⟩)
  | @move i a task m htask hm =>
    refine ⟨fun j task' b k hj horigin => ?_, hs.replied⟩
    rcases ProxyState.tasks_apply_eq_some hj with ⟨rfl, rfl⟩ | ⟨-, hj⟩
    · exact hs.chain j task b k htask horigin
    · exact hs.chain j task' b k hj horigin
  | head | write => exact ⟨hs.chain, hs.replied⟩
  | @batch b chain reqs hfresh =>
    refine repliedOk_setBatch hs (fun batch hbatch => ?_) (by rintro responses ⟨⟩)
    cases hfresh.symm.trans hbatch
  | @skip b first batch hbatch hcurrent hdedup =>
    refine repliedOk_setBatch hs (fun batch' => hsame hbatch batch') fun responses hresponses => ?_
    cases (hopen hbatch hdedup).symm.trans hresponses
  | @item b i batch req hbatch hcurrent hdedup hreq hfresh =>
    refine repliedOk_setBatch (repliedOk_withTask hs i batch.chain req ?_)
      (fun batch' => hsame hbatch batch') fun responses hresponses => ?_
    · rintro _ _ ⟨⟩
      exact ⟨batch, hbatch, rfl⟩
    · cases (hopen hbatch hdedup).symm.trans hresponses
  | @collect b i batch task exit resp hbatch hcurrent htask hdone =>
    refine repliedOk_setBatch hs (fun batch' => hsame hbatch batch') fun responses hresponses => ?_
    obtain ⟨hnone, -⟩ := hs.replied b batch responses hbatch hresponses
    cases hnone.symm.trans hcurrent
  | @reply b batch responses hbatch hcurrent hlength hreplied hresponses =>
    refine repliedOk_setBatch hs (fun batch' => hsame hbatch batch') ?_
    rintro _ ⟨⟩
    exact ⟨hcurrent, hlength, hresponses⟩

section Run

variable [DecidableEq ι] {redis : Redis Text} {latest : ι → Option ℕ} {as : List (ProxyAction ι)}

theorem repliedOk_run
    (hrun : run (proxyStep serde blake3 app) (.init redis latest) as = some s) :
    RepliedOk serde blake3 app s :=
  run_inv (fun _ _ _ hs ht => repliedOk_step hs ht)
    ⟨fun _ _ _ _ h => absurd h (Option.some_ne_none _).symm,
      fun _ _ _ h => absurd h (Option.some_ne_none _).symm⟩ hrun

theorem batchOk_run (hrun : run (proxyStep serde blake3 app) (.init redis latest) as = some s)
    {b : ℕ} {batch : Batch ι} (hbatch : s.batches b = some batch) :
    BatchOk serde blake3 app s b batch :=
  (run_inv (fun _ _ _ hs ht => batchInv_step hs ht) (batchInv_init redis latest) hrun).batch b batch
    hbatch

/-- The task that a position of a reply comes from: its own, or that of an earlier position with the
same method and parameters. -/
theorem exists_replyTask
    (hrun : run (proxyStep serde blake3 app) (.init redis latest) as = some s) {b k : ℕ}
    {batch : Batch ι} {responses : List JsonRpcResponse} {req : JsonRpcRequest}
    (hbatch : s.batches b = some batch) (hreplied : batch.replied = some responses)
    (hdigests : blake3.Separates serde {req ∈ batch.reqs | (batchKey serde blake3
      (app.chains batch.chain).chainId app.blockedMethods req).isSome})
    (hreq : batch.reqs[k]? = some req) :
    ∃ f i task exit resp, f ≤ k ∧ s.tasks i = some task ∧ task.origin = some (b, f) ∧
      task.req.method = req.method ∧ task.req.params = req.params ∧
      task.phase = .done exit resp ∧
      responses[k]? = some (if f = k then resp else resp.withId req.id) := by
  obtain ⟨-, hlength, hresponses⟩ := (repliedOk_run hrun).replied b batch responses hbatch hreplied
  have hok := batchOk_run hrun hbatch
  have hlt : k < (batch.dedup serde blake3 app).length := by
    rw [Batch.dedup, length_firstPass]
    exact (List.getElem?_eq_some_iff.mp hreq).1
  cases hdup : (batch.dedup serde blake3 app)[k] with
  | none =>
    have hdedup := (List.getElem?_eq_getElem hlt).trans (congrArg some hdup)
    obtain ⟨i, task, exit, resp, htask, horigin, rfl, hdone, hresp⟩ :=
      reply_item hok hlength hresponses hreq hdedup
    exact ⟨k, i, task, exit, resp, le_rfl, htask, horigin, rfl, rfl, hdone,
      hresp.trans (congrArg some (if_pos rfl).symm)⟩
  | some f =>
    have hdedup := (List.getElem?_eq_getElem hlt).trans (congrArg some hdup)
    obtain ⟨key, orig, hkey, hfk, horig, hkey', hprocessed⟩ :=
      firstPass_duplicate _ _ _ _ hreq hdedup
    obtain ⟨i, task, exit, resp, htask, horigin, rfl, hdone, hresponse⟩ :=
      responses_item hok hlength horig hprocessed
    have hmem : ∀ {r : JsonRpcRequest} {n : ℕ}, batch.reqs[n]? = some r →
        batchKey serde blake3 (app.chains batch.chain).chainId app.blockedMethods r = some key →
        r ∈ {req ∈ batch.reqs | (batchKey serde blake3
          (app.chains batch.chain).chainId app.blockedMethods req).isSome} :=
      fun hr hrkey => ⟨List.mem_of_getElem? hr, by rw [hrkey]; rfl⟩
    obtain ⟨-, -, heq⟩ := (batchKey_eq_some_iff _ _ _ _).mp hkey
    obtain ⟨-, -, heq'⟩ := (batchKey_eq_some_iff _ _ _ _).mp hkey'
    obtain ⟨-, hmethod, hparams⟩ := hdigests.eq_of_cacheKey (hmem horig hkey') (hmem hreq hkey)
      (heq'.trans heq.symm)
    -- the second pass left nothing here, and the third one copies
    have hk : k < batch.responses.length := by
      rw [Batch.responses, List.length_map, hlength]
      exact (List.getElem?_eq_some_iff.mp hreq).1
    obtain ⟨filled, hfilled, hcopy⟩ :=
      thirdPassFrom_getElem? hresponses hdedup hreq (List.getElem?_eq_getElem hk)
    rw [fillDuplicate, hresponse] at hcopy
    refine ⟨f, i, task, exit, resp, hfk.le, htask, horigin, hmethod, hparams, hdone, ?_⟩
    rw [if_neg hfk.ne, hfilled, ← hcopy]

/-- **Everything that leaves the proxy goes back to an upstream call, or is the proxy's own word.**
What a request gets is justified; and a batch gets one response for each request, in their order,
each of which is what one of its tasks returned, for the same method and parameters, under the id of
the request. -/
theorem answers_justified {latest : ι → Option ℕ}
    (hrun : run (proxyStep serde blake3 app) (.init (fun _ => none) latest) as = some s)
    (hdecoded : ∀ a ∈ as, a.Decoded)
    (hdigests : blake3.Separates serde
      {req | req ∈ gather (proxyStep serde blake3 app) app.resolved (.init (fun _ => none) latest)
        as}) :
    (∀ i task exit resp, s.tasks i = some task → task.phase = .done exit resp →
      Justified serde blake3 app (.init (fun _ => none) latest) as i task exit resp) ∧
    ∀ b batch responses, s.batches b = some batch → batch.replied = some responses →
      blake3.Separates serde {req ∈ batch.reqs | (batchKey serde blake3
        (app.chains batch.chain).chainId app.blockedMethods req).isSome} →
      responses.length = batch.reqs.length ∧
      ∀ k req, batch.reqs[k]? = some req → ∃ f i task exit resp, f ≤ k ∧
        s.tasks i = some task ∧ task.origin = some (b, f) ∧ task.chain = batch.chain ∧
        task.req.method = req.method ∧ task.req.params = req.params ∧
        Justified serde blake3 app (.init (fun _ => none) latest) as i task exit resp ∧
        responses[k]? = some (if f = k then resp else resp.withId req.id) := by
  have hjustified := justified_run hrun hdecoded hdigests
  refine ⟨hjustified, fun b batch responses hbatch hreplied hapart => ⟨?_, fun k req hreq => ?_⟩⟩
  · obtain ⟨-, hlength, hresponses⟩ :=
      (repliedOk_run hrun).replied b batch responses hbatch hreplied
    refine length_thirdPassFrom ?_ ?_ hresponses
    · rw [Batch.dedup, length_firstPass]
    · rw [Batch.responses, List.length_map, hlength]
  · obtain ⟨f, i, task, exit, resp, hfk, htask, horigin, hmethod, hparams, hdone, hresp⟩ :=
      exists_replyTask hrun hbatch hreplied hapart hreq
    obtain ⟨batch', hbatch', hchain⟩ := (repliedOk_run hrun).chain i task b f htask horigin
    obtain rfl := Option.some.inj (hbatch.symm.trans hbatch')
    exact ⟨f, i, task, exit, resp, hfk, htask, horigin, hchain.symm, hmethod, hparams,
      hjustified i task exit resp htask hdone, hresp⟩

end Run

/-- Both responses of `filterBatch` go back to the one call that it made. -/
theorem filterBatch_justified :
    ∃ (s : ProxyState Unit Value) (task : Task Unit Value) (batch : Batch Unit),
      run (proxyStep .tree filterDigest filterApp) (.init (fun _ => none) fun _ => none)
          filterBatch = some s ∧
        s.tasks 0 = some task ∧ s.batches 0 = some batch ∧
        Justified .tree filterDigest filterApp (.init (fun _ => none) fun _ => none) filterBatch 0
          task .upstream (.success (.ofU64 1) (.string "0x1")) ∧
        ∃ responses, batch.replied = some responses ∧ responses.length = 2 := by
  obtain ⟨s, hrun, task, htask, hdone, batch, hbatch, hreqs, responses, hreplied⟩ :
      ∃ s, run (proxyStep .tree filterDigest filterApp) (.init (fun _ => none) fun _ => none)
          filterBatch = some s ∧
        ∃ task : Task Unit Value, s.tasks 0 = some task ∧
          task.phase = .done .upstream (.success (.ofU64 1) (.string "0x1")) ∧
        ∃ batch : Batch Unit, s.batches 0 = some batch ∧
          batch.reqs = [filterRequest (.ofU64 1), filterRequest (.ofU64 2)] ∧
          ∃ responses, batch.replied = some responses :=
    ⟨_, rfl, _, rfl, rfl, _, rfl, rfl, _, rfl⟩
  have hdecoded : ∀ a ∈ filterBatch, a.Decoded := by
    have hanswer : ∃ v, JsonRpcResponse.deserialize v =
        some (.success (.ofU64 1) (.string "0x1")) :=
      ⟨(JsonRpcResponse.success (.ofU64 1) (.string "0x1")).serialize,
        JsonRpcResponse.deserialize_serialize _⟩
    simpa [filterBatch, ProxyAction.Decoded] using hanswer
  -- all these requests have the same text
  have hapart : ∀ reqs : Set JsonRpcRequest,
      reqs ⊆ {filterRequest (.ofU64 1), filterRequest (.ofU64 2)} →
        filterDigest.Separates .tree reqs := by
    rintro reqs hsub _ ⟨a, ha, rfl⟩ _ ⟨b, hb, rfl⟩ -
    rcases hsub ha with rfl | rfl <;> rcases hsub hb with rfl | rfl <;> rfl
  have hresolved : gather (proxyStep .tree filterDigest filterApp) filterApp.resolved
      (.init (fun _ => none) fun _ => none) filterBatch = [filterRequest (.ofU64 1)] := rfl
  have hanswers := answers_justified hrun hdecoded (hapart _ fun req hreq => ?_)
  · refine ⟨s, task, batch, hrun, htask, hbatch, hanswers.1 0 task _ _ htask hdone, responses,
      hreplied, ?_⟩
    rw [(hanswers.2 0 batch responses hbatch hreplied (hapart _ fun req hreq => ?_)).1, hreqs]
    · rfl
    · rw [Set.mem_ofPred_eq, hreqs] at hreq
      simpa using hreq.1
  · rw [Set.mem_ofPred_eq, hresolved] at hreq
    exact .inl (List.mem_singleton.mp hreq)

end Poolbeg
