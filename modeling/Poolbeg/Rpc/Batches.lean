import Poolbeg.Rpc.TaskInvariant

/-!
# Batches and their items

Every response collected for a batch is that of the task of its position, and a task that was
started for a batch has a position in it. The second pass starts one task at a time, so the task it
is waiting for is the one of the next position.

## Two ways of looking at a batch

`BatchDedup` computes a reply from the responses of the items, as `process_batch` does, in three
passes over lists. In a run the items are tasks among others, each with its own steps, and the batch
waits for one after another while the rest of the proxy goes on. The invariant of this module joins
the two: at every moment the list collected so far is what the second pass would have after so many
items, given what the tasks of those items returned. When the batch replies, its reply is therefore
the one that the three passes compute, and what is proved about lists is true of runs.

A batch may also stop without a reply, when an item of it cannot be logged or its own connection
goes away. Nothing is said of those, since they collect nothing that is ever sent.

## Main definitions

* `TasksKept` — tasks only move on
* `BatchOk`, `BatchInv` — one batch, and all of them

## Main results

* `batchInv_step` — every step of the proxy keeps batches in order
* `responses_item` — what is collected at a position
* `reply_item` — what is replied there
-/

namespace Poolbeg

variable {ι Text : Type} {serde : SerdeJson Text} {blake3 : Blake3 Text} {app : AppConfig ι}
  {s t : ProxyState ι Text}

/-- Tasks only move on, and a task that is done stays done. -/
def TasksKept (s t : ProxyState ι Text) : Prop :=
  ∀ i task, s.tasks i = some task → ∃ phase, t.tasks i = some { task with phase := phase } ∧
    ∀ exit resp, task.phase = .done exit resp → phase = .done exit resp

theorem TasksKept.refl (s : ProxyState ι Text) : TasksKept s s :=
  fun _ task htask => ⟨task.phase, htask, fun _ _ h => h⟩

theorem TasksKept.trans {r : ProxyState ι Text} (h : TasksKept r s) (h' : TasksKept s t) :
    TasksKept r t := by
  intro i task htask
  obtain ⟨phase, hphase, hdone⟩ := h i task htask
  obtain ⟨phase', hphase', hdone'⟩ := h' i _ hphase
  exact ⟨phase', hphase', fun exit resp heq => hdone' exit resp (hdone exit resp heq)⟩

theorem tasksKept_withTask {i : ℕ} (hfresh : s.tasks i = none) (chain : ι) (req : JsonRpcRequest)
    (origin : Option (ℕ × ℕ)) : TasksKept s (s.withTask i chain req origin) := by
  intro j task hj
  have hji : j ≠ i := by
    rintro rfl
    rw [hfresh] at hj
    exact absurd hj nofun
  exact ⟨task.phase, (s.tasks_withTask_of_ne chain req origin hji).trans hj, fun _ _ h => h⟩

theorem tasksKept_apply {i : ℕ} {task : Task ι Text} {a : TaskStep} {m : Move Text}
    (htask : s.tasks i = some task) (hm : taskMove serde blake3 app s i task a = some m) :
    TasksKept s (s.apply i task m) := by
  intro j task' hj
  by_cases hji : j = i
  · subst hji
    obtain rfl := Option.some.inj (htask.symm.trans hj)
    refine ⟨m.phase, s.tasks_apply_self j task m, fun exit resp hdone => ?_⟩
    rw [taskMove, hdone] at hm
    cases hm
  · exact ⟨task'.phase, (s.tasks_apply_of_ne task m hji).trans hj, fun _ _ h => h⟩

theorem tasksKept_step [DecidableEq ι] {a : ProxyAction ι}
    (h : proxyStep serde blake3 app s a = some t) : TasksKept s t := by
  cases stepped h with
  | @request i chain req hfresh => exact tasksKept_withTask hfresh chain req none
  | move htask hm => exact tasksKept_apply htask hm
  | @item b i batch req hbatch hcurrent hdedup hreq hfresh =>
    exact tasksKept_withTask hfresh batch.chain req (some (b, batch.items.length))
  | head | write | batch | skip | collect | reply => exact .refl s

theorem tasksKept_run [DecidableEq ι] {as : List (ProxyAction ι)}
    (h : Lts.run (proxyStep serde blake3 app) s as = some t) : TasksKept s t :=
  Lts.run_inv (fun _ _ _ hs hu => hs.trans (tasksKept_step hu)) (.refl s) h

variable (serde blake3 app) in
/-- What the second pass over a batch has done so far. -/
structure BatchOk (s : ProxyState ι Text) (b : ℕ) (batch : Batch ι) : Prop where
  item : ∀ k i resp, batch.items[k]? = some (some (i, resp)) →
    ∃ task exit, s.tasks i = some task ∧ task.origin = some (b, k) ∧
      batch.reqs[k]? = some task.req ∧ task.phase = .done exit resp
  duplicate : ∀ k : ℕ, batch.items[k]? = some none →
    ∃ first, (batch.dedup serde blake3 app)[k]? = some (some first)
  current : ∀ i, batch.current = some i →
    ∃ task, s.tasks i = some task ∧ task.origin = some (b, batch.items.length) ∧
      batch.reqs[batch.items.length]? = some task.req

variable (serde blake3 app) in
structure BatchInv (s : ProxyState ι Text) : Prop where
  batch : ∀ b batch, s.batches b = some batch → BatchOk serde blake3 app s b batch
  origin : ∀ i task b k, s.tasks i = some task → task.origin = some (b, k) →
    ∃ batch, s.batches b = some batch ∧ (batch.dedup serde blake3 app)[k]? = some none

theorem BatchOk.mono {b : ℕ} {batch : Batch ι} (h : BatchOk serde blake3 app s b batch)
    (hkept : TasksKept s t) : BatchOk serde blake3 app t b batch where
  item := by
    intro k i resp hitem
    obtain ⟨task, exit, htask, horigin, hreq, hdone⟩ := h.item k i resp hitem
    obtain ⟨phase, htask', hphase⟩ := hkept i task htask
    exact ⟨_, exit, htask', horigin, hreq, hphase exit resp hdone⟩
  duplicate := h.duplicate
  current := by
    intro i hcurrent
    obtain ⟨task, htask, horigin, hreq⟩ := h.current i hcurrent
    obtain ⟨phase, htask', -⟩ := hkept i task htask
    exact ⟨_, htask', horigin, hreq⟩

theorem ProxyState.batches_setBatch_self (s : ProxyState ι Text) (b : ℕ) (batch : Batch ι) :
    (s.setBatch b batch).batches b = some batch :=
  Function.update_self _ _ _

theorem ProxyState.batches_setBatch_of_ne (s : ProxyState ι Text) {b b' : ℕ} (batch : Batch ι)
    (h : b' ≠ b) : (s.setBatch b batch).batches b' = s.batches b' :=
  Function.update_of_ne h _ _

theorem ProxyState.batches_setBatch_eq_some {b b' : ℕ} {batch batch' : Batch ι}
    (h : (s.setBatch b batch).batches b' = some batch') :
    (b' = b ∧ batch' = batch) ∨ (b' ≠ b ∧ s.batches b' = some batch') :=
  update_eq_some h

/-- Tasks move on and no batch changes. This is all that the steps of tasks and of the environment
do to batches. -/
theorem batchInv_mono (hs : BatchInv serde blake3 app s) (hbatches : t.batches = s.batches)
    (hkept : TasksKept s t)
    (hback : ∀ i task, t.tasks i = some task → task.origin ≠ none →
      ∃ task', s.tasks i = some task' ∧ task'.origin = task.origin) :
    BatchInv serde blake3 app t where
  batch := by
    intro b batch hb
    rw [hbatches] at hb
    exact (hs.batch b batch hb).mono hkept
  origin := by
    intro i task b k htask horigin
    obtain ⟨task', htask', horigin'⟩ := hback i task htask (horigin ▸ Option.some_ne_none _)
    rw [hbatches]
    exact hs.origin i task' b k htask' (horigin'.trans horigin)

/-- A batch changes and no task does. -/
theorem batchInv_setBatch (hs : BatchInv serde blake3 app s) {b : ℕ} {batch batch' : Batch ι}
    (hb : s.batches b = some batch) (hchain : batch'.chain = batch.chain)
    (hreqs : batch'.reqs = batch.reqs) (hok : BatchOk serde blake3 app s b batch') :
    BatchInv serde blake3 app (s.setBatch b batch') where
  batch := by
    intro b' batch'' hb'
    rcases ProxyState.batches_setBatch_eq_some hb' with ⟨rfl, rfl⟩ | ⟨-, hb'⟩
    · exact hok.mono (TasksKept.refl s)
    · exact (hs.batch b' batch'' hb').mono (TasksKept.refl s)
  origin := by
    intro i task b' k htask horigin
    obtain ⟨batch'', hb', hdedup⟩ := hs.origin i task b' k htask horigin
    by_cases hne : b' = b
    · subst hne
      obtain rfl := Option.some.inj (hb.symm.trans hb')
      refine ⟨batch', s.batches_setBatch_self b' batch', ?_⟩
      rwa [Batch.dedup, hchain, hreqs]
    · exact ⟨batch'', (s.batches_setBatch_of_ne batch' hne).trans hb', hdedup⟩

/-- The second pass starts a task for an item that is no duplicate. It is the task of the next
position, whose response is not yet there. -/
theorem batchInv_withTask (hs : BatchInv serde blake3 app s) {b i : ℕ} {batch : Batch ι}
    (req : JsonRpcRequest) (hfresh : s.tasks i = none) (hb : s.batches b = some batch)
    (hdedup : (batch.dedup serde blake3 app)[batch.items.length]? = some none) :
    BatchInv serde blake3 app
      (s.withTask i batch.chain req (some (b, batch.items.length))) where
  batch := fun b' batch' hb' => (hs.batch b' batch' hb').mono (tasksKept_withTask hfresh _ _ _)
  origin := by
    intro j task b' k hj horigin
    rcases ProxyState.tasks_withTask_eq_some hj with ⟨rfl, rfl⟩ | ⟨-, hj⟩
    · cases horigin
      exact ⟨batch, hb, hdedup⟩
    · exact hs.origin j task b' k hj horigin

theorem getElem?_concat_eq_some {α : Type} {l : List α} {x y : α} {k : ℕ}
    (h : (l ++ [x])[k]? = some y) : l[k]? = some y ∨ k = l.length ∧ y = x := by
  rw [List.getElem?_append] at h
  split_ifs at h with hlt
  · exact .inl h
  · obtain ⟨hk, hy⟩ := List.getElem?_eq_some_iff.mp h
    rw [List.length_singleton] at hk
    refine .inr ⟨by omega, ?_⟩
    rw [← hy, List.getElem_singleton]

theorem batchInv_init (redis : Redis Text) (latest : ι → Option ℕ) :
    BatchInv serde blake3 app (ProxyState.init redis latest) where
  batch := fun _ _ h => absurd h (Option.some_ne_none _).symm
  origin := fun _ _ _ _ h => absurd h (Option.some_ne_none _).symm

/-- **Every step keeps every batch in order.** -/
theorem batchInv_step [DecidableEq ι] {a : ProxyAction ι} (hs : BatchInv serde blake3 app s)
    (h : proxyStep serde blake3 app s a = some t) : BatchInv serde blake3 app t := by
  cases stepped h with
  | @request i chain req hfresh =>
    refine batchInv_mono hs rfl (tasksKept_withTask hfresh chain req none) ?_
    intro j task hj horigin
    rcases ProxyState.tasks_withTask_eq_some hj with ⟨rfl, rfl⟩ | ⟨-, hj⟩
    · exact absurd rfl horigin
    · exact ⟨task, hj, rfl⟩
  | @move i a task m htask hm =>
    refine batchInv_mono hs rfl (tasksKept_apply htask hm) ?_
    intro j task' hj horigin
    rcases ProxyState.tasks_apply_eq_some hj with ⟨rfl, rfl⟩ | ⟨-, hj⟩
    · exact ⟨task, htask, rfl⟩
    · exact ⟨task', hj, rfl⟩
  | head => exact batchInv_mono hs rfl (TasksKept.refl s) fun i task h _ => ⟨task, h, rfl⟩
  | write hc => exact batchInv_mono hs rfl (TasksKept.refl s) fun i task h _ => ⟨task, h, rfl⟩
  | @batch b chain reqs hfresh =>
    refine ⟨?_, ?_⟩
    · intro b' batch' hb'
      rcases ProxyState.batches_setBatch_eq_some hb' with ⟨rfl, rfl⟩ | ⟨-, hb'⟩
      · refine ⟨fun k i resp hitem => ?_, fun k hitem => ?_, fun i hcurrent => ?_⟩
        · exact absurd hitem nofun
        · exact absurd hitem nofun
        · exact absurd hcurrent nofun
      · exact (hs.batch b' batch' hb').mono (TasksKept.refl s)
    · intro i task b' k htask horigin
      obtain ⟨batch', hb', hdedup⟩ := hs.origin i task b' k htask horigin
      have hne : b' ≠ b := by
        rintro rfl
        exact absurd (hfresh.symm.trans hb') nofun
      exact ⟨batch', (s.batches_setBatch_of_ne _ hne).trans hb', hdedup⟩
  | @skip b first batch hbatch hcurrent hdedup =>
    have hok := hs.batch b batch hbatch
    refine batchInv_setBatch hs hbatch rfl rfl ⟨fun k i resp hitem => ?_, fun k hitem => ?_, ?_⟩
    · rcases getElem?_concat_eq_some hitem with hitem | ⟨-, heq⟩
      · exact hok.item k i resp hitem
      · exact absurd heq nofun
    · rcases getElem?_concat_eq_some hitem with hitem | ⟨rfl, -⟩
      · exact hok.duplicate k hitem
      · exact ⟨first, hdedup⟩
    · intro i hi
      exact absurd (hcurrent.symm.trans hi) nofun
  | @item b i batch req hbatch hcurrent hdedup hreq hfresh =>
    have hstart := batchInv_withTask hs req hfresh hbatch hdedup
    have hok := hstart.batch b batch hbatch
    refine batchInv_setBatch hstart hbatch rfl rfl ⟨hok.item, hok.duplicate, fun j hj => ?_⟩
    cases hj
    exact ⟨_, s.tasks_withTask_self i batch.chain req _, rfl, hreq⟩
  | @collect b i batch task exit resp hbatch hcurrent htask hdone =>
    have hok := hs.batch b batch hbatch
    refine batchInv_setBatch hs hbatch rfl rfl ⟨fun k j resp' hitem => ?_, fun k hitem => ?_, nofun⟩
    · rcases getElem?_concat_eq_some hitem with hitem | ⟨rfl, heq⟩
      · exact hok.item k j resp' hitem
      · cases heq
        obtain ⟨task', htask', horigin, hreq⟩ := hok.current i hcurrent
        obtain rfl := Option.some.inj (htask.symm.trans htask')
        exact ⟨task, exit, htask, horigin, hreq, hdone⟩
    · rcases getElem?_concat_eq_some hitem with hitem | ⟨-, heq⟩
      · exact hok.duplicate k hitem
      · exact absurd heq nofun
  | @reply b batch responses hbatch hcurrent hlength hreplied hresponses =>
    have hok := hs.batch b batch hbatch
    exact batchInv_setBatch hs hbatch rfl rfl ⟨hok.item, hok.duplicate, hok.current⟩

/-- The second pass has left a response at every position that is no duplicate. -/
theorem responses_item {b k : ℕ} {batch : Batch ι} {req : JsonRpcRequest}
    (hok : BatchOk serde blake3 app s b batch) (hlength : batch.items.length = batch.reqs.length)
    (hreq : batch.reqs[k]? = some req) (hdedup : (batch.dedup serde blake3 app)[k]? = some none) :
    ∃ i task exit resp, s.tasks i = some task ∧ task.origin = some (b, k) ∧ task.req = req ∧
      task.phase = .done exit resp ∧ batch.responses[k]? = some (some resp) := by
  have hlt : k < batch.items.length := hlength ▸ (List.getElem?_eq_some_iff.mp hreq).1
  obtain ⟨item, hitem⟩ : ∃ item, batch.items[k]? = some item :=
    ⟨_, List.getElem?_eq_getElem hlt⟩
  cases item with
  | none =>
    obtain ⟨first, hdup⟩ := hok.duplicate k hitem
    exact absurd (hdedup.symm.trans hdup) nofun
  | some item =>
    obtain ⟨i, resp⟩ := item
    obtain ⟨task, exit, htask, horigin, htaskReq, hdone⟩ := hok.item k i resp hitem
    have hresponse : batch.responses[k]? = some (some resp) := by
      rw [Batch.responses, List.getElem?_map, hitem]
      rfl
    exact ⟨i, task, exit, resp, htask, horigin, Option.some.inj (htaskReq.symm.trans hreq), hdone,
      hresponse⟩

/-- What the third pass answers at a position that is no duplicate is what its task returned. Only
the duplicates are filled in by the pass itself. -/
theorem reply_item {b k : ℕ} {batch : Batch ι} {responses : List JsonRpcResponse}
    {req : JsonRpcRequest} (hok : BatchOk serde blake3 app s b batch)
    (hlength : batch.items.length = batch.reqs.length)
    (hresponses : thirdPass (batch.dedup serde blake3 app) batch.reqs batch.responses =
      some responses)
    (hreq : batch.reqs[k]? = some req) (hdedup : (batch.dedup serde blake3 app)[k]? = some none) :
    ∃ i task exit resp, s.tasks i = some task ∧ task.origin = some (b, k) ∧ task.req = req ∧
      task.phase = .done exit resp ∧ responses[k]? = some resp := by
  obtain ⟨i, task, exit, resp, htask, horigin, htaskReq, hdone, hresponse⟩ :=
    responses_item hok hlength hreq hdedup
  obtain ⟨filled, hfilled, heq⟩ := thirdPassFrom_getElem? hresponses hdedup hreq hresponse
  obtain rfl := Option.some.inj heq
  exact ⟨i, task, exit, resp, htask, horigin, htaskReq, hdone, hfilled⟩

end Poolbeg
