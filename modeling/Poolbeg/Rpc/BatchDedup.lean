import Poolbeg.Rpc.Batches

/-!
# Deduplication within a batch

`process_batch` runs three passes over its requests: the first one marks every request whose key an
earlier one has, the second one processes the others, and the third one fills the marked positions
with clones. The mark of a position is the *first* position with its key (`firstPass_getElem?`), and
that one is itself not marked, so the third pass always finds what it clones.

Taking `process_single_request` for a function whose answer depends on the method and the parameters
only, a batch is answered as if each request had been processed by itself (`processBatch_eq`).

## The log

With `debug_client` the second pass logs each response, and that may panic
(`Poolbeg.Rpc.ResponseLog`). A clone is not logged, but it has the result of what it was cloned
from. So whether the log panics does not depend on which requests are duplicates: it does if the
response to any request of the batch straddles the limit of the log, and then the batch gets no
response at all (`processBatch_eq_none`).

## How it is proved

The first pass carries a map from keys to positions. `markAfter` says what the map and the requests
still to come give together for a key, so the invariant of the loop is one equation per position and
needs no induction from the right. The third pass has one `unwrap`; that it is never a panic is the
statement that a marked position points to one that is not.

## Main definitions

* `AnswersBy`, `processItem`, `secondPass`, `processBatch` — a batch, with panics as outcomes
* `Unmarked`, `Processed` — which requests are processed
* `BatchTransparent` — what deduplication is to leave as it is

## Main results

* `firstPass_getElem?`, `existsUnique_unmarked` — the marks
* `processBatch_transparent_iff` — when a batch is answered as its requests would be
* `replyStep_isSome` — the same for the passes over concurrent tasks
-/

namespace Poolbeg

variable {Text : Type}

/-- The answer depends on the method and the parameters only, but for the id it echoes. -/
def AnswersBy (single : JsonRpcRequest → JsonRpcResponse)
    (answer : String → Value → JsonRpcResponse) : Prop :=
  ∀ req, single req = (answer req.method req.params).withId req.id

/-- An item of the second pass: `process_single_request`, and the log of its response. `none` is a
panic of the log, and nothing after it is processed. -/
def processItem (log : DebugLog) (single : JsonRpcRequest → JsonRpcResponse)
    (req : JsonRpcRequest) : Option JsonRpcResponse :=
  if log.survives (single req) then some (single req) else none

/-- The second pass: every request that is not marked is processed, until the log panics. -/
def secondPass (log : DebugLog) (single : JsonRpcRequest → JsonRpcResponse) :
    List (Option ℕ) → List JsonRpcRequest → Option (List (Option JsonRpcResponse))
  | dup :: dedup, req :: reqs =>
    if dup.isSome then (secondPass log single dedup reqs).map (none :: ·)
    else
      (processItem log single req).bind fun resp =>
        (secondPass log single dedup reqs).map (some resp :: ·)
  | _, _ => some []

/-- What the second pass leaves when nothing panics. -/
def responsesOf (single : JsonRpcRequest → JsonRpcResponse) :
    List (Option ℕ) → List JsonRpcRequest → List (Option JsonRpcResponse)
  | dup :: dedup, req :: reqs =>
    (if dup.isSome then none else some (single req)) :: responsesOf single dedup reqs
  | _, _ => []

variable (serde : SerdeJson Text) (blake3 : Blake3 Text) (chainId : ℕ) (blocked : List String)

/-- `process_batch`; `none` is a panic, of a log in the second pass or of the last `unwrap`. The
second never happens. -/
def processBatch (log : DebugLog) (single : JsonRpcRequest → JsonRpcResponse)
    (reqs : List JsonRpcRequest) : Option (List JsonRpcResponse) :=
  let dedup := firstPass serde blake3 chainId blocked reqs
  (secondPass log single dedup reqs).bind (thirdPass dedup reqs)

/-- The first pass leaves this position alone. -/
def Unmarked (reqs : List JsonRpcRequest) (k : ℕ) : Prop :=
  (firstPass serde blake3 chainId blocked reqs)[k]? = some none

/-- The second pass calls `process_single_request` at this position: it is not marked, and no log
has panicked before. -/
def Processed (log : DebugLog) (single : JsonRpcRequest → JsonRpcResponse)
    (reqs : List JsonRpcRequest) (k : ℕ) : Prop :=
  Unmarked serde blake3 chainId blocked reqs k ∧
    ∀ j < k, Unmarked serde blake3 chainId blocked reqs j → ∀ req, reqs[j]? = some req →
      log.survives (single req) = true

/-- The position of the first request with the key. -/
def firstWithKey (reqs : List JsonRpcRequest) (key : String) : Option ℕ :=
  reqs.findIdx? fun req => batchKey serde blake3 chainId blocked req == some key

variable {reqs : List JsonRpcRequest} {req : JsonRpcRequest} {k : ℕ}

/-! ### The first pass -/

theorem firstWithKey_cons_of_eq {key : String}
    (h : batchKey serde blake3 chainId blocked req = some key) :
    firstWithKey serde blake3 chainId blocked (req :: reqs) key = some 0 := by
  rw [firstWithKey, List.findIdx?_cons, h, if_pos (beq_self_eq_true _)]

theorem firstWithKey_cons_of_ne {key : String}
    (h : batchKey serde blake3 chainId blocked req ≠ some key) :
    firstWithKey serde blake3 chainId blocked (req :: reqs) key =
      (firstWithKey serde blake3 chainId blocked reqs key).map (· + 1) := by
  rw [firstWithKey, List.findIdx?_cons, if_neg (by simpa using h)]
  rfl

/-- `seen` after the request at position `i`. -/
def seeRequest (seen : List (String × ℕ)) (i : ℕ) (req : JsonRpcRequest) : List (String × ℕ) :=
  match batchKey serde blake3 chainId blocked req with
  | none => seen
  | some key =>
    match seen.lookup key with
    | some _ => seen
    | none => (key, i) :: seen

/-- What is found for a key once the requests from position `i` on have been seen. -/
def markAfter (seen : List (String × ℕ)) (i : ℕ) (earlier : List JsonRpcRequest) (key : String) :
    Option ℕ :=
  (seen.lookup key).or ((firstWithKey serde blake3 chainId blocked earlier key).map (i + ·))

theorem firstPassFrom_cons (seen : List (String × ℕ)) (i : ℕ) (req : JsonRpcRequest)
    (reqs : List JsonRpcRequest) :
    firstPassFrom serde blake3 chainId blocked seen i (req :: reqs) =
      ((batchKey serde blake3 chainId blocked req).bind fun key => seen.lookup key) ::
        firstPassFrom serde blake3 chainId blocked
          (seeRequest serde blake3 chainId blocked seen i req) (i + 1) reqs := by
  rw [firstPassFrom, seeRequest]
  cases batchKey serde blake3 chainId blocked req with
  | none => rfl
  | some key => cases hseen : seen.lookup key <;> simp [hseen]

theorem lookup_seeRequest {key : String}
    (h : batchKey serde blake3 chainId blocked req ≠ some key) (seen : List (String × ℕ)) (i : ℕ) :
    (seeRequest serde blake3 chainId blocked seen i req).lookup key = seen.lookup key := by
  rw [seeRequest]
  cases hkey : batchKey serde blake3 chainId blocked req with
  | none => rfl
  | some key' =>
    have hne : key ≠ key' := fun heq => h (by rw [hkey, heq])
    cases hseen : seen.lookup key' with
    | some first => simp only [hseen]
    | none => simp only [hseen, List.lookup_cons, beq_false_of_ne hne]

/-- The head can be seen first. -/
theorem markAfter_cons (seen : List (String × ℕ)) (i : ℕ) (req : JsonRpcRequest)
    (earlier : List JsonRpcRequest) (key : String) :
    markAfter serde blake3 chainId blocked seen i (req :: earlier) key =
      markAfter serde blake3 chainId blocked (seeRequest serde blake3 chainId blocked seen i req)
        (i + 1) earlier key := by
  rw [markAfter, markAfter]
  by_cases hkey : batchKey serde blake3 chainId blocked req = some key
  · rw [firstWithKey_cons_of_eq _ _ _ _ hkey, seeRequest, hkey]
    cases hseen : seen.lookup key with
    | some first => simp only [hseen, Option.some_or]
    | none => simp [hseen]
  · rw [firstWithKey_cons_of_ne _ _ _ _ hkey, lookup_seeRequest _ _ _ _ hkey, Option.map_map]
    have hshift : ((i + ·) ∘ (· + 1) : ℕ → ℕ) = (i + 1 + ·) := funext fun j => by
      simp only [Function.comp_apply]
      omega
    rw [hshift]

theorem firstPassFrom_getElem? (seen : List (String × ℕ)) (i : ℕ) (reqs : List JsonRpcRequest)
    (k : ℕ) :
    (firstPassFrom serde blake3 chainId blocked seen i reqs)[k]? = reqs[k]?.map fun req =>
      (batchKey serde blake3 chainId blocked req).bind
        (markAfter serde blake3 chainId blocked seen i (reqs.take k)) := by
  induction reqs generalizing seen i k with
  | nil => rfl
  | cons req reqs ih =>
    rw [firstPassFrom_cons]
    cases k with
    | zero =>
      have hnone : markAfter serde blake3 chainId blocked seen i [] = fun key => seen.lookup key :=
        funext fun key => Option.or_none
      rw [List.take_zero, hnone]
      rfl
    | succ k =>
      have hsome : markAfter serde blake3 chainId blocked seen i (req :: reqs.take k) = _ :=
        funext (markAfter_cons serde blake3 chainId blocked seen i req (reqs.take k))
      rw [List.getElem?_cons_succ, List.getElem?_cons_succ, List.take_succ_cons, ih, hsome]

/-- **The mark of a position is the first position with its key**, if that one is earlier. A
position whose request has no key, being blocked or uncacheable, has no mark. -/
theorem firstPass_getElem? (reqs : List JsonRpcRequest) (k : ℕ) :
    (firstPass serde blake3 chainId blocked reqs)[k]? = reqs[k]?.map fun req =>
      (batchKey serde blake3 chainId blocked req).bind
        (firstWithKey serde blake3 chainId blocked (reqs.take k)) := by
  rw [firstPass, firstPassFrom_getElem?]
  refine congrArg (Option.map · reqs[k]?) (funext fun req => congrArg _ (funext fun key => ?_))
  rw [markAfter, List.lookup_nil, Option.none_or]
  exact (Option.map_congr fun j _ => Nat.zero_add j).trans Option.map_id'

theorem getElem?_take_eq_some {α : Type*} {l : List α} {k j : ℕ} {x : α} :
    (l.take k)[j]? = some x ↔ j < k ∧ l[j]? = some x := by
  rw [List.getElem?_take]
  split_ifs with hj
  · exact ⟨fun h => ⟨hj, h⟩, And.right⟩
  · simp [hj]

theorem firstWithKey_eq_some {key : String} {f : ℕ} :
    firstWithKey serde blake3 chainId blocked reqs key = some f ↔
      (∃ orig, reqs[f]? = some orig ∧ batchKey serde blake3 chainId blocked orig = some key) ∧
        ∀ j < f, ∀ r, reqs[j]? = some r → batchKey serde blake3 chainId blocked r ≠ some key := by
  rw [firstWithKey, List.findIdx?_eq_some_iff_getElem]
  constructor
  · rintro ⟨hf, hkey, hbefore⟩
    refine ⟨⟨_, List.getElem?_eq_getElem hf, beq_iff_eq.mp hkey⟩, fun j hj r hr => ?_⟩
    obtain ⟨hlt, rfl⟩ := List.getElem?_eq_some_iff.mp hr
    exact fun heq => hbefore j hj (beq_iff_eq.mpr heq)
  · rintro ⟨⟨orig, horig, hkey⟩, hbefore⟩
    obtain ⟨hf, rfl⟩ := List.getElem?_eq_some_iff.mp horig
    refine ⟨hf, beq_iff_eq.mpr hkey, fun j hj heq => ?_⟩
    exact hbefore j hj _ (List.getElem?_eq_getElem (hj.trans hf)) (beq_iff_eq.mp heq)

/-- A request is marked if an earlier one has its key. Marks do not depend on what comes later. -/
theorem unmarked_iff (hreq : reqs[k]? = some req) :
    Unmarked serde blake3 chainId blocked reqs k ↔
      ∀ key, batchKey serde blake3 chainId blocked req = some key → ∀ j < k, ∀ r,
        reqs[j]? = some r → batchKey serde blake3 chainId blocked r ≠ some key := by
  rw [Unmarked, firstPass_getElem?, hreq, Option.map_some, Option.some.injEq,
    Option.bind_eq_none_iff]
  refine forall_congr' fun key => imp_congr_right fun _ => ?_
  rw [firstWithKey, List.findIdx?_eq_none_iff]
  constructor
  · intro h j hj r hr heq
    have hmem := List.mem_of_getElem? (getElem?_take_eq_some.mpr ⟨hj, hr⟩)
    exact absurd (h r hmem) (by simp [heq])
  · intro h r hr
    obtain ⟨j, hj⟩ := List.mem_iff_getElem?.mp hr
    obtain ⟨hlt, hr⟩ := getElem?_take_eq_some.mp hj
    exact beq_false_of_ne (h j hlt r hr)

/-- A request that is not compared is not marked. -/
theorem unmarked_of_batchKey_none (hreq : reqs[k]? = some req)
    (hkey : batchKey serde blake3 chainId blocked req = none) :
    Unmarked serde blake3 chainId blocked reqs k :=
  (unmarked_iff serde blake3 chainId blocked hreq).mpr fun _ h =>
    absurd (hkey.symm.trans h) (Option.some_ne_none _).symm

/-- A marked request has the key of the earlier one, and that one is not marked. So a clone is
always of a response that the second pass has made. -/
theorem firstPass_duplicate {f : ℕ} (hreq : reqs[k]? = some req)
    (hdup : (firstPass serde blake3 chainId blocked reqs)[k]? = some (some f)) :
    ∃ key orig, batchKey serde blake3 chainId blocked req = some key ∧ f < k ∧
      reqs[f]? = some orig ∧ batchKey serde blake3 chainId blocked orig = some key ∧
      Unmarked serde blake3 chainId blocked reqs f := by
  rw [firstPass_getElem?, hreq, Option.map_some, Option.some.injEq, Option.bind_eq_some_iff] at hdup
  obtain ⟨key, hkey, hfirst⟩ := hdup
  obtain ⟨⟨orig, horig, horigKey⟩, hbefore⟩ := (firstWithKey_eq_some ..).mp hfirst
  obtain ⟨hfk, horig⟩ := getElem?_take_eq_some.mp horig
  refine ⟨key, orig, hkey, hfk, horig, horigKey, (unmarked_iff _ _ _ _ horig).mpr ?_⟩
  rintro key' hkey' j hj r hr
  obtain rfl := Option.some.inj (horigKey.symm.trans hkey')
  exact hbefore j hj r (getElem?_take_eq_some.mpr ⟨hj.trans hfk, hr⟩)

/-- **Of the requests with one key exactly one is not marked**, the first one. -/
theorem existsUnique_unmarked {key : String} (hreq : req ∈ reqs)
    (hkey : batchKey serde blake3 chainId blocked req = some key) :
    ∃! k, Unmarked serde blake3 chainId blocked reqs k ∧
      reqs[k]?.bind (batchKey serde blake3 chainId blocked) = some key := by
  obtain ⟨k, hk⟩ := List.mem_iff_getElem?.mp hreq
  have hlt := (List.getElem?_eq_some_iff.mp hk).1
  have hlength : (firstPass serde blake3 chainId blocked reqs).length = reqs.length :=
    length_firstPass serde blake3 reqs
  obtain ⟨dup, hdup⟩ : ∃ dup, (firstPass serde blake3 chainId blocked reqs)[k]? = some dup :=
    ⟨_, List.getElem?_eq_getElem (hlength.symm ▸ hlt)⟩
  obtain ⟨f, hf, hfkey⟩ : ∃ f, Unmarked serde blake3 chainId blocked reqs f ∧
      reqs[f]?.bind (batchKey serde blake3 chainId blocked) = some key := by
    cases dup with
    | none => exact ⟨k, hdup, by rw [hk, Option.bind_some, hkey]⟩
    | some f =>
      obtain ⟨key', orig, hkey', -, horig, horigKey, hf⟩ :=
        firstPass_duplicate serde blake3 chainId blocked hk hdup
      obtain rfl := Option.some.inj (hkey.symm.trans hkey')
      exact ⟨f, hf, by rw [horig, Option.bind_some, horigKey]⟩
  refine ⟨f, ⟨hf, hfkey⟩, ?_⟩
  rintro j ⟨hj, hjkey⟩
  obtain ⟨a, ha, hakey⟩ := Option.bind_eq_some_iff.mp hfkey
  obtain ⟨b, hb, hbkey⟩ := Option.bind_eq_some_iff.mp hjkey
  rcases lt_trichotomy j f with hlt | heq | hlt
  · exact absurd hbkey ((unmarked_iff _ _ _ _ ha).mp hf key hakey j hlt b hb)
  · exact heq
  · exact absurd hakey ((unmarked_iff _ _ _ _ hb).mp hj key hbkey f hlt a ha)

/-! ### The second and the third pass -/

/-- The second pass goes through when the log survives what is processed. -/
theorem secondPass_eq_some {log : DebugLog} {single : JsonRpcRequest → JsonRpcResponse} :
    ∀ {dedup : List (Option ℕ)} {reqs : List JsonRpcRequest},
      (∀ (k : ℕ) req, dedup[k]? = some none → reqs[k]? = some req →
        log.survives (single req) = true) →
      secondPass log single dedup reqs = some (responsesOf single dedup reqs)
  | [], _, _ => by rw [secondPass, responsesOf] <;> exact fun _ _ _ _ h => nomatch h
  | _ :: _, [], _ => by rw [secondPass, responsesOf] <;> exact fun _ _ _ _ _ h => nomatch h
  | dup :: dedup, req :: reqs, h => by
    have hrest : secondPass log single dedup reqs = some (responsesOf single dedup reqs) :=
      secondPass_eq_some fun k req hdup hreq => h (k + 1) req hdup hreq
    rw [secondPass, responsesOf, hrest]
    cases dup with
    | some first => rfl
    | none =>
      rw [processItem, if_pos (h 0 req rfl rfl)]
      rfl

/-- It panics with the log, if the log panics on any of the responses it is to make. The requests
after that one are not processed. -/
theorem secondPass_eq_none {log : DebugLog} {single : JsonRpcRequest → JsonRpcResponse} :
    ∀ {dedup : List (Option ℕ)} {reqs : List JsonRpcRequest} {k : ℕ}, dedup[k]? = some none →
      reqs[k]? = some req → log.survives (single req) = false →
      secondPass log single dedup reqs = none
  | [], _, _, hdup, _, _ => absurd hdup (by simp)
  | _ :: _, [], _, _, hreq, _ => absurd hreq (by simp)
  | dup :: dedup, r :: reqs, 0, hdup, hreq, hpanics => by
    rw [List.getElem?_cons_zero, Option.some.injEq] at hdup hreq
    subst hdup hreq
    rw [secondPass, processItem, hpanics]
    rfl
  | dup :: dedup, r :: reqs, k + 1, hdup, hreq, hpanics => by
    rw [List.getElem?_cons_succ] at hdup hreq
    rw [secondPass, secondPass_eq_none hdup hreq hpanics]
    cases dup with
    | some first => rfl
    | none => cases processItem log single r <;> rfl

theorem length_responsesOf {single : JsonRpcRequest → JsonRpcResponse} {dedup : List (Option ℕ)}
    (h : dedup.length = reqs.length) : (responsesOf single dedup reqs).length = reqs.length := by
  induction reqs generalizing dedup with
  | nil =>
    obtain rfl := List.length_eq_zero_iff.mp h
    rfl
  | cons req reqs ih =>
    cases dedup with
    | nil => exact absurd h (by simp)
    | cons dup dedup =>
      rw [responsesOf, List.length_cons, ih (by simpa using h), List.length_cons]

theorem responsesOf_getElem? (single : JsonRpcRequest → JsonRpcResponse) {dup : Option ℕ} :
    ∀ {dedup : List (Option ℕ)} {reqs : List JsonRpcRequest} {k : ℕ}, dedup[k]? = some dup →
      reqs[k]? = some req → (responsesOf single dedup reqs)[k]? =
        some (if dup.isSome then none else some (single req))
  | [], _, _, hdup, _ => absurd hdup (by simp)
  | _ :: _, [], _, _, hreq => absurd hreq (by simp)
  | _ :: dedup, _ :: reqs, 0, hdup, hreq => by
    simp only [List.getElem?_cons_zero, Option.some.injEq] at hdup hreq
    rw [responsesOf, hdup, hreq, List.getElem?_cons_zero]
  | _ :: dedup, _ :: reqs, k + 1, hdup, hreq => by
    rw [responsesOf, List.getElem?_cons_succ]
    exact responsesOf_getElem? single hdup hreq

/-- The third pass goes through if it can fill every position. -/
theorem thirdPassFrom_isSome {all : List (Option JsonRpcResponse)} :
    ∀ {dedup : List (Option ℕ)} {reqs : List JsonRpcRequest}
      {responses : List (Option JsonRpcResponse)},
      (∀ (k : ℕ) dup req response, dedup[k]? = some dup → reqs[k]? = some req →
        responses[k]? = some response → (fillDuplicate all req.id dup response).isSome) →
      (thirdPassFrom all dedup reqs responses).isSome
  | [], _, _, _ => rfl
  | _ :: _, [], _, _ => rfl
  | _ :: _, _ :: _, [], _ => rfl
  | dup :: dedup, req :: reqs, response :: responses, hfill => by
    obtain ⟨filled, hfilled⟩ := Option.isSome_iff_exists.mp (hfill 0 dup req response rfl rfl rfl)
    have htail : (thirdPassFrom all dedup reqs responses).isSome :=
      thirdPassFrom_isSome fun k dup req response hdup hreq hresponse =>
        hfill (k + 1) dup req response hdup hreq hresponse
    obtain ⟨out, hout⟩ := Option.isSome_iff_exists.mp htail
    rw [thirdPassFrom, hfilled, Option.bind_some, hout]
    rfl

theorem length_thirdPassFrom {all : List (Option JsonRpcResponse)} :
    ∀ {dedup : List (Option ℕ)} {reqs : List JsonRpcRequest}
      {responses : List (Option JsonRpcResponse)} {out : List JsonRpcResponse},
      dedup.length = reqs.length → responses.length = reqs.length →
      thirdPassFrom all dedup reqs responses = some out → out.length = reqs.length
  | [], [], _, _, _, _, h => by
    cases h
    rfl
  | [], _ :: _, _, _, hdedup, _, _ => absurd hdedup (by simp)
  | _ :: _, [], _, _, hdedup, _, _ => absurd hdedup (by simp)
  | _ :: _, _ :: _, [], _, _, hresponses, _ => absurd hresponses (by simp)
  | dup :: dedup, req :: reqs, response :: responses, out, hdedup, hresponses, h => by
    rw [thirdPassFrom, Option.bind_eq_some_iff] at h
    obtain ⟨filled, -, h⟩ := h
    obtain ⟨rest, hrest, rfl⟩ := Option.map_eq_some_iff.mp h
    rw [List.length_cons, List.length_cons, length_thirdPassFrom (by simpa using hdedup)
      (by simpa using hresponses) hrest]

/-- The third pass position by position, when every position can be filled. -/
theorem thirdPass_eq_map {dedup : List (Option ℕ)} {responses : List (Option JsonRpcResponse)}
    {f : JsonRpcRequest → JsonRpcResponse} (hdedup : dedup.length = reqs.length)
    (hresponses : responses.length = reqs.length)
    (hfill : ∀ (k : ℕ) dup req response, dedup[k]? = some dup → reqs[k]? = some req →
      responses[k]? = some response → fillDuplicate responses req.id dup response = some (f req)) :
    thirdPass dedup reqs responses = some (reqs.map f) := by
  have hsome : (thirdPassFrom responses dedup reqs responses).isSome :=
    thirdPassFrom_isSome fun k dup req response hdup hreq hresponse =>
      Option.isSome_iff_exists.mpr ⟨_, hfill k dup req response hdup hreq hresponse⟩
  obtain ⟨out, hout⟩ := Option.isSome_iff_exists.mp hsome
  have hlength := length_thirdPassFrom hdedup hresponses hout
  rw [thirdPass, hout, Option.some.injEq]
  refine List.ext_getElem? fun k => ?_
  rw [List.getElem?_map]
  by_cases hk : k < reqs.length
  · have hdup := List.getElem?_eq_getElem (hdedup ▸ hk)
    have hreq := List.getElem?_eq_getElem hk
    have hresponse := List.getElem?_eq_getElem (hresponses ▸ hk)
    obtain ⟨filled, hfilled, heq⟩ := thirdPassFrom_getElem? hout hdup hreq hresponse
    rw [hfilled, hreq, Option.map_some, ← heq, hfill k _ _ _ hdup hreq hresponse]
  · rw [List.getElem?_eq_none (by omega), List.getElem?_eq_none (by omega)]
    rfl

section Answered

variable {log : DebugLog} {single : JsonRpcRequest → JsonRpcResponse}
  {answer : String → Value → JsonRpcResponse} (hanswer : AnswersBy single answer)
  (hkeys : ∀ a ∈ reqs, ∀ b ∈ reqs, ∀ key, batchKey serde blake3 chainId blocked a = some key →
    batchKey serde blake3 chainId blocked b = some key →
    a.method = b.method ∧ a.params = b.params)
include hanswer hkeys

/-- The third pass fills every position with what processing its request would have given. -/
theorem thirdPass_responsesOf :
    thirdPass (firstPass serde blake3 chainId blocked reqs) reqs
      (responsesOf single (firstPass serde blake3 chainId blocked reqs) reqs) =
        some (reqs.map single) := by
  have hlength : (firstPass serde blake3 chainId blocked reqs).length = reqs.length :=
    length_firstPass serde blake3 reqs
  refine thirdPass_eq_map hlength (length_responsesOf hlength) ?_
  intro k dup req response hdup hreq hresponse
  rw [responsesOf_getElem? single hdup hreq] at hresponse
  obtain rfl := Option.some.inj hresponse
  cases dup with
  | none => rfl
  | some f =>
    obtain ⟨key, orig, hkey, hfk, horig, horigKey, hf⟩ :=
      firstPass_duplicate serde blake3 chainId blocked hreq hdup
    obtain ⟨hmethod, hparams⟩ := hkeys orig (List.mem_of_getElem? horig) req
      (List.mem_of_getElem? hreq) key horigKey hkey
    rw [fillDuplicate, responsesOf_getElem? single hf horig, hanswer orig, hanswer req, hmethod,
      hparams]
    rfl

/-- **The batch is answered as if each request had been processed by itself**, if the log survives
the responses. -/
theorem processBatch_eq (hsurvives : ∀ req ∈ reqs, log.survives (single req) = true) :
    processBatch serde blake3 chainId blocked log single reqs = some (reqs.map single) := by
  have hsecond : secondPass log single (firstPass serde blake3 chainId blocked reqs) reqs =
      some (responsesOf single (firstPass serde blake3 chainId blocked reqs) reqs) :=
    secondPass_eq_some fun _ _ _ hreq => hsurvives _ (List.mem_of_getElem? hreq)
  rw [processBatch]
  simp only [hsecond, Option.bind_some]
  exact thirdPass_responsesOf serde blake3 chainId blocked hanswer hkeys

/-- **The batch panics with the log**: if a response does not survive it, the second pass comes to
that request, or to an earlier one like it. The whole list of responses is lost. -/
theorem processBatch_eq_none {req : JsonRpcRequest} (hreq : req ∈ reqs)
    (hpanics : log.survives (single req) = false) :
    processBatch serde blake3 chainId blocked log single reqs = none := by
  obtain ⟨k, hk⟩ := List.mem_iff_getElem?.mp hreq
  have hlt := (List.getElem?_eq_some_iff.mp hk).1
  have hlength : (firstPass serde blake3 chainId blocked reqs).length = reqs.length :=
    length_firstPass serde blake3 reqs
  obtain ⟨dup, hdup⟩ : ∃ dup, (firstPass serde blake3 chainId blocked reqs)[k]? = some dup :=
    ⟨_, List.getElem?_eq_getElem (hlength.symm ▸ hlt)⟩
  have hsecond : secondPass log single (firstPass serde blake3 chainId blocked reqs) reqs =
      none := by
    cases dup with
    | none => exact secondPass_eq_none hdup hk hpanics
    | some f =>
      obtain ⟨key, orig, hkey, -, horig, horigKey, hf⟩ :=
        firstPass_duplicate serde blake3 chainId blocked hk hdup
      obtain ⟨hmethod, hparams⟩ :=
        hkeys orig (List.mem_of_getElem? horig) req hreq key horigKey hkey
      refine secondPass_eq_none hf horig ?_
      rw [hanswer orig, hmethod, hparams, DebugLog.survives_withId]
      rwa [hanswer req, DebugLog.survives_withId] at hpanics
  rw [processBatch]
  simp only [hsecond, Option.bind_none]

end Answered

theorem batchKey_eq_none_iff :
    batchKey serde blake3 chainId blocked req = none ↔
      isUncacheable req.method = true ∨ isMethodBlocked req.method blocked = true := by
  rw [batchKey]
  cases isUncacheable req.method <;> cases isMethodBlocked req.method blocked <;> simp

theorem batchKey_eq_some_iff {key : String} :
    batchKey serde blake3 chainId blocked req = some key ↔
      isUncacheable req.method = false ∧ isMethodBlocked req.method blocked = false ∧
        cacheKey serde blake3 chainId req = key := by
  rw [batchKey]
  cases isUncacheable req.method <;> cases isMethodBlocked req.method blocked <;> simp

/-- Where the digests of the requests compared are apart, requests with one key are alike. -/
theorem alike_of_batchKey (hdigests : blake3.Separates serde
      {req ∈ reqs | (batchKey serde blake3 chainId blocked req).isSome}) :
    ∀ a ∈ reqs, ∀ b ∈ reqs, ∀ key, batchKey serde blake3 chainId blocked a = some key →
      batchKey serde blake3 chainId blocked b = some key →
      a.method = b.method ∧ a.params = b.params := by
  intro a ha b hb key hakey hbkey
  obtain ⟨-, -, hacache⟩ := (batchKey_eq_some_iff ..).mp hakey
  obtain ⟨-, -, hbcache⟩ := (batchKey_eq_some_iff ..).mp hbkey
  exact (hdigests.eq_of_cacheKey ⟨ha, by rw [hakey]; rfl⟩ ⟨hb, by rw [hbkey]; rfl⟩
    (hacache.trans hbcache.symm)).2

/-- **What deduplication is to leave as it is**: the batch is answered as if each request had been
processed by itself, with its own id; uncacheable and blocked requests are each processed; and of
the requests with one method and parameters exactly one is. That a list is returned at all is part
of it. -/
structure BatchTransparent (log : DebugLog) (single : JsonRpcRequest → JsonRpcResponse)
    (reqs : List JsonRpcRequest) : Prop where
  answers : processBatch serde blake3 chainId blocked log single reqs = some (reqs.map single)
  separate : ∀ k req, reqs[k]? = some req →
    isUncacheable req.method = true ∨ isMethodBlocked req.method blocked = true →
    Processed serde blake3 chainId blocked log single reqs k
  once : ∀ req ∈ reqs, isUncacheable req.method = false →
    isMethodBlocked req.method blocked = false →
    ∃! k, Processed serde blake3 chainId blocked log single reqs k ∧
      ∃ r, reqs[k]? = some r ∧ r.method = req.method ∧ r.params = req.params

/-- **Deduplication is transparent exactly when the log survives the responses**: `debug_client` is
off, or none of them straddles the limit of the log. The digests of the requests compared are taken
to be apart, and the answer of `process_single_request` to depend on the method and the parameters
only. -/
theorem processBatch_transparent_iff {log : DebugLog} {single : JsonRpcRequest → JsonRpcResponse}
    {answer : String → Value → JsonRpcResponse} (hanswer : AnswersBy single answer)
    (hdigests : blake3.Separates serde
      {req ∈ reqs | (batchKey serde blake3 chainId blocked req).isSome}) :
    BatchTransparent serde blake3 chainId blocked log single reqs ↔
      (log.enabled = true → ∀ req ∈ reqs, ¬ (single req).Straddles log.floats) := by
  have hkeys := alike_of_batchKey serde blake3 chainId blocked hdigests
  have hcondition : (log.enabled = true → ∀ req ∈ reqs, ¬ (single req).Straddles log.floats) ↔
      ∀ req ∈ reqs, log.survives (single req) = true := by
    simp only [DebugLog.survives_iff]
    exact ⟨fun h req hreq hon => h hon req hreq, fun h hon req hreq => h req hreq hon⟩
  rw [hcondition]
  constructor
  · intro htransparent req hreq
    by_contra hpanics
    have hnone := processBatch_eq_none serde blake3 chainId blocked hanswer hkeys hreq
      (Bool.not_eq_true _ ▸ hpanics)
    cases hnone.symm.trans htransparent.answers
  · intro hsurvives
    -- no log panics, so the second pass gets to every position that is not marked
    have hprocessed : ∀ k, Processed serde blake3 chainId blocked log single reqs k ↔
        Unmarked serde blake3 chainId blocked reqs k := fun k =>
      and_iff_left fun _ _ _ _ hr => hsurvives _ (List.mem_of_getElem? hr)
    refine ⟨processBatch_eq serde blake3 chainId blocked hanswer hkeys hsurvives,
      fun k req hreq hnone => (hprocessed k).mpr ?_, fun req hreq hcacheable hunblocked => ?_⟩
    · exact unmarked_of_batchKey_none serde blake3 chainId blocked hreq
        ((batchKey_eq_none_iff ..).mpr hnone)
    · have hkey := (batchKey_eq_some_iff serde blake3 chainId blocked).mpr
        ⟨hcacheable, hunblocked, rfl⟩
      -- to have the key is to have the method and the parameters
      have hsame : ∀ r ∈ reqs, batchKey serde blake3 chainId blocked r =
          some (cacheKey serde blake3 chainId req) ↔
            r.method = req.method ∧ r.params = req.params := by
        intro r hr
        refine ⟨fun h => hkeys r hr req hreq _ h hkey, fun ⟨hmethod, hparams⟩ => ?_⟩
        rw [batchKey_eq_some_iff, hmethod]
        exact ⟨hcacheable, hunblocked, cacheKey_congr serde blake3 chainId hmethod hparams⟩
      refine (existsUnique_congr fun k => and_congr (hprocessed k).symm ?_).mp
        (existsUnique_unmarked serde blake3 chainId blocked hreq hkey)
      rw [Option.bind_eq_some_iff]
      exact exists_congr fun r => and_congr_right fun hr => hsame r (List.mem_of_getElem? hr)

/-! ### Batches of concurrent tasks -/

section Tasks

variable {ι : Type} {serde blake3} {app : AppConfig ι} {s : ProxyState ι Text} {b : ℕ}
  {batch : Batch ι}

/-- The third pass finds every response, also while other tasks run. -/
theorem replyStep_isSome (hok : BatchOk serde blake3 app s b batch)
    (hcurrent : batch.current = none) (hlength : batch.items.length = batch.reqs.length)
    (hreplied : batch.replied = none) : (replyStep serde blake3 app s b batch).isSome := by
  have hitem : ∀ {k : ℕ} {response}, batch.responses[k]? = some response →
      (batch.dedup serde blake3 app)[k]? = some none → response.isSome := by
    intro k response hresponse hdup
    rw [Batch.responses, List.getElem?_map, Option.map_eq_some_iff] at hresponse
    obtain ⟨item, hitem, rfl⟩ := hresponse
    cases item with
    | some item => rfl
    | none =>
      obtain ⟨first, hfirst⟩ := hok.duplicate k hitem
      cases hdup.symm.trans hfirst
  rw [replyStep, if_pos ⟨hcurrent, hlength, hreplied⟩, Option.isSome_map]
  refine thirdPassFrom_isSome fun k dup req response hdup hreq hresponse => ?_
  cases dup with
  | none => exact hitem hresponse hdup
  | some f =>
    obtain ⟨key, orig, -, -, horig, -, hf⟩ := firstPass_duplicate serde blake3 _ _ hreq hdup
    have hlt : f < batch.responses.length := by
      rw [Batch.responses, List.length_map, hlength]
      exact (List.getElem?_eq_some_iff.mp horig).1
    obtain ⟨filled, hfilled⟩ :=
      Option.isSome_iff_exists.mp (hitem (List.getElem?_eq_getElem hlt) hf)
    rw [fillDuplicate, List.getElem?_eq_getElem hlt, hfilled]
    rfl

end Tasks

/-- A balance asked for twice, a gas price and a blocked method. -/
def mixedBatch : List JsonRpcRequest :=
  [⟨"2.0", "eth_getBalance", .array [.string "0xabc", .string "0x1"], .ofU64 1⟩,
    ⟨"2.0", "eth_gasPrice", .array [], .ofU64 2⟩,
    ⟨"2.0", "eth_getBalance", .array [.string "0xabc", .string "0x1"], .ofU64 3⟩,
    ⟨"2.0", "debug_traceCall", .array [], .ofU64 4⟩]

/-- A stand-in for `process_single_request` that answers with the parameters. -/
def echoParams (req : JsonRpcRequest) : JsonRpcResponse := .success req.id req.params

/-- One digest is enough for a batch with one request to compare. -/
def mixedDigest : Blake3 Value :=
  .const "9d1e3c55a0b7f2486c0d9be4715f3a82640c1b7de98f25a3b6704ed81c2f59a7" (by decide)

theorem mixedBatch_transparent :
    BatchTransparent .tree mixedDigest 1 ["debug_"] .off echoParams mixedBatch := by
  have hanswer : AnswersBy echoParams fun _ params => .success .null params := fun _ => rfl
  refine (processBatch_transparent_iff .tree mixedDigest 1 ["debug_"] hanswer ?_).mpr fun hon => ?_
  · -- the two requests that are compared are the same
    rintro _ ⟨a, ⟨ha, hakey⟩, rfl⟩ _ ⟨b, ⟨hb, hbkey⟩, rfl⟩ -
    simp only [mixedBatch, List.mem_cons, List.not_mem_nil, or_false] at ha hb
    rcases ha with rfl | rfl | rfl | rfl <;> rcases hb with rfl | rfl | rfl | rfl <;>
      first | rfl | exact absurd hakey (by decide) | exact absurd hbkey (by decide)
  · exact absurd hon Bool.false_ne_true

/-- A request whose answer cannot be logged, in a batch with another one. -/
def accentedBatch : List JsonRpcRequest :=
  [⟨"2.0", "eth_call", .array [], .ofU64 1⟩, ⟨"2.0", "eth_gasPrice", .array [], .ofU64 2⟩]

/-- With `debug_client`, the batch gets no response at all, though its digests are apart. -/
theorem accentedBatch_panics :
    AnswersBy (fun req => accentedResponse.withId req.id) (fun _ _ => accentedResponse) ∧
      mixedDigest.Separates .tree
        {req ∈ accentedBatch | (batchKey .tree mixedDigest 1 [] req).isSome} ∧
      processBatch .tree mixedDigest 1 [] ⟨true, pointedBits⟩
        (fun req => accentedResponse.withId req.id) accentedBatch = none ∧
      ¬ BatchTransparent .tree mixedDigest 1 [] ⟨true, pointedBits⟩
        (fun req => accentedResponse.withId req.id) accentedBatch := by
  have hanswer : AnswersBy (fun req => accentedResponse.withId req.id)
      (fun _ _ => accentedResponse) := fun _ => rfl
  have hdigests : mixedDigest.Separates .tree
      {req ∈ accentedBatch | (batchKey .tree mixedDigest 1 [] req).isSome} := by
    rintro _ ⟨a, ⟨ha, hakey⟩, rfl⟩ _ ⟨b, ⟨hb, hbkey⟩, rfl⟩ -
    simp only [accentedBatch, List.mem_cons, List.not_mem_nil, or_false] at ha hb
    rcases ha with rfl | rfl <;> exact absurd hakey (by decide)
  have hnone := processBatch_eq_none .tree mixedDigest 1 [] hanswer
    (alike_of_batchKey .tree mixedDigest 1 [] hdigests) (List.mem_cons_self (l := _))
    (survives_accentedResponse pointedBits)
  exact ⟨hanswer, hdigests, hnone, fun h => by cases hnone.symm.trans h.answers⟩

end Poolbeg
