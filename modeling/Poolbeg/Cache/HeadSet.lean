import Poolbeg.Cache.Layer
import Poolbeg.Lts

/-!
# The head cache set and reorg invalidation

Every entry that a reorg may falsify is stored by a `SET` and then recorded in the chain's
`head_cache` set by a `SADD`; an invalidation reads the set, deletes every member it read and then
deletes the set. This module runs any number of these operations on one chain at once, each command
being one atomic step, and asks whether the set still names every stored key once nothing is in
progress.

It does not always. A `SADD` that falls between an invalidation's `SMEMBERS` and its final `DEL`
adds a key that the invalidation never reads, and the `DEL` then removes the record while the entry
stays. The final `DEL` is harmless exactly when every stored key that is still present has its
`SADD`, or the `DEL` of another invalidation, still to come: `Along` that condition the set tracks
everything (`always_tracked`), and a key that violates it is lost for good, in whatever order the
operations in progress finish (`lost_run`).

## The invariant

What carries the first result is not that the set names every stored key, which is false while an
operation is between its two commands. It is that every key is named by the set or settled by what
some operation has left to do (`HeadState.Covered`). Every step but the final `DEL` keeps this by
itself: a store comes with its record behind it (`WellFormed`), a record moves its key from the one
half to the other, and a deletion takes a key out of the question.

## Implementation notes

`stored` lists the keys that these operations have ever stored. An expiry or an eviction may take an
entry away at any time, but not the set. Operations on other chains are left out, since they have
keys of their own.

## Main definitions

* `HeadOp`, `OpState`, `HeadState`, `HeadAction`, `headStep` — the operations, run concurrently
* `Quiescent`, `Tracked` — the promise
* `PendingFor`, `FinalDelCovered` — what a final `DEL` relies on
* `HeadInv`, `HeadState.Covered` — what holds in between
* `HeadState.Lost` — what is left of a final `DEL` that was not covered

## Main results

* `always_tracked` — the condition is enough
* `lost_run` — and without it a key is lost
-/

namespace Poolbeg

open Lts

variable {Text : Type} (serde : SerdeJson Text) (blake3 : Blake3 Text) (chainId : ℕ)

/-! ### The operations -/

/-- An operation on the head cache: an unfinalized `set`, the two writes of the block tracker, or an
invalidation. -/
inductive HeadOp
  | set (config : CacheConfig) (req : JsonRpcRequest) (resp : JsonRpcResponse)
  | cacheBlock (number : ℕ) (hash : String) (block : Value)
  | cacheLogs (blockNumber : ℕ) (logs : Value)
  | invalidateHeadCache

/-- Where an operation stands: before its `SMEMBERS`, or with these commands left. Between two
commands other operations may issue theirs. -/
inductive OpState (Text : Type)
  | smembers
  | pending (cmds : List (Command Text))

/-- An operation about to run. -/
def HeadOp.start : HeadOp → OpState Text
  | .set config req resp => .pending (CacheLayer.set serde blake3 config chainId req resp true)
  | .cacheBlock number hash block =>
    .pending (CacheLayer.cacheBlock serde chainId number hash block)
  | .cacheLogs blockNumber logs => .pending (CacheLayer.cacheLogs serde chainId blockNumber logs)
  | .invalidateHeadCache => .smembers

/-- The database, the operations by number, and the keys stored so far. The last is only there to
say what is promised. -/
structure HeadState (Text : Type) where
  redis : Redis Text
  ops : ℕ → OpState Text
  stored : List String

/-- An operation starts, or issues its next command, or an entry is gone by itself. -/
inductive HeadAction
  | start (i : ℕ) (op : HeadOp)
  | step (i : ℕ)
  | expire (key : String)

/-- The keys a command stores. -/
def Command.stores : Command Text → List String
  | .set key _ _ => [key]
  | _ => []

/-- One atomic step: an operation starts, an operation issues its next command, or an entry other
than the set expires or is evicted. -/
def headStep (s : HeadState Text) : HeadAction → Option (HeadState Text)
  | .start i op =>
    match s.ops i with
    | .pending [] => some { s with ops := Function.update s.ops i (op.start serde blake3 chainId) }
    | _ => none
  | .step i =>
    match s.ops i with
    | .smembers =>
      let setKey := headCacheSetKey chainId
      let cmds := RedisClient.deleteSetAndMembers setKey (s.redis.smembers setKey)
      some { s with ops := Function.update s.ops i (.pending cmds) }
    | .pending [] => none
    | .pending (c :: cmds) =>
      some { redis := s.redis.exec c
             ops := Function.update s.ops i (.pending cmds)
             stored := c.stores ++ s.stored }
  | .expire key =>
    if key = headCacheSetKey chainId then none
    else some { s with redis := s.redis.exec (.del key) }

/-- No operation has run yet. -/
def HeadState.init (redis : Redis Text) : HeadState Text where
  redis := redis
  ops := fun _ => .pending []
  stored := []

/-! ### The promise -/

/-- No operation is in progress. -/
def HeadState.Quiescent (s : HeadState Text) : Prop := ∀ i, s.ops i = .pending []

/-- Every stored key that is still present is a member of the set. So an invalidation finds it. -/
def HeadState.Tracked (s : HeadState Text) : Prop :=
  ∀ key ∈ s.stored, s.redis key ≠ none → key ∈ s.redis.smembers (headCacheSetKey chainId)

/-- The commands still add the key to the set, or delete the key. -/
def Settles (key : String) (cmds : List (Command Text)) : Prop :=
  .sadd (headCacheSetKey chainId) key ∈ cmds ∨ .del key ∈ cmds

/-- Some operation in progress still settles the key. -/
def PendingFor (ops : ℕ → OpState Text) (key : String) : Prop :=
  ∃ i cmds, ops i = .pending cmds ∧ Settles chainId key cmds

/-- What a `DEL` of the set relies on: the record of every present key is still to come, or the key
is about to be deleted. All other steps are free. -/
def FinalDelCovered (s : HeadState Text) : HeadAction → Prop
  | .step i => ∀ cmds, s.ops i = .pending (.del (headCacheSetKey chainId) :: cmds) →
      ∀ key ∈ s.stored, s.redis key ≠ none → PendingFor chainId s.ops key
  | _ => True

/-! ### The shape of an operation -/

/-- What is left of an operation: an entry is stored under a key of its own and recorded later, and
only the set is added to. -/
def WellFormed (setKey : String) : List (Command Text) → Prop
  | [] => True
  | .set key _ _ :: cmds => key ≠ setKey ∧ .sadd setKey key ∈ cmds ∧ WellFormed setKey cmds
  | .sadd key _ :: cmds => key = setKey ∧ WellFormed setKey cmds
  | .del _ :: cmds => WellFormed setKey cmds

theorem wellFormed_deletes (setKey : String) (keys : List String) :
    WellFormed setKey (keys.map .del : List (Command Text)) := by
  induction keys with
  | nil => trivial
  | cons key keys ih => exact ih

theorem wellFormed_deleteSetAndMembers (setKey : String) (members : List String) :
    WellFormed setKey (RedisClient.deleteSetAndMembers setKey members : List (Command Text)) := by
  rw [RedisClient.deleteSetAndMembers]
  split_ifs
  · trivial
  · have h : WellFormed setKey ((members ++ [setKey]).map .del : List (Command Text)) :=
      wellFormed_deletes setKey _
    rwa [List.map_append] at h

theorem wellFormed_set {setKey key : String} {cmds : List (Command Text)} (value : Text) (ttl : ℕ)
    (hkey : key ≠ setKey) (hadd : .sadd setKey key ∈ cmds) (h : WellFormed setKey cmds) :
    WellFormed setKey (RedisClient.set key value ttl :: cmds) := by
  rw [RedisClient.set]
  split_ifs <;> exact ⟨hkey, hadd, h⟩

/-- Every operation starts well formed. -/
theorem HeadOp.start_wellFormed (op : HeadOp) {cmds : List (Command Text)}
    (h : op.start serde blake3 chainId = .pending cmds) :
    WellFormed (headCacheSetKey chainId) cmds := by
  cases op with
  | set config req resp =>
    cases h
    rw [CacheLayer.set]
    split
    · trivial
    · exact wellFormed_set _ _ (cacheKey_ne_headCacheSetKey serde blake3 _ _ _)
        (List.mem_singleton.mpr rfl) ⟨rfl, trivial⟩
  | cacheBlock number hash block =>
    cases h
    refine wellFormed_set _ _ (blockByNumberKey_ne_headCacheSetKey _ _ _) ?_
      (wellFormed_set _ _ (blockByHashKey_ne_headCacheSetKey _ _ _) ?_ ⟨rfl, rfl, trivial⟩)
    · exact List.mem_cons_of_mem _ List.mem_cons_self
    · exact List.mem_cons_of_mem _ List.mem_cons_self
  | cacheLogs blockNumber logs =>
    cases h
    exact wellFormed_set _ _ (blockLogsKey_ne_headCacheSetKey _ _ _)
      (List.mem_singleton.mpr rfl) ⟨rfl, trivial⟩
  | invalidateHeadCache => cases h

/-! ### Invariants -/

/-- What holds in every reachable state, whatever the order of the commands: operations are well
formed, nothing is stored under the key of the set, and the set is a set. -/
structure HeadInv (s : HeadState Text) : Prop where
  wellFormed : ∀ i cmds, s.ops i = .pending cmds → WellFormed (headCacheSetKey chainId) cmds
  stored_ne : ∀ key ∈ s.stored, key ≠ headCacheSetKey chainId
  isSet : ∀ t, s.redis (headCacheSetKey chainId) ≠ some (.str t)

variable {chainId} {s t : HeadState Text} {a : HeadAction}

theorem headInv_init {redis : Redis Text}
    (hset : ∀ t, redis (headCacheSetKey chainId) ≠ some (.str t)) :
    HeadInv chainId (HeadState.init redis) where
  wellFormed := by
    intro i cmds h
    cases h
    trivial
  stored_ne := by
    intro key hkey
    exact absurd hkey List.not_mem_nil
  isSet := hset

theorem wellFormed_update {ops : ℕ → OpState Text} {setKey : String} {i : ℕ} {st : OpState Text}
    (hops : ∀ j cmds, ops j = .pending cmds → WellFormed setKey cmds)
    (hst : ∀ cmds, st = .pending cmds → WellFormed setKey cmds) :
    ∀ j cmds, Function.update ops i st j = .pending cmds → WellFormed setKey cmds := by
  intro j cmds h
  by_cases hj : j = i
  · subst hj
    rw [Function.update_self] at h
    exact hst cmds h
  · rw [Function.update_of_ne hj] at h
    exact hops j cmds h

theorem WellFormed.tail {setKey : String} {c : Command Text} {cmds : List (Command Text)}
    (h : WellFormed setKey (c :: cmds)) : WellFormed setKey cmds := by
  cases c with
  | set key value px => exact h.2.2
  | sadd key member => exact h.2
  | del key => exact h

/-- A well-formed command keeps the set a set. -/
theorem exec_isSet {setKey : String} {r : Redis Text} {c : Command Text}
    {cmds : List (Command Text)} (hc : WellFormed setKey (c :: cmds))
    (hr : ∀ t, r setKey ≠ some (.str t)) : ∀ t, r.exec c setKey ≠ some (.str t) := by
  intro t
  cases c with
  | set key value px =>
    rw [r.exec_set_of_ne value px (Ne.symm hc.1)]
    exact hr t
  | sadd key member =>
    obtain ⟨rfl, -⟩ := hc
    rw [Redis.exec_sadd_self]
    cases hentry : r key with
    | none => simp [Entry.add]
    | some e =>
      cases e with
      | str value => exact absurd hentry (hr value)
      | set members => simp [Entry.add]
  | del key =>
    by_cases hkey : setKey = key
    · subst hkey
      simp
    · rw [r.exec_del_of_ne hkey]
      exact hr t

theorem headInv_step (hs : HeadInv chainId s) (h : headStep serde blake3 chainId s a = some t) :
    HeadInv chainId t := by
  cases a with
  | start i op =>
    simp only [headStep] at h
    split at h
    · cases h
      refine ⟨wellFormed_update hs.wellFormed fun cmds hst => ?_, hs.stored_ne, hs.isSet⟩
      exact op.start_wellFormed serde blake3 chainId hst
    · exact absurd h nofun
  | step i =>
    simp only [headStep] at h
    split at h
    · cases h
      refine ⟨wellFormed_update hs.wellFormed fun cmds hst => ?_, hs.stored_ne, hs.isSet⟩
      cases hst
      exact wellFormed_deleteSetAndMembers _ _
    · exact absurd h nofun
    · rename_i c cmds hops
      have hwf := hs.wellFormed i _ hops
      cases h
      refine ⟨wellFormed_update hs.wellFormed fun cmds' hst => ?_, fun key hkey => ?_,
        exec_isSet hwf hs.isSet⟩
      · cases hst
        exact hwf.tail
      · rcases List.mem_append.mp hkey with hnew | hold
        · cases c with
          | set k value px =>
            rw [Command.stores, List.mem_singleton] at hnew
            exact hnew ▸ hwf.1
          | sadd k member => exact absurd hnew List.not_mem_nil
          | del k => exact absurd hnew List.not_mem_nil
        · exact hs.stored_ne key hold
  | expire key =>
    simp only [headStep] at h
    split at h
    · exact absurd h nofun
    · rename_i hkey
      cases h
      refine ⟨hs.wellFormed, hs.stored_ne, fun t => ?_⟩
      change s.redis.exec (.del key) (headCacheSetKey chainId) ≠ _
      rw [s.redis.exec_del_of_ne (Ne.symm hkey)]
      exact hs.isSet t

/-! ### The set names every stored key, or is about to -/

variable (chainId) in
/-- Every stored key that is present is in the set, or some operation will still settle it. This is
the invariant behind `Tracked`, which holds between operations only. -/
def HeadState.Covered (s : HeadState Text) : Prop :=
  ∀ key ∈ s.stored, s.redis key ≠ none →
    key ∈ s.redis.smembers (headCacheSetKey chainId) ∨ PendingFor chainId s.ops key

/-- An operation that goes on keeps a key pending if it still settles it. -/
theorem pendingFor_update {ops : ℕ → OpState Text} {i : ℕ} {st : OpState Text} {key : String}
    (h : PendingFor chainId ops key)
    (hi : ∀ cmds, ops i = .pending cmds → Settles chainId key cmds →
      ∃ cmds', st = .pending cmds' ∧ Settles chainId key cmds') :
    PendingFor chainId (Function.update ops i st) key := by
  obtain ⟨j, cmds, hj, hsettles⟩ := h
  by_cases hji : j = i
  · subst hji
    obtain ⟨cmds', rfl, hsettles'⟩ := hi cmds hj hsettles
    exact ⟨j, cmds', Function.update_self _ _ _, hsettles'⟩
  · exact ⟨j, cmds, (Function.update_of_ne hji _ _).trans hj, hsettles⟩

/-- Issuing a command that does not itself settle the key leaves the key pending. -/
theorem pendingFor_tail {ops : ℕ → OpState Text} {i : ℕ} {c : Command Text}
    {cmds : List (Command Text)} {key : String} (h : PendingFor chainId ops key)
    (hi : ops i = .pending (c :: cmds)) (hadd : c ≠ .sadd (headCacheSetKey chainId) key)
    (hdel : c ≠ .del key) : PendingFor chainId (Function.update ops i (.pending cmds)) key := by
  refine pendingFor_update h fun cmds' hcmds' hsettles => ⟨cmds, rfl, ?_⟩
  rw [hi] at hcmds'
  cases hcmds'
  rcases hsettles with hmem | hmem
  · exact .inl ((List.mem_cons.mp hmem).resolve_left (Ne.symm hadd))
  · exact .inr ((List.mem_cons.mp hmem).resolve_left (Ne.symm hdel))

theorem mem_smembers_sadd {r : Redis Text} {setKey member key : String}
    (hr : ∀ t, r setKey ≠ some (.str t)) :
    key ∈ (r.exec (.sadd setKey member)).smembers setKey ↔
      key = member ∨ key ∈ r.smembers setKey := by
  rw [Redis.smembers, Redis.exec_sadd_self, Redis.smembers]
  cases hentry : r setKey with
  | none => simp [Entry.add]
  | some e =>
    cases e with
    | str value => exact absurd hentry (hr value)
    | set members =>
      simp only [Entry.add]
      split_ifs with hmem
      · constructor
        · exact .inr
        · rintro (rfl | h)
          · exact hmem
          · exact h
      · rw [List.mem_append, List.mem_singleton, or_comm]

/-- What one command does to the cover: storing a key leaves its record to come, a record puts it
into the set, and a deletion takes it away. -/
theorem covered_exec {i : ℕ} {c : Command Text} {cmds : List (Command Text)}
    (hs : HeadInv chainId s) (hcov : s.Covered chainId) (hi : s.ops i = .pending (c :: cmds))
    (hfinal : c = .del (headCacheSetKey chainId) →
      ∀ key ∈ s.stored, s.redis key ≠ none → PendingFor chainId s.ops key)
    {key : String} (hkey : key ∈ c.stores ++ s.stored) (hpresent : s.redis.exec c key ≠ none) :
    key ∈ (s.redis.exec c).smembers (headCacheSetKey chainId) ∨
      PendingFor chainId (Function.update s.ops i (.pending cmds)) key := by
  have hwf := hs.wellFormed i _ hi
  cases c with
  | set k value px =>
    by_cases hk : key = k
    · subst hk
      exact .inr ⟨i, cmds, Function.update_self _ _ _, .inl hwf.2.1⟩
    · have hold : key ∈ s.stored :=
        (List.mem_append.mp hkey).resolve_left fun hmem => hk (List.mem_singleton.mp hmem)
      rw [s.redis.exec_set_of_ne value px hk] at hpresent
      rw [Redis.smembers_congr (s.redis.exec_set_of_ne value px (Ne.symm hwf.1))]
      exact (hcov key hold hpresent).imp_right fun h => pendingFor_tail h hi nofun nofun
  | sadd k member =>
    obtain ⟨rfl, -⟩ := hwf
    have hne : key ≠ headCacheSetKey chainId := hs.stored_ne key hkey
    rw [s.redis.exec_sadd_of_ne member hne] at hpresent
    rw [mem_smembers_sadd hs.isSet]
    by_cases hmember : key = member
    · exact .inl (.inl hmember)
    · refine (hcov key hkey hpresent).imp .inr fun h => pendingFor_tail h hi ?_ nofun
      intro heq
      injection heq with _ heq
      exact hmember heq.symm
  | del k =>
    have hk : key ≠ k := by
      rintro rfl
      exact hpresent (Redis.exec_del_self _ _)
    have hdel : (Command.del k : Command Text) ≠ .del key := by
      intro heq
      injection heq with heq
      exact hk heq.symm
    rw [s.redis.exec_del_of_ne hk] at hpresent
    by_cases hset : k = headCacheSetKey chainId
    · subst hset
      exact .inr (pendingFor_tail (hfinal rfl key hkey hpresent) hi nofun hdel)
    · rw [Redis.smembers_congr (s.redis.exec_del_of_ne (Ne.symm hset))]
      exact (hcov key hkey hpresent).imp_right fun h => pendingFor_tail h hi nofun hdel

/-- **A step keeps the set covered**, if it does not delete the set while a key relies on it. -/
theorem covered_step (hs : HeadInv chainId s) (hcov : s.Covered chainId)
    (hfinal : FinalDelCovered chainId s a) (h : headStep serde blake3 chainId s a = some t) :
    t.Covered chainId := by
  cases a with
  | start i op =>
    simp only [headStep] at h
    split at h
    · rename_i hi
      cases h
      refine fun key hkey hpresent => (hcov key hkey hpresent).imp_right fun hpending => ?_
      refine pendingFor_update hpending fun cmds hcmds hsettles => ?_
      -- the operation that starts had nothing left to issue
      rw [hi] at hcmds
      cases hcmds
      exact absurd hsettles (by simp [Settles])
    · exact absurd h nofun
  | step i =>
    simp only [headStep] at h
    split at h
    · rename_i hi
      cases h
      refine fun key hkey hpresent => (hcov key hkey hpresent).imp_right fun hpending => ?_
      refine pendingFor_update hpending fun cmds hcmds _ => ?_
      rw [hi] at hcmds
      exact absurd hcmds nofun
    · exact absurd h nofun
    · rename_i c cmds hi
      cases h
      refine fun key hkey hpresent => covered_exec hs hcov hi ?_ hkey hpresent
      rintro rfl
      exact hfinal cmds hi
  | expire key =>
    simp only [headStep] at h
    split at h
    · exact absurd h nofun
    · rename_i hset
      cases h
      intro k hk hpresent
      have hne : k ≠ key := by
        rintro rfl
        exact hpresent (Redis.exec_del_self _ _)
      have hpresent' : s.redis k ≠ none := by
        rwa [← s.redis.exec_del_of_ne hne]
      refine (hcov k hk hpresent').imp_left fun hmem => ?_
      have hsame := Redis.smembers_congr (s.redis.exec_del_of_ne (Ne.symm hset))
      exact hsame.symm ▸ hmem

/-- With nothing in progress, a covered set tracks, since nothing is left that could settle a key.
-/
theorem HeadState.Covered.tracked (hcov : s.Covered chainId) (hq : s.Quiescent) :
    s.Tracked chainId := by
  intro key hkey hpresent
  refine (hcov key hkey hpresent).resolve_right ?_
  rintro ⟨i, cmds, hi, hsettles⟩
  rw [hq i] at hi
  cases hi
  exact absurd hsettles (by simp [Settles])

/-- **If every `DEL` of the set is covered, the set tracks every stored key whenever no operation is
in progress.** -/
theorem always_tracked {redis : Redis Text}
    (hset : ∀ t, redis (headCacheSetKey chainId) ≠ some (.str t)) (as : List HeadAction)
    (h : Along (headStep serde blake3 chainId) (FinalDelCovered chainId) (HeadState.init redis)
      as) :
    Always (headStep serde blake3 chainId) (fun s => s.Quiescent → s.Tracked chainId)
      (HeadState.init redis) as := by
  have hinit : HeadInv chainId (HeadState.init redis) ∧
      (HeadState.init redis).Covered chainId :=
    ⟨headInv_init hset, fun key hkey => absurd hkey List.not_mem_nil⟩
  have hcov := Along.always (I := fun s => HeadInv chainId s ∧ s.Covered chainId)
    (fun s a t hs hC ht =>
      ⟨headInv_step serde blake3 hs.1 ht, covered_step serde blake3 hs.1 hs.2 hC ht⟩) hinit h
  exact hcov.mono fun s hs => hs.2.tracked

/-- A reorg after the logs of a block were cached. -/
def reorgAfterLogs : List HeadAction :=
  [.start 0 (.cacheLogs 10 (.array [])), .step 0, .step 0,
   .start 1 .invalidateHeadCache, .step 1, .step 1, .step 1]

/-- A digest for runs that store no response. -/
def emptyDigest : Blake3 Value := .const "" (by decide)

theorem reorgAfterLogs_tracked :
    Always (headStep .tree emptyDigest 1) (fun s => s.Quiescent → s.Tracked 1)
      (HeadState.init fun _ => none) reorgAfterLogs := by
  refine always_tracked .tree emptyDigest (fun _ h => ?_) reorgAfterLogs ?_
  · cases h
  refine fun t ht => ⟨trivial, ?_⟩
  cases ht
  refine fun t ht => ⟨nofun, ?_⟩
  cases ht
  refine fun t ht => ⟨nofun, ?_⟩
  cases ht
  refine fun t ht => ⟨trivial, ?_⟩
  cases ht
  refine fun t ht => ⟨nofun, ?_⟩
  cases ht
  refine fun t ht => ⟨?_, ?_⟩
  · -- the command is the `DEL` of the logs
    intro cmds h
    injection h with h
    injection h with h _
    injection h with h
    exact absurd h (by decide)
  cases ht
  refine fun t ht => ⟨?_, trivial⟩
  -- the logs are gone when the set is deleted
  intro cmds _ key hkey hpresent
  obtain rfl := List.mem_singleton.mp hkey
  exact absurd rfl hpresent

/-- An invalidation reads the set, deletes the logs of block 10 and deletes the set, while the logs
of block 11 are being cached. -/
def reorgDuringLogs : List HeadAction :=
  [.start 0 (.cacheLogs 10 (.array [])), .step 0, .step 0,
   .start 1 (.cacheLogs 11 (.array [])), .step 1,
   .start 2 .invalidateHeadCache, .step 2,
   .step 1, .step 2, .step 2]

/-- The logs of block 11 stay, and the next invalidation will not find them. -/
theorem reorgDuringLogs_not_tracked :
    ∃ s, run (headStep .tree emptyDigest 1) (HeadState.init fun _ => none) reorgDuringLogs =
        some s ∧
      s.Quiescent ∧ ¬ s.Tracked 1 := by
  refine ⟨_, rfl, ?_, ?_⟩
  · intro i
    simp only [Function.update_apply]
    split_ifs <;> rfl
  · intro h
    exact absurd (h (blockLogsKey 1 11) (by decide) nofun) (by decide)

/-! ### A key that is not covered is lost -/

variable (chainId) in
/-- A stored entry that is present, that the set does not name and that no operation in progress
will record or delete. -/
structure HeadState.Lost (s : HeadState Text) (key : String) : Prop where
  stored : key ∈ s.stored
  present : s.redis key ≠ none
  not_mem : key ∉ s.redis.smembers (headCacheSetKey chainId)
  not_pending : ¬ PendingFor chainId s.ops key

/-- An operation that starts issuing commands which do not settle the key leaves it unsettled. -/
theorem not_pendingFor_update {ops : ℕ → OpState Text} {i : ℕ} {st : OpState Text} {key : String}
    (h : ¬ PendingFor chainId ops key)
    (hst : ∀ cmds, st = .pending cmds → ¬ Settles chainId key cmds) :
    ¬ PendingFor chainId (Function.update ops i st) key := by
  rintro ⟨j, cmds, hj, hsettles⟩
  by_cases hji : j = i
  · subst hji
    rw [Function.update_self] at hj
    exact hst cmds hj hsettles
  · rw [Function.update_of_ne hji] at hj
    exact h ⟨j, cmds, hj, hsettles⟩

theorem not_settles_tail {ops : ℕ → OpState Text} {i : ℕ} {c : Command Text}
    {cmds : List (Command Text)} {key : String} (h : ¬ PendingFor chainId ops key)
    (hi : ops i = .pending (c :: cmds)) : ¬ Settles chainId key cmds :=
  fun hsettles => h ⟨i, _, hi, hsettles.imp (List.mem_cons_of_mem c) (List.mem_cons_of_mem c)⟩

/-- A `DEL` of the set that is not covered loses a key. -/
theorem lost_of_not_finalDelCovered (hs : HeadInv chainId s)
    (hcov : ¬ FinalDelCovered chainId s a) (h : headStep serde blake3 chainId s a = some t) :
    ∃ key, t.Lost chainId key := by
  cases a with
  | start i op => exact absurd trivial hcov
  | expire key => exact absurd trivial hcov
  | step i =>
    simp only [FinalDelCovered, not_forall, exists_prop] at hcov
    obtain ⟨cmds, hi, key, hkey, hpresent, hpending⟩ := hcov
    simp only [headStep, hi, Option.some.injEq] at h
    subst h
    refine ⟨key, ⟨hkey, ?_, ?_, ?_⟩⟩
    · change s.redis.exec (.del (headCacheSetKey chainId)) key ≠ none
      rwa [s.redis.exec_del_of_ne (hs.stored_ne key hkey)]
    · change key ∉
        (s.redis.exec (.del (headCacheSetKey chainId))).smembers (headCacheSetKey chainId)
      rw [Redis.smembers, Redis.exec_del_self]
      exact List.not_mem_nil
    · refine not_pendingFor_update hpending fun cmds' hcmds' => ?_
      cases hcmds'
      exact not_settles_tail hpending hi

/-- The steps that let what is in progress finish, and further invalidations. No entry expires
meanwhile, and nothing new is stored. -/
def HeadAction.Finishing : HeadAction → Prop
  | .start _ op => op = .invalidateHeadCache
  | .step _ => True
  | .expire _ => False

theorem not_settles_deleteSetAndMembers {members : List String} {key : String}
    (hkey : key ∉ members) (hne : key ≠ headCacheSetKey chainId) :
    ¬ Settles chainId key (RedisClient.deleteSetAndMembers (headCacheSetKey chainId) members :
      List (Command Text)) := by
  rw [RedisClient.deleteSetAndMembers]
  split_ifs
  · simp [Settles]
  · simp [Settles, hkey, hne]

theorem lost_exec {i : ℕ} {c : Command Text} {cmds : List (Command Text)} {key : String}
    (hs : HeadInv chainId s) (hlost : s.Lost chainId key) (hi : s.ops i = .pending (c :: cmds)) :
    s.redis.exec c key ≠ none ∧
      key ∉ (s.redis.exec c).smembers (headCacheSetKey chainId) := by
  have hwf := hs.wellFormed i _ hi
  have hne : key ≠ headCacheSetKey chainId := hs.stored_ne key hlost.stored
  cases c with
  | set k value px =>
    have hk : key ≠ k := by
      rintro rfl
      exact not_settles_tail hlost.not_pending hi (.inl hwf.2.1)
    rw [s.redis.exec_set_of_ne value px hk,
      Redis.smembers_congr (s.redis.exec_set_of_ne value px (Ne.symm hwf.1))]
    exact ⟨hlost.present, hlost.not_mem⟩
  | sadd k member =>
    obtain ⟨rfl, -⟩ := hwf
    have hmember : key ≠ member := by
      rintro rfl
      exact hlost.not_pending ⟨i, _, hi, .inl List.mem_cons_self⟩
    rw [s.redis.exec_sadd_of_ne member hne, mem_smembers_sadd hs.isSet, not_or]
    exact ⟨hlost.present, hmember, hlost.not_mem⟩
  | del k =>
    have hk : key ≠ k := by
      rintro rfl
      exact hlost.not_pending ⟨i, _, hi, .inr List.mem_cons_self⟩
    rw [s.redis.exec_del_of_ne hk]
    refine ⟨hlost.present, ?_⟩
    by_cases hset : headCacheSetKey chainId = k
    · subst hset
      rw [Redis.smembers, Redis.exec_del_self]
      exact List.not_mem_nil
    · rw [Redis.smembers_congr (s.redis.exec_del_of_ne hset)]
      exact hlost.not_mem

/-- Nothing in progress and no later invalidation finds a lost key. -/
theorem lost_step {key : String} (hs : HeadInv chainId s) (hlost : s.Lost chainId key)
    (ha : a.Finishing) (h : headStep serde blake3 chainId s a = some t) :
    t.Lost chainId key := by
  have hne : key ≠ headCacheSetKey chainId := hs.stored_ne key hlost.stored
  cases a with
  | start i op =>
    simp only [headStep] at h
    split at h
    · cases h
      cases ha
      refine ⟨hlost.stored, hlost.present, hlost.not_mem, ?_⟩
      exact not_pendingFor_update hlost.not_pending nofun
    · exact absurd h nofun
  | expire key' => exact absurd ha not_false
  | step i =>
    simp only [headStep] at h
    split at h
    · cases h
      refine ⟨hlost.stored, hlost.present, hlost.not_mem, ?_⟩
      refine not_pendingFor_update hlost.not_pending fun cmds hcmds => ?_
      cases hcmds
      exact not_settles_deleteSetAndMembers hlost.not_mem hne
    · exact absurd h nofun
    · rename_i c cmds hi
      cases h
      have htail := not_settles_tail hlost.not_pending hi
      have hwf := hs.wellFormed i _ hi
      have hpending : ¬ PendingFor chainId (Function.update s.ops i (.pending cmds)) key :=
        not_pendingFor_update hlost.not_pending fun cmds' hcmds' => by
          cases hcmds'
          exact htail
      obtain ⟨hpresent, hnot_mem⟩ := lost_exec hs hlost hi
      exact ⟨List.mem_append_right _ hlost.stored, hpresent, hnot_mem, hpending⟩

/-- **A `DEL` of the set that is not covered is where tracking ends**: whatever is in progress
finishes in whatever order, and whatever invalidations follow, some stored entry stays present
without being a member of the set. -/
theorem lost_run {as : List HeadAction} {u : HeadState Text} (hs : HeadInv chainId s)
    (hcov : ¬ FinalDelCovered chainId s a) (h : headStep serde blake3 chainId s a = some t)
    (has : ∀ b ∈ as, b.Finishing) (hrun : run (headStep serde blake3 chainId) t as = some u) :
    ¬ u.Tracked chainId := by
  obtain ⟨key, hlost⟩ := lost_of_not_finalDelCovered serde blake3 hs hcov h
  have hboth : HeadInv chainId u ∧ u.Lost chainId key := by
    refine run_inv_along (I := fun u => HeadInv chainId u ∧ u.Lost chainId key)
      (C := fun _ b => b.Finishing) (fun s a t hI hC ht => ?_)
      ⟨headInv_step serde blake3 hs h, hlost⟩ (along_of_forall has) hrun
    exact ⟨headInv_step serde blake3 hI.1 ht, lost_step serde blake3 hI.1 hI.2 hC ht⟩
  exact fun htracked => hboth.2.not_mem (htracked key hboth.2.stored hboth.2.present)

end Poolbeg
