import Poolbeg.Cache.Redis

/-!
# Invalidations in which deletions fail

`delete_set_and_members` deletes every key it read from the set, and then the set. Each `DEL` may
fail, which changes nothing and is swallowed by the wrapper, so the ones after it are issued all the
same.

A key whose `DEL` failed is found by the next invalidation if the set still has it. It has not when
the last `DEL` went through, so nothing is lost just when no `DEL` of a stored key failed, or that
of the set did too (`keepsTrack_iff`).

## The commands that went through

The condition is on the commands that do not fail, by their places in the list: which ones fail is a
function on places and not on keys, for a set may name a key twice, and then one of the two is
enough. The key of the set may itself be a member, so that it is deleted among the members already.

Nothing comes in between here. What other operations do while an invalidation is at work is the
subject of `Poolbeg.Cache.HeadSet`, where no command fails.

## Main definitions

* `succeeding`, `RedisClient.invalidated` — an invalidation with a pattern of failures
* `KeepsTrack` — the next invalidation will find what this one has left

## Main results

* `keepsTrack_iff` — when it does, for every database and every pattern of failures
-/

namespace Poolbeg

variable {Text : Type}

/-- The commands that do not fail; `fails` is asked for their places. A failure is logged, and the
commands after it are sent all the same. -/
def succeeding (fails : ℕ → Bool) (commands : List (Command Text)) : List (Command Text) :=
  (commands.zipIdx.filter fun c => !fails c.2).map Prod.fst

/-- The commands of `RedisClient::delete_set_and_members` that do not fail, when its `SMEMBERS` has
read the set as it is. -/
def RedisClient.deleted (r : Redis Text) (setKey : String) (fails : ℕ → Bool) :
    List (Command Text) :=
  succeeding fails (RedisClient.deleteSetAndMembers setKey (r.smembers setKey))

/-- The database when `RedisClient::delete_set_and_members` returns. -/
def RedisClient.invalidated (r : Redis Text) (setKey : String) (fails : ℕ → Bool) : Redis Text :=
  (RedisClient.deleted r setKey fails).foldl Redis.exec r

/-- **What is left of the members is still in the set**, where the next invalidation looks for it. A
member that was never stored does not matter. -/
def KeepsTrack (setKey : String) (r r' : Redis Text) : Prop :=
  ∀ key ∈ r.smembers setKey, r' key ≠ none → key ∈ r'.smembers setKey

variable {r : Redis Text} {commands : List (Command Text)} {fails : ℕ → Bool} {setKey key : String}

theorem mem_of_mem_succeeding {c : Command Text} (h : c ∈ succeeding fails commands) :
    c ∈ commands := by
  obtain ⟨⟨c, i⟩, hmem, rfl⟩ := List.mem_map.mp h
  exact List.fst_mem_of_mem_zipIdx (List.mem_of_mem_filter hmem)

/-! ### Lists of deletions -/

/-- Nothing but deletions. -/
def AllDel (commands : List (Command Text)) : Prop := ∀ c ∈ commands, ∃ key, c = .del key

theorem allDel_deleted : AllDel (RedisClient.deleted r setKey fails) := by
  intro c hc
  have hmem := mem_of_mem_succeeding hc
  rw [RedisClient.deleteSetAndMembers] at hmem
  split at hmem
  · cases hmem
  · obtain hmem | hmem := List.mem_append.mp hmem
    · obtain ⟨key, -, rfl⟩ := List.mem_map.mp hmem
      exact ⟨key, rfl⟩
    · exact ⟨setKey, List.mem_singleton.mp hmem⟩

/-- What is not deleted stays. -/
theorem AllDel.foldl_of_not_mem (hdel : AllDel commands) (h : .del key ∉ commands) :
    commands.foldl Redis.exec r key = r key := by
  induction commands generalizing r with
  | nil => rfl
  | cons c commands ih =>
    obtain ⟨⟨k, rfl⟩, hrestDel⟩ := List.forall_mem_cons.mp hdel
    rw [List.mem_cons, not_or, Command.del.injEq] at h
    rw [List.foldl_cons, ih hrestDel h.2, Redis.exec_del_of_ne r h.1]

/-- What is deleted is gone. -/
theorem AllDel.foldl_of_mem (hdel : AllDel commands) (h : .del key ∈ commands) :
    commands.foldl Redis.exec r key = none := by
  induction commands generalizing r with
  | nil => cases h
  | cons c commands ih =>
    obtain ⟨⟨k, rfl⟩, hrestDel⟩ := List.forall_mem_cons.mp hdel
    rw [List.foldl_cons]
    by_cases hrest : .del key ∈ commands
    · exact ih hrestDel hrest
    · obtain heq | hmem := List.mem_cons.mp h
      · cases heq
        rw [AllDel.foldl_of_not_mem hrestDel hrest, Redis.exec_del_self]
      · exact absurd hmem hrest

/-! ### What an invalidation loses -/

/-- **The set keeps track of what is left exactly when every stored member was deleted or the set
was not.** The set is deleted last, whether or not its members were. -/
theorem keepsTrack_iff (r : Redis Text) (setKey : String) (fails : ℕ → Bool) :
    KeepsTrack setKey r (RedisClient.invalidated r setKey fails) ↔
      (∀ key ∈ r.smembers setKey, r key ≠ none →
        .del key ∈ RedisClient.deleted r setKey fails) ∨
        .del setKey ∉ RedisClient.deleted r setKey fails := by
  have hdel : AllDel (RedisClient.deleted r setKey fails) := allDel_deleted
  rw [KeepsTrack, RedisClient.invalidated]
  by_cases hset : .del setKey ∈ RedisClient.deleted r setKey fails
  · have hgone := hdel.foldl_of_mem (r := r) hset
    rw [or_iff_left (not_not.mpr hset)]
    constructor
    · intro hkeeps key hmem hstored
      by_contra hnot
      have hleft := hdel.foldl_of_not_mem (r := r) hnot
      have hmember := hkeeps key hmem (hleft ▸ hstored)
      rw [Redis.smembers, hgone] at hmember
      cases hmember
    · intro hall key hmem hleft
      by_cases hstored : r key = none
      · refine absurd ?_ hleft
        by_cases hkey : .del key ∈ RedisClient.deleted r setKey fails
        · exact hdel.foldl_of_mem hkey
        · rw [hdel.foldl_of_not_mem hkey, hstored]
      · exact absurd (hdel.foldl_of_mem (hall key hmem hstored)) hleft
  · refine iff_of_true (fun key hmem _ => ?_) (.inr hset)
    rw [Redis.smembers_congr (hdel.foldl_of_not_mem hset)]
    exact hmem

/-- The logs of one block, and the set that has their key. -/
def trackedLogs : Redis String
  | "poolbeg:1:head_cache" => some (.set ["poolbeg:1:logs:10"])
  | "poolbeg:1:logs:10" => some (.str "[]")
  | _ => none

/-- The first of the two deletions fails. -/
theorem failedDel_loses :
    ¬ KeepsTrack "poolbeg:1:head_cache" trackedLogs
      (RedisClient.invalidated trackedLogs "poolbeg:1:head_cache" fun i => i == 0) := by
  intro h
  cases h "poolbeg:1:logs:10" (List.mem_singleton_self _) (fun hnone => by cases hnone)

end Poolbeg
