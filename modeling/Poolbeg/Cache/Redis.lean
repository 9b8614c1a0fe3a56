import Mathlib.Data.List.Basic
import Mathlib.Data.Int.Notation
import Mathlib.Tactic.NormNum

/-!
# The Redis commands the cache issues

`cache/redis.rs` wraps six commands. A Redis database is a map from keys to entries, an entry being
a string (here: a text) or a set, and each command is atomic. The operations of the cache are lists
of commands in the order in which they are issued, so an interleaving of operations is an
interleaving of these lists. Expiry and eviction are not commands of the program; the systems that
need them have steps of their own, and a command only records the expiry it asks for.

A command on an entry of the wrong kind fails and changes nothing, and the wrapper swallows the
error: `smembers` reads as empty and `sadd` does nothing.

## Implementation notes

A set is the list of its members without repetitions, in the order in which they were added. Redis
promises no order, and nothing here depends on one. The program never removes a single member, so
there is no command for it.

`PX` is an `i64` for the client library, and the wrapper casts the milliseconds of a `Duration` to
one. The cast is modelled; what a negative expiry means is left to Redis.

## Main definitions

* `Entry`, `Redis`, `Redis.get`, `Redis.smembers` — the database and what is read of it
* `Command`, `Redis.exec` — what changes it
* `RedisClient.set`, `RedisClient.deleteSetAndMembers` — what the wrapper makes of its arguments

## Main results

* `Redis.exec_of_ne` — a command changes one key
* `Redis.get_exec` — where the text under a key comes from
-/

namespace Poolbeg

variable {Text : Type}

/-- A Redis value: a string or a set. The members of a set are a list, to which `SADD` adds nothing
twice. -/
inductive Entry (Text : Type)
  | str (value : Text)
  | set (members : List String)

/-- A database: what stands under a key, if anything does. -/
abbrev Redis (Text : Type) : Type := String → Option (Entry Text)

namespace Redis

/-- `GET`. On a set it fails, and the caller takes a failure for a miss. -/
def get (r : Redis Text) (key : String) : Option Text :=
  match r key with
  | some (.str value) => some value
  | _ => none

/-- `SMEMBERS`. A set that is not there is empty. -/
def smembers (r : Redis Text) (key : String) : List String :=
  match r key with
  | some (.set members) => members
  | _ => []

end Redis

/-- A command that changes the database. `set` carries the `PX` option, in milliseconds, as it is
sent: it may be negative. -/
inductive Command (Text : Type)
  | set (key : String) (value : Text) (px : Option ℤ)
  | sadd (key : String) (member : String)
  | del (key : String)

/-- The effect of `SADD` on an entry: the set is made if there is none, and a string is left alone.
-/
def Entry.add (member : String) : Option (Entry Text) → Option (Entry Text)
  | none => some (.set [member])
  | some (.set members) => some (.set (if member ∈ members then members else members ++ [member]))
  | some (.str value) => some (.str value)

/-- The effect of a command. The expiry plays no part here; what it does is said where time passes.
-/
def Redis.exec (r : Redis Text) : Command Text → Redis Text
  | .set key value _ => Function.update r key (some (.str value))
  | .sadd key member => Function.update r key (Entry.add member (r key))
  | .del key => Function.update r key none

/-- The keys whose entry a command may change. -/
def Command.key : Command Text → String
  | .set key _ _ => key
  | .sadd key _ => key
  | .del key => key

/-- A command changes no other key. The three that follow are this for each command. -/
theorem Redis.exec_of_ne (r : Redis Text) (c : Command Text) {key : String} (h : key ≠ c.key) :
    r.exec c key = r key := by
  cases c <;> exact Function.update_of_ne h _ _

theorem Redis.exec_set_of_ne (r : Redis Text) (value : Text) (px : Option ℤ) {k key : String}
    (h : key ≠ k) : r.exec (.set k value px) key = r key :=
  Function.update_of_ne h _ _

theorem Redis.exec_sadd_of_ne (r : Redis Text) (member : String) {k key : String} (h : key ≠ k) :
    r.exec (.sadd k member) key = r key :=
  Function.update_of_ne h _ _

theorem Redis.exec_del_of_ne (r : Redis Text) {k key : String} (h : key ≠ k) :
    r.exec (.del k) key = r key :=
  Function.update_of_ne h _ _

/-- What is read of a set depends on its key alone. -/
theorem Redis.smembers_congr {r r' : Redis Text} {setKey : String} (h : r' setKey = r setKey) :
    r'.smembers setKey = r.smembers setKey := by
  rw [Redis.smembers, Redis.smembers, h]

/-- What is read of a text depends on its key alone. -/
theorem Redis.get_congr {r r' : Redis Text} {key : String} (h : r' key = r key) :
    r'.get key = r.get key := by
  rw [Redis.get, Redis.get, h]

/-- What stands under a key after a command was there or is what the command sets. Nothing else puts
a text into the database. -/
theorem Redis.get_exec {r : Redis Text} {c : Command Text} {key : String} {text : Text}
    (h : (r.exec c).get key = some text) :
    r.get key = some text ∨ ∃ px, c = .set key text px := by
  by_cases hkey : key = c.key
  · subst hkey
    cases c with
    | set key value px =>
      rw [Redis.get, Redis.exec, Command.key, Function.update_self, Option.some.injEq] at h
      exact .inr ⟨px, h ▸ rfl⟩
    | sadd key member =>
      rw [Redis.get, Redis.exec, Command.key, Function.update_self] at h
      refine .inl ?_
      rw [Redis.get, Command.key]
      cases hentry : r key with
      | none =>
        rw [hentry] at h
        cases h
      | some entry =>
        rw [hentry] at h
        cases entry with
        | str value => exact h
        | set members => cases h
    | del key =>
      rw [Redis.get, Redis.exec, Command.key, Function.update_self] at h
      cases h
  · rw [Redis.get_congr (r.exec_of_ne c hkey)] at h
    exact .inl h

@[simp] theorem Redis.exec_sadd_self (r : Redis Text) (key member : String) :
    r.exec (.sadd key member) key = Entry.add member (r key) :=
  Function.update_self _ _ _

/-- Nothing stands under a key that was deleted. -/
@[simp] theorem Redis.exec_del_self (r : Redis Text) (key : String) :
    r.exec (.del key) key = none :=
  Function.update_self _ _ _

/-- A `u128` of milliseconds cast to `i64`, which keeps the lowest 64 bits. -/
def asI64 (ms : ℕ) : ℤ := Int.bmod ms (2 ^ 64)

namespace RedisClient

/-- `RedisClient::set`: a zero `ttl` (in milliseconds) sets without expiry, whatever it was zero
for. -/
def set (key : String) (value : Text) (ttl : ℕ) : Command Text :=
  if ttl = 0 then .set key value none else .set key value (some (asI64 ttl))

theorem set_key (key : String) (value : Text) (ttl : ℕ) : (set key value ttl).key = key := by
  unfold set
  split <;> rfl

/-- The rest of `RedisClient::delete_set_and_members` once `SMEMBERS` has answered: the members one
by one, and the set last. Other commands may come in between. -/
def deleteSetAndMembers (setKey : String) (members : List String) : List (Command Text) :=
  if members = [] then [] else members.map .del ++ [.del setKey]

end RedisClient

end Poolbeg
