import Poolbeg.Scan

/-!
# API keys

The embedding of `middleware/auth.rs`. A client presents its key in the header `X-Api-Key` or, if
there is no such header, as the parameter `key` of the query. Nothing in the query is decoded.

The parameter is found by cutting: at every `&`, and then each part at its first `=`. What comes of
it is the rest of the first part that begins with `key=`. A part without `=` is no parameter, and
one that is named `key` but holds nothing presents the empty key.

## The header first

A header decides by itself: where there is one, the query is not looked at, so a wrong key in the
header is not made up for by a right one in the query. A header whose value is not visible ASCII is
as good as none, and then the query counts.

## Implementation notes

Keys and queries are lists of characters, which is what they are compared and cut as. The keys that
are configured are a list, in which the order does not matter.

## Main definitions

* `HttpRequest` — what the layers in front of the handlers look at
* `queryKey`, `HttpRequest.apiKey`, `authorized` — as in the code
* `QueryHasKey`, `HttpRequest.Presents` — what it is to present a key

## Main results

* `queryKey_eq_some_iff` — cutting finds the key that the query has
* `authorized_iff` — a request is let through exactly if it presents one of the keys
-/

namespace Poolbeg

open Scan

/-- The methods that the routes tell apart. All others are alike: no route has them. -/
inductive HttpMethod
  | get
  | head
  | post
  | options
  | other
  deriving DecidableEq

/-- What is looked at before a request reaches its handler. `xApiKey` is the value of the first
header of that name, if it is visible ASCII. -/
structure HttpRequest where
  method : HttpMethod
  path : String
  query : Option (List Char)
  xApiKey : Option (List Char)
  contentLength : Option ℕ
  body : List UInt8

/-- The parameter `key` of a query, found by cutting it up. -/
def queryKey (query : List Char) : Option (List Char) :=
  (((query.splitOn '&').filterMap (splitOnce ['='])).find? fun pair => pair.1 = ['k', 'e', 'y']).map
    Prod.snd

/-- The key a request presents, if it does: from the header, or else from the query. -/
def HttpRequest.apiKey (req : HttpRequest) : Option (List Char) :=
  req.xApiKey.or (req.query.bind queryKey)

/-- What `auth_middleware` decides about a request that is no health check. -/
def authorized (validKeys : List (List Char)) (req : HttpRequest) : Bool :=
  match req.apiKey with
  | some key => validKeys.contains key
  | none => false

/-! ### What it is to present a key -/

/-- The first part that begins with `key=` goes on with this. Nothing that comes behind it counts,
be it another key. -/
def QueryHasKey (query key : List Char) : Prop :=
  ∃ before after, query.splitOn '&' = before ++ (['k', 'e', 'y', '='] ++ key) :: after ∧
    ∀ part ∈ before, ¬ ['k', 'e', 'y', '='] <+: part

/-- A header counts, whatever the query says; and without one the query counts. -/
def HttpRequest.Presents (req : HttpRequest) (key : List Char) : Prop :=
  req.xApiKey = some key ∨
    req.xApiKey = none ∧ ∃ query, req.query = some query ∧ QueryHasKey query key

/-- A part is the parameter exactly if it begins with `key=`: the first `=` is the one behind the
name. -/
theorem splitOnce_key_iff {part key : List Char} :
    splitOnce ['='] part = some (['k', 'e', 'y'], key) ↔ part = ['k', 'e', 'y', '='] ++ key := by
  rw [splitOnce_eq_some_iff (List.cons_ne_nil _ _), List.dropLast_concat, List.singleton_infix_iff]
  exact and_iff_left (by decide)

theorem queryKey_eq_some_iff {query key : List Char} :
    queryKey query = some key ↔ QueryHasKey query key := by
  have hpart (part : List Char) : (splitOnce ['='] part).any (·.1 = ['k', 'e', 'y']) = true ↔
      ['k', 'e', 'y', '='] <+: part := by
    rw [Option.any_eq_true]
    constructor
    · rintro ⟨⟨name, value⟩, hsplit, hname⟩
      obtain rfl := of_decide_eq_true hname
      exact ⟨value, (splitOnce_key_iff.mp hsplit).symm⟩
    · rintro ⟨value, hvalue⟩
      exact ⟨_, splitOnce_key_iff.mpr hvalue.symm, decide_eq_true rfl⟩
  have hnone (before : List (List Char)) :
      (∀ part ∈ before, !((splitOnce ['='] part).any (·.1 = ['k', 'e', 'y']))) ↔
        ∀ part ∈ before, ¬ ['k', 'e', 'y', '='] <+: part :=
    forall₂_congr fun part _ => by rw [Bool.not_eq_true', ← Bool.not_eq_true, hpart]
  rw [queryKey, List.find?_filterMap, Option.map_eq_some_iff]
  simp only [Option.bind_eq_some_iff, List.find?_eq_some_iff_append, hnone]
  constructor
  · rintro ⟨⟨name, value⟩, ⟨part, ⟨hstarts, before, after, hparts, hbefore⟩, hsplit⟩, rfl⟩
    obtain ⟨value', rfl⟩ := (hpart part).mp hstarts
    cases hsplit.symm.trans (splitOnce_key_iff.mpr rfl)
    exact ⟨before, after, hparts, hbefore⟩
  · rintro ⟨before, after, hparts, hbefore⟩
    have hsplit : splitOnce ['='] (['k', 'e', 'y', '='] ++ key) = some (['k', 'e', 'y'], key) :=
      splitOnce_key_iff.mpr rfl
    exact ⟨_, ⟨_, ⟨(hpart _).mpr (List.prefix_append _ _), before, after, hparts, hbefore⟩,
      hsplit⟩, rfl⟩

/-- **A request is let through exactly if it presents one of the keys.** Without any keys, none is.
-/
theorem authorized_iff {validKeys : List (List Char)} {req : HttpRequest} :
    authorized validKeys req = true ↔ ∃ key ∈ validKeys, req.Presents key := by
  have hkey (key : List Char) : req.apiKey = some key ↔ req.Presents key := by
    rw [HttpRequest.apiKey, Option.or_eq_some_iff, Option.bind_eq_some_iff, HttpRequest.Presents]
    simp only [queryKey_eq_some_iff]
  rw [authorized]
  cases h : req.apiKey with
  | none => simp [← hkey, h]
  | some key => simp [← hkey, h]

end Poolbeg
