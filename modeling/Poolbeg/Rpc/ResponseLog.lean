import Poolbeg.Rpc.Truncate
import Poolbeg.Rpc.Types

/-!
# Logging a response

Two switches of the configuration make the proxy log what it is answered and what it answers. With
`debug_client`, `handle_rpc`, `process_batch` and the WebSocket handler log each response they are
about to return; with `debug_upstream`, `forward_request` logs each response it gets before it
returns it. All four do the same: the message of an error is shown, and a result is cut to 512 bytes
by `truncate_json`.

So they all panic on the same responses, those without an error whose result has a character of
several bytes across the 512th byte of its text. The panic unwinds the task that logs. What it was
about to return is lost, and so is whatever it would have done next: a caller of `forward_request`
gets neither a response nor an error, and an item of a batch takes the whole batch with it.

## Implementation notes

What is written to the log is seen by nobody, so the only thing a response's logging contributes to
a model is whether it panics. `DebugLog.survives` is that one bit, computed by the definitions of
the source. The branches that use it say what their panic does; this module does not know.

The texts of doubles are a parameter of the log, as they are wherever a value is written. They are
of one byte a character, whichever they are, so they move a limit but never straddle it.

## Main definitions

* `logResponse` — what is shown, or the panic
* `DebugLog`, `DebugLog.survives` — a switch, and whether logging under it goes well
* `JsonRpcResponse.Straddles` — the responses that cannot be logged

## Main results

* `isSome_logResponse_iff`, `DebugLog.survives_iff` — which responses those are
* `DebugLog.survives_ofError` — the proxy's own errors can always be logged
-/

namespace Poolbeg

open Boundary

/-- The bytes of a result that are shown. -/
def shownBytes : ℕ := 512

/-- `log_client_response`, which `forward_request` and the WebSocket handler repeat: what is shown
of a response. `none` is the panic of `truncate_json`. -/
def logResponse (f : FloatText) (resp : JsonRpcResponse) : Option String :=
  match resp.error with
  | some err => some err.message
  | none => resp.result.elim (some "null") fun r => truncateJson f r shownBytes

/-- A switch for logging, `debug_client` or `debug_upstream`, with the texts of the doubles in what
is shown. -/
structure DebugLog where
  enabled : Bool
  floats : FloatText

/-- A switch that is off. -/
def DebugLog.off : DebugLog := ⟨false, pointedBits⟩

/-- The response is not logged, or logging it does not panic. What is logged has no other effect. -/
def DebugLog.survives (log : DebugLog) (resp : JsonRpcResponse) : Bool :=
  !log.enabled || (logResponse log.floats resp).isSome

/-- A response that cannot be logged: it has no error, and in the text of its result a character
lies across the limit. -/
def JsonRpcResponse.Straddles (f : FloatText) (resp : JsonRpcResponse) : Prop :=
  resp.error = none ∧
    ∃ r, resp.result = some r ∧ Boundary.Straddles Char.utf8Size (r.print f) shownBytes

section Log

variable {f : FloatText} {log : DebugLog} {resp : JsonRpcResponse}

/-- Logging panics on the responses that straddle the limit, and on no others. A response without a
result and without an error is shown as `null`. -/
theorem isSome_logResponse_iff : (logResponse f resp).isSome ↔ ¬ resp.Straddles f := by
  rw [logResponse, JsonRpcResponse.Straddles]
  cases resp.error with
  | some err => simp
  | none =>
    cases resp.result with
    | none => simp
    | some r => simp [isSome_truncateJson_iff]

/-- **A response survives its logging** if the switch is off or the response does not straddle the
limit. -/
theorem DebugLog.survives_iff :
    log.survives resp = true ↔ (log.enabled = true → ¬ resp.Straddles log.floats) := by
  rw [survives, Bool.or_eq_true, isSome_logResponse_iff, Bool.not_eq_true', ← Bool.not_eq_true,
    ← imp_iff_not_or]

@[simp] theorem DebugLog.survives_off (resp : JsonRpcResponse) : off.survives resp = true := rfl

/-- Nothing is logged, so nothing panics. -/
theorem DebugLog.survives_of_off (hoff : log.enabled = false) (resp : JsonRpcResponse) :
    log.survives resp = true := by
  rw [survives, hoff]
  rfl

/-- Of an error only the message is shown, and it is not cut. -/
@[simp] theorem DebugLog.survives_ofError (log : DebugLog) (id : Value) (code : I64)
    (message : String) : log.survives (.ofError id code message) = true :=
  survives_iff.mpr fun _ h => Option.some_ne_none _ h.1

/-- The id is shown too, but it is not cut. -/
@[simp] theorem DebugLog.survives_withId (log : DebugLog) (resp : JsonRpcResponse) (id : Value) :
    log.survives (resp.withId id) = log.survives resp := rfl

end Log

/-- `accentedResult` as a response. -/
def accentedResponse : JsonRpcResponse := .success (.ofU64 1) accentedResult

/-- It cannot be logged. -/
theorem survives_accentedResponse (f : FloatText) :
    (⟨true, f⟩ : DebugLog).survives accentedResponse = false := by
  rw [← Bool.not_eq_true, DebugLog.survives_iff]
  exact fun h => h rfl ⟨rfl, _, rfl, straddles_accentedResult f⟩

end Poolbeg
