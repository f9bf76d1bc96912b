import Tephra.Platform

/-!
# Errors

The error classes of `errors.ts` together with the native errors the program lets through, the
mapping of wire error codes, and `asError`, which turns whatever was thrown or given as an abort
reason into an `Error`.
-/

namespace Tephra

/-- `ErrorCode`: the server's error codes as the client reports them. -/
inductive ErrorCode
  | unknown | conflict | alreadyExists | afterBeyondTip | empty | tooLarge | badRequest | internal
  | shutdown | unauthenticated
  deriving DecidableEq, Repr

/-- `errorCodeFromWire`: the table `WIRE_ERROR_CODES`, with `unknown` for any other code. -/
def errorCodeFromWire (code : ℤ) : ErrorCode :=
  match code with
  | 1 => .conflict
  | 2 => .afterBeyondTip
  | 3 => .empty
  | 4 => .tooLarge
  | 5 => .badRequest
  | 6 => .internal
  | 7 => .shutdown
  | 8 => .unauthenticated
  | 9 => .alreadyExists
  | _ => .unknown

/-- An `Error` object, by its class and the arguments it was built from. -/
inductive Err
  /-- `ValidationError`. -/
  | validation (message : JsString)
  /-- `ServerError`. -/
  | server (code : ErrorCode) (message : JsString) (retryable : Bool)
      (conflictPosition : Option ℤ)
  /-- `ProtocolError`. -/
  | protocol (message : String)
  /-- `FrameTooLargeError`. -/
  | frameTooLarge (length max : ℕ)
  /-- `ConnError` without a cause. -/
  | conn (reason : String)
  /-- `ConnError` with a cause. -/
  | connCause (reason : String) (cause : Err)
  /-- `ClosedError`. -/
  | closed
  /-- `RangeError`. -/
  | range (message : String)
  /-- Any other error of the platform or of the caller. -/
  | native (name : String) (message : JsString)
  deriving DecidableEq, Repr

/-- What was thrown, or given as the reason of an abort. -/
inductive Reason
  | undefined
  | error (e : Err)
  /-- Any other value, by its string form. -/
  | value (text : JsString)
  deriving DecidableEq, Repr

/-- `asError`. -/
def asError (reason : Reason) (fallback : String) : Err :=
  match reason with
  | .error e => e
  | .undefined => .native "AbortError" (js fallback)
  | .value text => .native "Error" text

/-! ### Computations that may throw -/

section

universe u v

variable {ε : Type u} {α β : Type v}

theorem bind_eq_ok {x : Except ε α} {f : α → Except ε β} {b : β} :
    (x >>= f) = .ok b ↔ ∃ a, x = .ok a ∧ f a = .ok b := by
  cases x with
  | error e =>
    constructor
    · intro h; cases h
    · rintro ⟨_, h, _⟩; cases h
  | ok a =>
    refine ⟨fun h => ⟨a, rfl, h⟩, ?_⟩
    rintro ⟨_, h, h'⟩
    cases h
    exact h'

theorem eq_ok_of_toOption {x : Except ε α} {a : α} (h : x.toOption = some a) : x = .ok a := by
  cases x with
  | error e => cases h
  | ok b => cases h; rfl

@[simp] theorem ok_bind (a : α) (f : α → Except ε β) : (Except.ok a >>= f) = f a := rfl

@[simp] theorem error_bind (e : ε) (f : α → Except ε β) : (Except.error e >>= f) = .error e := rfl

@[simp] theorem pure_eq_ok (a : α) : (pure a : Except ε α) = .ok a := rfl

@[simp] theorem throw_eq_error (e : ε) : (throw e : Except ε α) = .error e := rfl

end

@[simp] theorem asError_error (e : Err) (fallback : String) : asError (.error e) fallback = e := rfl

end Tephra
