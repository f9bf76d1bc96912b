import Tephra.Conn.State
import Tephra.Number

/-!
# Connection options

`ClientOptions` and `resolveConfig` of `options.ts`.  A number that cannot be used is replaced by
the default, and any other is rounded down; nothing bounds it from above.

* `resolveConfig_pos` : whatever the options are, the limits of a connection are positive.
-/

namespace Tephra

/-- `DEFAULT_MAX_FRAME_LEN`. -/
def defaultMaxFrameLen : ℕ := 16 * 1024 * 1024

/-- `DEFAULT_BULK_CONNECTIONS`. -/
def defaultBulkConnections : ℕ := 4

/-- `DEFAULT_MAX_INFLIGHT_REQUESTS`. -/
def defaultMaxInflightRequests : ℕ := 1024

/-- `DEFAULT_REQUEST_QUEUE_DEPTH`. -/
def defaultRequestQueueDepth : ℕ := 256

/-- `TlsOptions`, as far as they are read. -/
structure TlsOptions where
  servername : Option JsString
  deriving DecidableEq, Repr

/-- The option `tls`. -/
inductive TlsSetting
  | enabled (value : Bool)
  | options (options : TlsOptions)
  deriving DecidableEq, Repr

/-- `ClientOptions`. -/
structure ClientOptions where
  bulkConnections : Option JsNumber
  maxInflightRequests : Option JsNumber
  requestQueueDepth : Option JsNumber
  maxFrameLen : Option JsNumber
  tls : Option TlsSetting
  authToken : Option JsString
  connectTimeout : Option JsNumber
  deriving DecidableEq, Repr

/-- `ResolvedConfig`. -/
structure ResolvedConfig extends Config where
  bulkConnections : ℕ
  tls : Option TlsOptions
  connectTimeout : Option JsNumber
  deriving DecidableEq, Repr

/-- The number rounded down, or a fallback for one that is left out, not finite or below `least`. -/
def floorOr (least : ℚ) (value : Option JsNumber) (fallback : ℕ) : ℕ :=
  match value with
  | some (.finite value) => if value < least then fallback else ⌊value⌋.toNat
  | _ => fallback

/-- `positiveOr`. -/
def positiveOr (value : Option JsNumber) (fallback : ℕ) : ℕ := floorOr 1 value fallback

/-- `resolveConfig`. -/
def resolveConfig (options : ClientOptions) : ResolvedConfig where
  bulkConnections := floorOr 0 options.bulkConnections defaultBulkConnections
  maxInflightRequests := positiveOr options.maxInflightRequests defaultMaxInflightRequests
  requestQueueDepth := positiveOr options.requestQueueDepth defaultRequestQueueDepth
  maxFrameLen := positiveOr options.maxFrameLen defaultMaxFrameLen
  tls :=
    match options.tls with
    | none | some (.enabled false) => none
    | some (.enabled true) => some { servername := none }
    | some (.options options) => some options
  authToken := options.authToken
  connectTimeout := options.connectTimeout

theorem positiveOr_pos (value : Option JsNumber) {fallback : ℕ} (h : 0 < fallback) :
    0 < positiveOr value fallback := by
  unfold positiveOr floorOr
  split
  · rename_i value
    split_ifs with hlt
    · exact h
    · have hfloor : 1 ≤ ⌊value⌋ := Int.le_floor.2 (by exact_mod_cast not_lt.1 hlt)
      omega
  · exact h

/-- Whatever the options are, the limits of a connection are positive. -/
theorem resolveConfig_pos (options : ClientOptions) :
    0 < (resolveConfig options).maxInflightRequests ∧
      0 < (resolveConfig options).requestQueueDepth ∧ 0 < (resolveConfig options).maxFrameLen :=
  ⟨positiveOr_pos _ (by decide), positiveOr_pos _ (by decide), positiveOr_pos _ (by decide)⟩

end Tephra
