import DeerFlow.Data.Machine
import DeerFlow.PyText
import Mathlib.Data.Int.Notation
import Mathlib.Data.List.Infix

/-!
# Model calls behind the circuit breaker

`LLMErrorHandlingMiddleware` retries a model call and opens a breaker after a number of failures in
a row; after the recovery timeout one call is let through as a probe. Calls run at the same time and
use the breaker in sections under one lock.
-/

namespace DeerFlow

inductive CircuitState where
  | closed
  | «open»
  | halfOpen
  deriving DecidableEq

structure CircuitBreakerConfig where
  failureThreshold : ℤ := 5
  recoveryTimeoutSec : ℤ := 60

/-- What `_extract_retry_after_ms` makes of the headers of an error; `overflow` is the
`OverflowError` of `int` for a value such as `inf`. -/
inductive RetryAfter where
  | absent
  | ms (n : ℕ)
  | overflow
  deriving DecidableEq

/-- An exception of a model provider, with what `_extract_error_code` and `_extract_status_code`
find. -/
structure ProviderError where
  className : String
  text : String := ""
  message : Option String := none
  errorCode : Option String := none
  statusCode : Option ℤ := none
  retryAfter : RetryAfter := .absent
  deriving DecidableEq

def busyPatterns : List String :=
  ["server busy", "temporarily unavailable", "try again later", "please retry", "please try again",
    "overloaded", "high demand", "rate limit", "负载较高", "服务繁忙", "稍后重试", "请稍后重试"]

def quotaPatterns : List String :=
  ["insufficient_quota", "quota", "billing", "credit", "payment", "余额不足", "超出限额", "额度不足",
    "欠费"]

def authPatterns : List String :=
  ["authentication", "unauthorized", "invalid api key", "invalid_api_key", "permission",
    "forbidden", "access denied", "无权", "未授权"]

def retriableStatusCodes : List ℤ := [408, 409, 425, 429, 500, 502, 503, 504]

def transientClasses : List String :=
  ["APITimeoutError", "APIConnectionError", "InternalServerError", "ReadError",
    "RemoteProtocolError", "StreamChunkTimeoutError"]

inductive ErrorReason where
  | quota
  | auth
  | transient
  | busy
  | generic

def matchesAny (detail : String) (patterns : List String) : Bool :=
  patterns.any fun p => decide (p.toList <:+: detail.toList)

namespace ProviderError

variable (e : ProviderError)

/-- `_extract_error_detail`. -/
def detail : String :=
  if stripText e.text ≠ "" then stripText e.text
  else if stripText (e.message.getD "") ≠ "" then stripText (e.message.getD "")
  else e.className

/-- `_classify_error`: whether the call may be tried again, and why it failed. `lower` is
`str.lower`. -/
def classify (lower : String → String) : Bool × ErrorReason :=
  let lowered := lower e.detail
  if matchesAny lowered quotaPatterns
      || matchesAny (lower (e.errorCode.getD "None")) quotaPatterns then (false, .quota)
  else if matchesAny lowered authPatterns then (false, .auth)
  else if e.className ∈ transientClasses then (true, .transient)
  else if e.statusCode.any (· ∈ retriableStatusCodes) then (true, .transient)
  else if matchesAny lowered busyPatterns then (true, .busy)
  else (false, .generic)

def retriable (lower : String → String) : Bool := (e.classify lower).1

/-- `_build_retry_delay_ms`, `none` where it raises. -/
def buildRetryDelayMs (attempt : ℕ) : Option ℕ :=
  match e.retryAfter with
  | .absent => some (min (1000 * Nat.pow 2 (attempt - 1)) 8000)
  | .ms n => some n
  | .overflow => none

end ProviderError

def retryMaxAttempts : ℕ := 3

/-- `_max_attempts_for`. -/
def ProviderError.maxAttempts (e : ProviderError) : ℕ :=
  if e.className = "StreamChunkTimeoutError" then min 2 retryMaxAttempts else retryMaxAttempts

structure Circuit where
  failureCount : ℤ := 0
  openUntil : ℤ := 0
  state : CircuitState := .closed
  probeInFlight : Bool := false
  deriving DecidableEq

namespace Circuit

variable (config : CircuitBreakerConfig) (c : Circuit)

/-- `_check_circuit`: whether the call fails at once. -/
def check (now : ℤ) : Bool × Circuit :=
  if c.state = .open ∧ now < c.openUntil then (true, c)
  else
    let c := if c.state = .open then { c with state := .halfOpen, probeInFlight := false } else c
    if c.state = .halfOpen then
      if c.probeInFlight then (true, c) else (false, { c with probeInFlight := true })
    else (false, c)

/-- The breaker `_record_success` leaves, whatever it was. -/
def recordSuccess : Circuit :=
  { failureCount := 0, openUntil := 0, state := .closed, probeInFlight := false }

def recordFailure (now : ℤ) : Circuit :=
  if c.state = .halfOpen then
    { c with
      openUntil := now + config.recoveryTimeoutSec, state := .open, probeInFlight := false }
  else if config.failureThreshold ≤ c.failureCount + 1 then
    { failureCount := c.failureCount + 1
      openUntil := now + config.recoveryTimeoutSec
      state := .open
      probeInFlight := if c.state = .open then c.probeInFlight else false }
  else { c with failureCount := c.failureCount + 1 }

/-- The handler for `GraphBubbleUp`. -/
def bubbleUp : Circuit :=
  if c.state = .halfOpen then { c with probeInFlight := false } else c

end Circuit

/-- How an attempt ends; `cancelled` is an exception that is no `Exception`. -/
inductive HandlerOutcome where
  | success
  | error (e : ProviderError)
  | bubbleUp
  | cancelled
  deriving DecidableEq

/-- Where a call is; `probe` says that it was admitted half-open. -/
inductive ModelCall where
  | attempting (attempt : ℕ) (probe : Bool)
  | sleeping (attempt : ℕ) (probe : Bool)
  | done
  deriving DecidableEq

structure Middleware where
  circuit : Circuit := {}
  calls : List ModelCall := []
  deriving DecidableEq

inductive MiddlewareAct where
  | call (now : ℤ)
  | attempt (i : ℕ) (outcome : HandlerOutcome) (now : ℤ)
  | wake (i : ℕ)
  /-- The sleep of the call is cancelled, or raises. -/
  | cancel (i : ℕ)

namespace Middleware

variable (lower : String → String) (config : CircuitBreakerConfig) (s : Middleware)

def call (now : ℤ) : Middleware :=
  let (rejected, circuit) := s.circuit.check now
  { circuit
    calls := s.calls ++
      [if rejected then .done else .attempting 1 (decide (circuit.state = .halfOpen))] }

def setCall (i : ℕ) (x : ModelCall) : Middleware := { s with calls := s.calls.set i x }

/-- The call is over and the breaker is `circuit`. -/
def finish (i : ℕ) (circuit : Circuit) : Middleware := { circuit, calls := s.calls.set i .done }

def attempt (i n : ℕ) (probe : Bool) (now : ℤ) : HandlerOutcome → Middleware
  | .success => s.finish i .recordSuccess
  | .bubbleUp => s.finish i s.circuit.bubbleUp
  | .cancelled => s.finish i s.circuit
  | .error e =>
    if e.retriable lower && n < e.maxAttempts then
      -- What is raised for the delay leaves the handler.
      if (e.buildRetryDelayMs n).isSome then s.setCall i (.sleeping n probe)
      else s.finish i s.circuit
    else s.finish i (if e.retriable lower then s.circuit.recordFailure config now else s.circuit)

end Middleware

/-- The calls of a middleware, one lock section, attempt or sleep at a time. -/
def middleware (lower : String → String) (config : CircuitBreakerConfig) :
    Machine Middleware MiddlewareAct where
  step s
    | .call now => some (s.call now)
    | .attempt i outcome now =>
      match s.calls[i]? with
      | some (.attempting n probe) => some (s.attempt lower config i n probe now outcome)
      | _ => none
    | .wake i =>
      match s.calls[i]? with
      | some (.sleeping n probe) => some (s.setCall i (.attempting (n + 1) probe))
      | _ => none
    | .cancel i =>
      match s.calls[i]? with
      | some (.sleeping _ _) => some (s.setCall i .done)
      | _ => none

end DeerFlow
