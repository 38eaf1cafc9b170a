import FerroHttp.Http.Date
import FerroHttp.Http.Request
import FerroHttp.Http.Response

/-!
# Conn — the per-connection state machine

A `Connection` accumulates received bytes (`feed`) and handles one buffered request
at a time (`step`): parse, dispatch to the service, serialize. The service is
arbitrary; what it keeps behind its shared reference is passed as state.
-/

namespace FerroHttp

open Exec Text

/-! ## Services -/

/-- Per-request connection metadata. -/
structure RequestContext where
  peer : Bytes
  nowUnixSecs : Nat
deriving DecidableEq, Repr

/-- Turns a parsed request into a response; `σ` is the service's own state. -/
structure Service (σ : Type) where
  handle : σ → Request → RequestContext → Response × σ

/-! ## Steps -/

/-- The result of advancing a connection by one step. -/
inductive Step where
  | needMore
  | write (bytes : Bytes) (close : Bool)
deriving DecidableEq, Repr

/-- Response-finalization policy of a connection. -/
structure ResponsePolicy where
  securityHeaders : Bool
  hasClock : Bool
deriving DecidableEq, Repr

/-- A standard set of security headers. -/
def applySecurityHeaders (response : Response) : Response :=
  ((response.withHeader "X-Content-Type-Options" "nosniff").withHeader
    "X-Frame-Options" "SAMEORIGIN").withHeader
    "Referrer-Policy" "strict-origin-when-cross-origin"

/-- Add the protocol-level `Connection` and `Date` fields, and the security headers
when the policy enables them. -/
def finalize (response : Response) (nowUnixSecs : Nat) (keepAlive : Bool)
    (policy : ResponsePolicy) : Response :=
  let connection := if keepAlive then "keep-alive" else "close"
  let response := response.withHeader "Connection" connection
  -- a clockless origin server must not emit Date
  let response :=
    if policy.hasClock then response.withHeader "Date" (httpDate nowUnixSecs) else response
  if policy.securityHeaders then applySecurityHeaders response else response

/-- The status reported to the client for a parse error. -/
def errorStatus : ParseError → StatusCode
  | .unsupportedVersion => ⟨505⟩
  | .unknownMethod => ⟨501⟩
  | .unsupportedTransferEncoding => ⟨501⟩
  | .bodyTooLarge => ⟨413⟩
  | .targetTooLong => ⟨414⟩
  | .headTooLarge => ⟨431⟩
  | .tooManyHeaders => ⟨431⟩
  | _ => ⟨400⟩

/-- A client connection accumulating bytes until a request is complete. -/
structure Connection where
  buf : Bytes
  policy : ResponsePolicy
  maxBody : Nat
  peer : Bytes
  /-- An interim 100 has been sent for the request in flight. -/
  continueSent : Bool
deriving DecidableEq, Repr

/-- What a dispatching step handed to the service, what it got back, and the bytes
it dropped from the buffer. -/
structure Handled where
  request : Request
  response : Response
  consumed : Bytes
deriving DecidableEq, Repr

/-- One step: the connection and the service after it, what the caller is told, and
for the record the request that was dispatched, if any. -/
structure StepResult (σ : Type) where
  conn : Connection
  service : σ
  step : Step
  handled : Option Handled

namespace Connection

/-- An empty connection with the default policy and body limit. -/
def new : Connection := ⟨[], ⟨false, true⟩, maxBodyBytes, List.replicate 16 0, false⟩

/-- An empty connection with a given configuration. -/
def create (policy : ResponsePolicy) (maxBody : Nat) (peer : Bytes) : Connection :=
  ⟨[], policy, maxBody, peer, false⟩

/-- Declare whether the server has a real clock. -/
def clock (c : Connection) (hasClock : Bool) : Connection :=
  { c with policy := { c.policy with hasClock := hasClock } }

/-- Append newly received bytes. -/
def feed (c : Connection) (data : Bytes) : Connection := { c with buf := c.buf ++ data }

@[simp] theorem feed_buf (c : Connection) (data : Bytes) : (c.feed data).buf = c.buf ++ data := rfl

@[simp] theorem feed_nil (c : Connection) : c.feed [] = c := by
  rw [feed, List.append_nil]

@[simp] theorem feed_maxBody (c : Connection) (data : Bytes) :
    (c.feed data).maxBody = c.maxBody := rfl

@[simp] theorem feed_policy (c : Connection) (data : Bytes) : (c.feed data).policy = c.policy := rfl

variable {σ : Type}

/-- The step of a connection whose buffer holds a request that is not complete. -/
def stepPartial (c : Connection) (s : σ) (nowUnixSecs : Nat) : StepResult σ :=
  match expectAction c.buf with
  | .continue =>
    if c.continueSent then ⟨c, s, .needMore, none⟩
    else
      ⟨{ c with continueSent := true }, s,
        .write ((Response.new ⟨100⟩).serialize false) false, none⟩
  | .unsupported =>
    let response := finalize (Response.text ⟨417⟩ "417 Expectation Failed") nowUnixSecs false c.policy
    ⟨c, s, .write (response.serialize false) true, none⟩
  | .none => ⟨c, s, .needMore, none⟩

/-- The step that dispatches `request`, which takes `consumed` bytes of the buffer. -/
def stepComplete (c : Connection) (svc : Service σ) (s : σ) (nowUnixSecs : Nat)
    (request : Request) (consumed : Nat) : StepResult σ :=
  let keepAlive := request.keepAlive
  let headOnly := request.method.isHead
  let (handled, s') := svc.handle s request ⟨c.peer, nowUnixSecs⟩
  let response := finalize handled nowUnixSecs keepAlive c.policy
  ⟨{ c with buf := c.buf.drop consumed, continueSent := false }, s',
    .write (response.serialize headOnly) (!keepAlive),
    some ⟨request, handled, c.buf.take consumed⟩⟩

/-- The step that reports a parse error; the stream cannot be resynchronized. -/
def stepError (c : Connection) (s : σ) (nowUnixSecs : Nat) (err : ParseError) : StepResult σ :=
  let status := errorStatus err
  let response := finalize (Response.text status status.reason) nowUnixSecs false c.policy
  ⟨c, s, .write (response.serialize false) true, none⟩

/-- Attempt to handle one buffered request. A panic of the parser is one of the step. -/
def step (t : Target) (c : Connection) (svc : Service σ) (s : σ) (nowUnixSecs : Nat) :
    Outcome Empty (StepResult σ) :=
  match parseWith t c.buf c.maxBody with
  | .ok .partialRequest => .ok (c.stepPartial s nowUnixSecs)
  | .ok (.complete request consumed) => .ok (c.stepComplete svc s nowUnixSecs request consumed)
  | .err err => .ok (c.stepError s nowUnixSecs err)
  | .panic => .panic
  | .diverge => .diverge

end Connection

end FerroHttp
