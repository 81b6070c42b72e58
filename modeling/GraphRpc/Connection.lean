import GraphRpc.Calls
import GraphRpc.Outbound

/-!
# Connections

A connection issues calls, answers them and notifies, with or without a transport: what it sends
waits in the outbound buffer, and what it waits for is in the table of pending calls. Closing
empties both for good.
-/

namespace GraphRpc

structure Connection (α : Type) where
  codec : Codec α
  outbound : Outbound := {}
  calls : Calls := {}
  nextCallId : UInt64 := 1
  callTimeout : Option Millis := none
  connected : Bool := false
  closed : Bool := false

/-- A connection and the record of what its operations bring about. -/
structure Endpoint (α : Type) where
  connection : Connection α
  trace : Trace α

/-- An operation on a connection, which changes it even if it fails. -/
abbrev LinkM (α : Type) := ExceptT Failure (StateM (Endpoint α))

namespace Connection

variable {α : Type}

def detached (codec : Codec α) : Connection α := { codec }

def isConnected (c : Connection α) : Bool := c.connected && !c.closed

end Connection

namespace Endpoint

variable {α : Type}

def update (f : Connection α → Connection α) : StateM (Endpoint α) Unit :=
  modify fun e => { e with connection := f e.connection }

def emit (effect : Effect α) : StateM (Endpoint α) Unit :=
  modify fun e => { e with trace := e.trace.emit effect }

def count (f : Counters → Counters) : StateM (Endpoint α) Unit :=
  modify fun e => { e with trace := e.trace.count f }

def isClosed : StateM (Endpoint α) Bool := do
  return (← get).connection.closed

/-- An operation that cannot fail, among those that can. -/
def always {β : Type} (action : StateM (Endpoint α) β) : LinkM α β := ExceptT.lift action

def ensureOpen : LinkM α Unit := do
  if ← always isClosed then throw .closed

def takeCallId : StateM (Endpoint α) UInt64 :=
  modifyGet fun e =>
    (e.connection.nextCallId,
      { e with connection := { e.connection with nextCallId := e.connection.nextCallId + 1 } })

def newCallback (awaited : Bool) : StateM (Endpoint α) Callback :=
  modifyGet fun e =>
    (⟨e.trace.nextCallback, awaited⟩,
      { e with trace := { e.trace with nextCallback := e.trace.nextCallback + 1 } })

def resolve (id : UInt64) (outcome : Except Failure (Payload α)) : StateM (Endpoint α) Bool :=
  modifyGet fun e =>
    let (was, calls, trace) := e.connection.calls.resolve e.trace id outcome
    (was, { connection := { e.connection with calls }, trace })

/-- Take a pending call back without telling its callback. -/
def withdraw (id : UInt64) : StateM (Endpoint α) (Option PendingCall) :=
  modifyGet fun e =>
    match e.connection.calls.take? id with
    | some (call, calls) => (some call, { e with connection := { e.connection with calls } })
    | none => (none, e)

/-- Drop a pending call: its callback is never told. -/
def cancel (id : UInt64) : StateM (Endpoint α) Bool := do
  match ← withdraw id with
  | some call =>
    emit (.discarded call.callback)
    return true
  | none => return false

def encoded (message : Message α) : LinkM α ByteArray := do
  match message.encode (← get).connection.codec with
  | .ok bytes => return bytes
  | .error failure => throw failure

/-- Add a frame to the outbound buffer. If that pushes out a call, the call is cancelled. -/
def pushFrame (callId : Option UInt64) (bytes : ByteArray) : LinkM α Unit := do
  match (← get).connection.outbound.push ⟨callId, bytes⟩ with
  | .error fault => throw (.link fault)
  | .ok (evicted, outbound) =>
    always (update fun c => { c with outbound })
    always (emit .frameQueued)
    if let some id := evicted.bind (·.callId) then
      let _ ← always (resolve id (.error (.call .cancelled)))

def enterCall (id : UInt64) (callback : Callback) (timeout : Option Millis) :
    StateM (Endpoint α) Unit :=
  modify fun e =>
    let call : PendingCall :=
      { callId := id, callback, deadline := timeout.map (e.trace.now + ·) }
    { e with connection := { e.connection with calls := e.connection.calls.insert call } }

def arm (id : UInt64) (after : Millis) : StateM (Endpoint α) Unit :=
  modify fun e =>
    let (timer, calls) := e.connection.calls.arm id (e.trace.now + after)
    let e := { e with connection := { e.connection with calls } }
    timer.elim e fun t => { e with trace := e.trace.emit (.armed t) }

/-- Issue a call. The call is in the table before its frame is in the buffer, and is taken back if
the frame is refused or the connection is closed meanwhile. -/
def invoke (method : String) (payload : Payload α) (timeout : Option Millis)
    (callback : Callback) : LinkM α UInt64 := do
  ensureOpen
  let id ← always takeCallId
  let bytes ← encoded (.request id method payload)
  let timeout := timeout <|> (← get).connection.callTimeout
  always (enterCall id callback timeout)
  try
    pushFrame (some id) bytes
  catch failure =>
    let _ ← always (withdraw id)
    throw failure
  if ← always isClosed then
    if (← always (withdraw id)).isSome then throw .closed
  if let some after := timeout then always (arm id after)
  always (count Counters.callIssued)
  return id

def notify (method : String) (payload : Payload α) : LinkM α UInt64 := do
  ensureOpen
  let id ← always takeCallId
  let bytes ← encoded (.oneWay id method payload)
  pushFrame none bytes
  always (count Counters.oneWayWasIssued)
  return id

def respondError (request : Message α) (reason : String) : LinkM α Unit := do
  ensureOpen
  pushFrame none (← encoded (request.errorTo reason))

/-- Answer a request. An answer that cannot be encoded becomes an error that says so. -/
def respond (request : Message α) (payload : Payload α) : LinkM α Unit := do
  ensureOpen
  match (request.responseTo payload).encode (← get).connection.codec with
  | .ok bytes => pushFrame none bytes
  | .error failure => respondError request failure.message

/-- Bring an answer to the call that waits for it. A late or unknown answer changes nothing. -/
def completeCall (message : Message α) : StateM (Endpoint α) Unit := do
  let outcome := match message.kind with
    | .error => .error (.call (.remote message.errorReason))
    | _ => .ok message.payload
  let _ ← resolve message.callId outcome

def failAll (failure : Failure) : StateM (Endpoint α) Unit :=
  modify fun e =>
    let (_, calls, trace) := e.connection.calls.failAll e.trace failure
    { connection := { e.connection with calls }, trace }

/-- Close, and fail what is pending with `failure`. Closing again does nothing. -/
def closeWith (failure : Failure) : StateM (Endpoint α) Unit := do
  if ← isClosed then return
  update fun c => { c with closed := true }
  emit .closeSignalled
  update fun c => { c with outbound := c.outbound.clear.2 }
  failAll failure

def close : StateM (Endpoint α) Unit := closeWith .closed

def establish : StateM (Endpoint α) Unit := do
  count Counters.connectionEstablished
  update fun c => { c with connected := true }
  emit .connected

def disconnect : StateM (Endpoint α) Unit := do
  update fun c => { c with connected := false }
  count Counters.connectionClosed
  emit .disconnected

/-- Report a failure of the transport, unless closed, and close. -/
def fail (failure : Failure) : StateM (Endpoint α) Unit := do
  if ← isClosed then return
  emit (.faulted failure)
  close

def failConnect (why : ConnectFault) : StateM (Endpoint α) Unit := do
  emit (.faulted (.link (.connect why)))
  closeWith (.link (.connect why))

/-- Let the deadline of a call pass. The result is the callback to be told, if the call is still
undecided. -/
def timeOut (timer : Timer) : StateM (Endpoint α) (Option Callback) :=
  modifyGet fun e =>
    let (call, calls) := e.connection.calls.fire timer
    (call.map (·.callback), { e with connection := { e.connection with calls } })

def deliverTimeout (callback : Callback) : StateM (Endpoint α) Unit :=
  modify fun e => { e with trace := Calls.deliverTimeout e.trace callback }

end Endpoint
end GraphRpc
