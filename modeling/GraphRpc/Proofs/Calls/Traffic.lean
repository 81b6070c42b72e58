import Mathlib
import GraphRpc.Connection

/-!
# Traffic

Operations on one connection, each taking its own atomic steps in any order between those of the
others, with the deadlines and the transport. Letting one operation take all its steps in a row
gives the operation as a whole.
-/

namespace GraphRpc

variable {α : Type}

-- ---------------------------------------------------------------------------
-- Deciding a call
-- ---------------------------------------------------------------------------

/-- The next step of deciding a call, if there is one. -/
inductive Deciding (α : Type) where
  | taking (id : UInt64) (outcome : Except Failure (Payload α))
  | telling (call : PendingCall) (outcome : Except Failure (Payload α))
  | done

def Deciding.step (d : Deciding α) (e : Endpoint α) : Deciding α × Endpoint α :=
  match d with
  | .taking id outcome =>
    match (Endpoint.withdraw id).run e with
    | (some call, e) => (.telling call outcome, e)
    | (none, e) => (.done, e)
  | .telling call outcome => (.done, { e with trace := e.trace.finish call.callback outcome })
  | .done => (.done, e)

theorem Endpoint.withdraw_run (id : UInt64) (e : Endpoint α) : (withdraw id).run e =
    match e.connection.calls.take? id with
    | some (call, calls) => (some call, { e with connection := { e.connection with calls } })
    | none => (none, e) := by
  simp only [withdraw, StateT.run, modifyGet, MonadStateOf.modifyGet, StateT.modifyGet]
  cases e.connection.calls.take? id <;> rfl

def Message.outcome (message : Message α) : Except Failure (Payload α) :=
  match message.kind with
  | .error => .error (.call (.remote message.errorReason))
  | _ => .ok message.payload

/-- What is left to do about a frame that was pushed out: its call is cancelled. -/
def Deciding.ofEvicted (evicted : Option OutboundFrame) : Deciding α :=
  match evicted.bind (·.callId) with
  | some id => .taking id (.error (.call .cancelled))
  | none => .done

/-- Add a frame to the outbound buffer. What is left is to decide the call that it pushes out. -/
def Endpoint.push (e : Endpoint α) (frame : OutboundFrame) :
    Except LinkFault (Deciding α × Endpoint α) :=
  match e.connection.outbound.push frame with
  | .error fault => .error fault
  | .ok (evicted, outbound) =>
    .ok (.ofEvicted evicted,
      { connection := { e.connection with outbound }, trace := e.trace.emit .frameQueued })

-- ---------------------------------------------------------------------------
-- Issuing a call
-- ---------------------------------------------------------------------------

/-- The next step of issuing a call, if there is one, with the id that the call was given. -/
inductive InvokePhase (α : Type) where
  | opening
  | numbering
  | encoding (id : UInt64)
  | entering (id : UInt64) (bytes : ByteArray)
  | pushing (id : UInt64) (bytes : ByteArray)
  | refused (id : UInt64) (failure : Failure)
  | evicting (id : UInt64) (d : Deciding α)
  | rechecking (id : UInt64)
  | withdrawing (id : UInt64)
  | arming (id : UInt64)
  | returned (id : Option UInt64) (result : Except Failure UInt64)

structure Invocation (α : Type) where
  method : String
  payload : Payload α
  timeout : Option Millis
  callback : Callback
  phase : InvokePhase α := .opening

def Invocation.step (call : Invocation α) (e : Endpoint α) : InvokePhase α × Endpoint α :=
  match call.phase with
  | .opening =>
    if e.connection.closed then (.returned none (.error .closed), e) else (.numbering, e)
  | .numbering =>
    let (id, e) := Endpoint.takeCallId.run e
    (.encoding id, e)
  | .encoding id =>
    match (Message.request id call.method call.payload).encode e.connection.codec with
    | .ok bytes => (.entering id bytes, e)
    | .error failure => (.returned id (.error failure), e)
  | .entering id bytes =>
    let timeout := call.timeout <|> e.connection.callTimeout
    (.pushing id bytes, ((Endpoint.enterCall id call.callback timeout).run e).2)
  | .pushing id bytes =>
    match e.push ⟨some id, bytes⟩ with
    | .ok (d, e) => (.evicting id d, e)
    | .error fault => (.refused id (.link fault), e)
  | .refused id failure => (.returned id (.error failure), ((Endpoint.withdraw id).run e).2)
  | .evicting id .done => (.rechecking id, e)
  | .evicting id d =>
    let (d, e) := d.step e
    (.evicting id d, e)
  | .rechecking id => (if e.connection.closed then .withdrawing id else .arming id, e)
  | .withdrawing id =>
    match (Endpoint.withdraw id).run e with
    | (some _, e) => (.returned id (.error .closed), e)
    | (none, e) => (.arming id, e)
  | .arming id =>
    let e := match call.timeout <|> e.connection.callTimeout with
      | some after => ((Endpoint.arm id after).run e).2
      | none => e
    (.returned id (.ok id), ((Endpoint.count Counters.callIssued).run e).2)
  | .returned id result => (.returned id result, e)

theorem Endpoint.takeCallId_run (e : Endpoint α) : takeCallId.run e =
    (e.connection.nextCallId,
      { e with connection := { e.connection with nextCallId := e.connection.nextCallId + 1 } }) :=
  rfl

theorem Invocation.step_evicting {call : Invocation α} {id : UInt64} {d : Deciding α}
    (hphase : call.phase = .evicting id d) (hd : d ≠ .done) :
    call.step e = (.evicting id (d.step e).1, (d.step e).2) := by
  rw [step, hphase]
  cases d with
  | taking id outcome => rfl
  | telling call outcome => rfl
  | done => exact (hd rfl).elim

-- ---------------------------------------------------------------------------
-- Closing
-- ---------------------------------------------------------------------------

/-- The next step of closing the connection, if there is one. -/
inductive ClosingPhase (α : Type) where
  | swapping
  | signalling
  | clearing
  | listing
  | iterating (present : List UInt64)
  | failing (ids : List UInt64) (d : Deciding α)
  | returned

/-- A step of closing. Going through the table takes time. What it found is `seen`, where no call is
missing that was there all the time. -/
def ClosingPhase.step (phase : ClosingPhase α) (failure : Failure) (seen : List UInt64)
    (e : Endpoint α) : ClosingPhase α × Endpoint α :=
  match phase with
  | .swapping =>
    if e.connection.closed then (.returned, e)
    else (.signalling, { e with connection := { e.connection with closed := true } })
  | .signalling => (.clearing, { e with trace := e.trace.emit .closeSignalled })
  | .clearing =>
    let connection := { e.connection with outbound := e.connection.outbound.clear.2 }
    (.listing, { e with connection })
  | .listing => (.iterating (e.connection.calls.pending.map (·.callId)), e)
  | .iterating present =>
    if present.all fun id => !e.connection.calls.contains id || seen.contains id then
      (.failing seen .done, e)
    else (.iterating present, e)
  | .failing [] .done => (.returned, e)
  | .failing (id :: ids) .done => (.failing ids (.taking id (.error failure)), e)
  | .failing ids d =>
    let (d, e) := d.step e
    (.failing ids d, e)
  | .returned => (.returned, e)

theorem ClosingPhase.step_failing {ids : List UInt64} {d : Deciding α} (hd : d ≠ .done)
    (failure : Failure) (seen : List UInt64) (e : Endpoint α) :
    (failing ids d).step failure seen e = (.failing ids (d.step e).1, (d.step e).2) := by
  cases d with
  | taking id outcome => cases ids <;> rfl
  | telling call outcome => cases ids <;> rfl
  | done => exact (hd rfl).elim

-- ---------------------------------------------------------------------------
-- All together
-- ---------------------------------------------------------------------------

/-- The next step of sending a frame that issues no call, if there is one. -/
inductive SendPhase (α : Type) where
  | pushing (bytes : ByteArray)
  | evicting (d : Deciding α)

def SendPhase.step (phase : SendPhase α) (e : Endpoint α) : SendPhase α × Endpoint α :=
  match phase with
  | .pushing bytes =>
    match e.push ⟨none, bytes⟩ with
    | .ok (d, e) => (.evicting d, e)
    | .error _ => (.evicting .done, e)
  | .evicting d =>
    let (d, e) := d.step e
    (.evicting d, e)

inductive Party (α : Type) where
  | invoke (call : Invocation α)
  | answer (d : Deciding α)
  | close (failure : Failure) (phase : ClosingPhase α)
  | send (phase : SendPhase α)

namespace Party

def step (p : Party α) (seen : List UInt64) (e : Endpoint α) : Party α × Endpoint α :=
  match p with
  | invoke call =>
    let (phase, e) := call.step e
    (invoke { call with phase }, e)
  | answer d =>
    let (d, e) := d.step e
    (answer d, e)
  | close failure phase =>
    let (phase, e) := phase.step failure seen e
    (close failure phase, e)
  | send phase =>
    let (phase, e) := phase.step e
    (send phase, e)

def finished : Party α → Bool
  | invoke { phase := .returned _ _, .. } => true
  | answer .done => true
  | close _ .returned => true
  | send (.evicting .done) => true
  | _ => false

end Party

/-- A connection with everything that goes on at it. -/
structure Traffic (α : Type) where
  endpoint : Endpoint α
  parties : List (Party α) := []
  /-- Callbacks that are still to be told that their time is up. -/
  claimed : List Callback := []

inductive TrafficAction (α : Type) where
  | invoke (method : String) (payload : Payload α) (timeout : Option Millis) (awaited : Bool)
  | answer (message : Message α)
  | close (failure : Failure)
  | send (bytes : ByteArray)
  /-- Operation `i` takes its next step, in which it sees the calls in `seen` if it is one that goes
  through the table. -/
  | step (i : Nat) (seen : List UInt64)
  | fire (timer : Timer)
  | deliver (i : Nat)
  | pop
  | pass (ms : Millis)

namespace Traffic

def start (codec : Codec α) (outbound : Outbound) (callTimeout : Option Millis) : Traffic α where
  endpoint := { connection := { codec, outbound, callTimeout }, trace := {} }

def act (s : Traffic α) : TrafficAction α → Traffic α
  | .invoke method payload timeout awaited =>
    let (callback, endpoint) := (Endpoint.newCallback awaited).run s.endpoint
    { s with endpoint, parties := s.parties ++ [.invoke { method, payload, timeout, callback }] }
  | .answer message =>
    { s with parties := s.parties ++ [.answer (.taking message.callId message.outcome)] }
  | .close failure => { s with parties := s.parties ++ [.close failure .swapping] }
  | .send bytes => { s with parties := s.parties ++ [.send (.pushing bytes)] }
  | .step i seen =>
    match s.parties[i]? with
    | none => s
    | some p =>
      let (p, endpoint) := p.step seen s.endpoint
      { s with endpoint, parties := s.parties.set i p }
  | .fire timer =>
    if timer.due ≤ s.endpoint.trace.now then
      let (callback, endpoint) := (Endpoint.timeOut timer).run s.endpoint
      { s with endpoint, claimed := s.claimed ++ callback.toList }
    else s
  | .deliver i =>
    match s.claimed[i]? with
    | none => s
    | some callback =>
      { s with
        endpoint := ((Endpoint.deliverTimeout callback).run s.endpoint).2
        claimed := s.claimed.eraseIdx i }
  | .pop =>
    match s.endpoint.connection.outbound.pop? with
    | none => s
    | some (_, outbound) =>
      { s with
        endpoint := { s.endpoint with connection := { s.endpoint.connection with outbound } } }
  | .pass ms =>
    let trace := { s.endpoint.trace with now := s.endpoint.trace.now + ms }
    { s with endpoint := { s.endpoint with trace } }

def run (s : Traffic α) (actions : List (TrafficAction α)) : Traffic α := actions.foldl act s

end Traffic
end GraphRpc
