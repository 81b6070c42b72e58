import GraphRpc.Counters
import GraphRpc.Message
import GraphRpc.Timing

/-!
# Pending calls

The calls that wait for an outcome. Taking a call out of the table is what decides it: whoever takes
it owns its callback, and everyone else finds nothing. Deadlines are timers of their own, which a
call that leaves in another way takes with it.
-/

namespace GraphRpc

/-- What is told the outcome of a call. An awaited callback resumes whoever waits for it. -/
structure Callback where
  number : Nat
  awaited : Bool := false
deriving DecidableEq, Repr, Inhabited

structure PendingCall where
  callId : UInt64
  callback : Callback
  deadline : Option Millis
  timer : Option Nat := none
deriving DecidableEq, Repr, Inhabited

/-- Fails a call when its time has come, whichever call has the id by then. -/
structure Timer where
  id : Nat
  callId : UInt64
  due : Millis
deriving DecidableEq, Repr, Inhabited

structure Calls where
  pending : List PendingCall := []
  timers : List Timer := []
  nextTimer : Nat := 0
deriving DecidableEq, Repr, Inhabited

namespace Calls

def size (calls : Calls) : Nat := calls.pending.length

def isEmpty (calls : Calls) : Bool := calls.pending.isEmpty

def contains (calls : Calls) (id : UInt64) : Bool := calls.pending.any (·.callId == id)

def find? (calls : Calls) (id : UInt64) : Option PendingCall :=
  calls.pending.find? (·.callId == id)

/-- Enter a call, in place of any other with its id. -/
def insert (calls : Calls) (call : PendingCall) : Calls :=
  { calls with pending := calls.pending.filter (·.callId != call.callId) ++ [call] }

/-- Take a call out and leave its timer running. -/
def claim? (calls : Calls) (id : UInt64) : Option (PendingCall × Calls) :=
  (calls.find? id).map fun call =>
    (call, { calls with pending := calls.pending.filter (·.callId != id) })

def stopTimer (calls : Calls) (timer : Option Nat) : Calls :=
  { calls with timers := calls.timers.filter fun t => some t.id != timer }

/-- Take a call out together with its timer. -/
def take? (calls : Calls) (id : UInt64) : Option (PendingCall × Calls) :=
  (calls.claim? id).map fun (call, rest) => (call, rest.stopTimer call.timer)

def arm (calls : Calls) (id : UInt64) (due : Millis) : Option Timer × Calls :=
  if calls.contains id then
    let timer : Timer := ⟨calls.nextTimer, id, due⟩
    (some timer,
      { pending := calls.pending.map fun call =>
          if call.callId == id then { call with timer := some timer.id } else call
        timers := calls.timers ++ [timer]
        nextTimer := calls.nextTimer + 1 })
  else (none, calls)

/-- Let a timer go off and take its call, if there is still one. A stopped timer does nothing. -/
def fire (calls : Calls) (timer : Timer) : Option PendingCall × Calls :=
  if calls.timers.contains timer then
    let rest := { calls with timers := calls.timers.erase timer }
    match rest.claim? timer.callId with
    | some (call, rest) => (some call, rest)
    | none => (none, rest)
  else (none, calls)

def fireEach (calls : Calls) : List Timer → List PendingCall × Calls
  | [] => ([], calls)
  | timer :: timers =>
    let (call, calls) := calls.fire timer
    let (more, calls) := calls.fireEach timers
    (call.toList ++ more, calls)

/-- Let all timers that are due go off. -/
def expire (calls : Calls) (now : Millis) : List PendingCall × Calls :=
  calls.fireEach (calls.timers.filter (·.due ≤ now))

end Calls

/-- What an operation brought about outside its own data. -/
inductive Effect (α : Type) where
  | resolved (callback : Callback) (outcome : Except Failure (Payload α))
  | discarded (callback : Callback)
  | handled (handler : String) (message : Message α)
  | armed (timer : Timer)
  | handedOver (message : Message α)
  | frameQueued
  | closeSignalled
  | connected
  | disconnected
  | faulted (why : Failure)

/-- The record of what happened, and what all operations share: the clock, the counters and the
numbering of callbacks. -/
structure Trace (α : Type) where
  now : Millis := 0
  counters : Counters := {}
  nextCallback : Nat := 0
  /-- Oldest first. -/
  effects : List (Effect α) := []
deriving Inhabited

namespace Trace

variable {α : Type}

def emit (t : Trace α) (e : Effect α) : Trace α := { t with effects := t.effects ++ [e] }

def count (t : Trace α) (f : Counters → Counters) : Trace α := { t with counters := f t.counters }

def countOutcome : Except Failure (Payload α) → Counters → Counters
  | .ok _ => Counters.callCompleted
  | .error (.call .timedOut) => Counters.callTimedOut
  | .error _ => Counters.callFailed

def finish (t : Trace α) (callback : Callback) (outcome : Except Failure (Payload α)) : Trace α :=
  (t.count (countOutcome outcome)).emit (.resolved callback outcome)

end Trace

namespace Calls

variable {α : Type}

/-- Decide a call. The answer is whether it was still undecided. -/
def resolve (calls : Calls) (t : Trace α) (id : UInt64) (outcome : Except Failure (Payload α)) :
    Bool × Calls × Trace α :=
  match calls.take? id with
  | some (call, rest) => (true, rest, t.finish call.callback outcome)
  | none => (false, calls, t)

/-- Decide all the calls with the given ids that are still undecided, and count them. -/
def failEach (failure : Failure) : List UInt64 → Calls → Trace α → Nat × Calls × Trace α
  | [], calls, t => (0, calls, t)
  | id :: ids, calls, t =>
    let (was, calls, t) := calls.resolve t id (.error failure)
    let (n, calls, t) := failEach failure ids calls t
    (if was then n + 1 else n, calls, t)

def failAll (calls : Calls) (t : Trace α) (failure : Failure) : Nat × Calls × Trace α :=
  failEach failure (calls.pending.map (·.callId)) calls t

def deliverTimeout (t : Trace α) (callback : Callback) : Trace α :=
  t.finish callback (.error (.call .timedOut))

def settle (calls : Calls) (t : Trace α) : Calls × Trace α :=
  let (claimed, calls) := calls.expire t.now
  (calls, claimed.foldl (fun t call => deliverTimeout t call.callback) t)

/-- Let time pass, a millisecond at a time. Also returned is what happened, with its time. -/
def pass (calls : Calls) (t : Trace α) : Millis → Calls × Trace α × List (Millis × Effect α)
  | 0 =>
    let (calls, t) := calls.settle t
    (calls, t, t.effects.map (t.now, ·))
  | ms + 1 =>
    let (calls, t) := calls.settle t
    let log := t.effects.map (t.now, ·)
    let (calls, t, more) := calls.pass { t with now := t.now + 1, effects := [] } ms
    (calls, t, log ++ more)

end Calls
end GraphRpc
