import GraphRpc.Session.Basic
import GraphRpc.Transport.Inbound

/-!
# Serving lines

A line is served by a reader and a writer, which take turns at being first. When both are over the
connection is disconnected, its slot is released, and the near end of the line is dropped.
-/

namespace GraphRpc.Session

variable {α : Type}

def deliver (s : Session α) (message : Message α) : StateM (Endpoint α) Unit :=
  match s.strategy with
  | .inline true => Endpoint.count (Counters.dropped 1)
  | .inline false => s.routes.dispatch message
  | .pooled _ => Endpoint.emit (.handedOver message)

/-- Give up the slot of a connection and drop the near end of its line. -/
def retire (k : Nat) : SessionM α Unit := do
  if ((← get).site? k).any (·.admitted) then
    perform k Endpoint.close
    modify fun s => { s with admission := (s.admission.leave k).release }
    updateSite k fun site => { site with admitted := false }
  updateLine k Line.closeNear

def runReader (k : Nat) : SessionM α Unit := do
  let s ← get
  let some line := s.line? k | return
  let some intake := line.reading | return
  updateLine k fun line => { line with readerWaits := false }
  let some (reading, toNear) ← act k (Endpoint.receiveAll (deliver s) intake line.toNear) | return
  updateLine k fun line => { line with reading, toNear, readerWaits := reading.isSome }

def runWriter (k : Nat) : SessionM α Unit := do
  let some line := (← get).line? k | return
  updateLine k fun line => { line with writer := { line.writer with state := .feeding } }
  let some (writer, toFar) ← act k (Endpoint.transmitAll line.writer line.toFar) | return
  updateLine k fun line => { line with writer, toFar }

def runHalves (k : Nat) : SessionM α Unit := do
  let some line := (← get).line? k | return
  updateLine k fun line => { line with polls := line.polls + 1 }
  if line.polls % 2 = 0 then
    runReader k
    runWriter k
  else
    runWriter k
    runReader k
  if ((← get).line? k).any (·.isDone) then
    perform k Endpoint.disconnect
    retire k

def start (k : Nat) : SessionM α Unit := do
  if (← get).isClosed k then retire k
  else
    updateLine k fun line => { line with phase := .running }
    perform k Endpoint.establish
    runHalves k

def connect (k : Nat) (plan : ConnectPlan) (since : Option Millis) : SessionM α Unit := do
  let now ← now
  let start := since.getD now
  let giveUp (why : ConnectFault) : SessionM α Unit := do
    perform k (Endpoint.failConnect why)
    retire k
  if start + plan.delay ≤ now ∧ plan.outcome ≠ .hangs then
    match plan.outcome with
    | .fails why => giveUp (.stream why)
    | _ => Session.start k
  else if start + plan.limit ≤ now then giveUp .timedOut
  else if since.isNone then
    updateLine k fun line => { line with phase := .connecting plan (some start) }
    setAlarm (start + plan.delay) (.line k)
    setAlarm (start + plan.limit) (.line k)

def serveLine (k : Nat) : SessionM α Unit := do
  modify fun s => { s with current := some (k, false) }
  match ((← get).line? k).map Line.phase with
  | some (.connecting plan since) => connect k plan since
  | some .attached => start k
  | some .running => runHalves k
  | _ => pure ()
  let again := (← get).current.any (·.2)
  modify fun s => { s with current := none }
  if again then wakeLine k

end GraphRpc.Session
