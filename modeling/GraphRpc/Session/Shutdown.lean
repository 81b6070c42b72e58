import GraphRpc.Session.Lines

/-!
# Accepting and shutting down

A server takes streams as long as its strategy runs and it has slots. When it shuts down it waits
for the peers to leave, looking again and again up to its limit, then closes what is left and stops
the strategy.
-/

namespace GraphRpc.Session

variable {α : Type}

def stopStrategy : SessionM α Unit := do
  let (dropped, strategy) := (← get).strategy.stop
  modify fun s => { s with strategy }
  count (Counters.dropped dropped)

def closeAll : SessionM α Unit := do
  (← get).admission.active.forM fun k => perform k Endpoint.close

def finishDrain (serves : Bool) : SessionM α Unit := do
  stopStrategy
  if serves then
    let offered := ((← get).serving.map (·.offered)).getD []
    offered.forM fun k => updateLine k Line.closeNear
    modify fun s => { s with serving := none }
    record none .serveDone
  else record none .shutdownDone

/-- Look whether the peers have left, or whether it is time to stop waiting. -/
def look (index : Nat) : SessionM α Unit := do
  let s ← get
  let some drain := s.drains[index]? | return
  if drain.done then return
  let now := s.trace.now
  let (next, limit) := drain.next.getD (now, now + s.shutdownLimit)
  let goOn (drain : Drain) : SessionM α Unit :=
    modify fun s => { s with drains := s.drains.set! index drain }
  if next ≤ now ∧ s.admission.isEmpty then
    goOn { drain with done := true }
    finishDrain drain.serves
  else if limit ≤ now then
    goOn { drain with done := true }
    closeAll
    finishDrain drain.serves
  else if next ≤ now then
    setAlarm (now + drainPollInterval) (.drain index)
    if drain.next.isNone then setAlarm limit (.drain index)
    goOn { drain with next := some (now + drainPollInterval, limit) }

def beginDrain (serves : Bool) : SessionM α Nat :=
  modifyGet fun s => (s.drains.size, { s with drains := s.drains.push { serves } })

/-- Enter a connection for a stream, or drop the stream. -/
def takeStream (k : Nat) : SessionM α (Except Failure Unit) := do
  let s ← get
  if s.strategy.isStopped then
    updateLine k Line.closeNear
    return .error .closed
  match s.admission.reserve? with
  | none =>
    updateLine k Line.closeNear
    return .error (.link (.connect (.limitReached s.admission.max)))
  | some admission =>
    set { s with admission := admission.enter k, connections := s.connections + 1 }
    updateSite k fun site =>
      { site with connection := some s.fresh, number := s.connections, admitted := true }
    updateLine k fun line => { line with phase := .attached }
    spawn (.line k)
    return .ok ()

def acceptOffered : SessionM α Unit := do
  let some serving := (← get).serving | return
  if serving.stopping then return
  let stopping := serving.signalled || !serving.sender
  modify fun s =>
    { s with serving := some { serving with offered := [], signalled := false, stopping } }
  serving.offered.forM fun k => do
    let _ ← takeStream k
  if stopping then look (← beginDrain true)

end GraphRpc.Session
