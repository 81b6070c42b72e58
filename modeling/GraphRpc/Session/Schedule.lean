import GraphRpc.Session.Shutdown

/-!
# Scheduling

Time stands still while anything can run: first the tasks that are ready, in order, then the work
that the workers were given so far, and again. When nothing is left the clock may move on.
-/

namespace GraphRpc.Session

variable {α : Type}

def runDeadline (k : Nat) (timer : Timer) : SessionM α Unit := do
  if (← now) < timer.due then setAlarm timer.due (.deadline k timer)
  else if let some (some callback) ← act k (Endpoint.timeOut timer) then
    assign (.timeout k callback)

def runCall (k : Nat) (callback : Callback) (method : String) (payload : Payload α)
    (timeout : Option Millis) : SessionM α Unit := do
  if let some (.error failure) ← act k (Endpoint.invoke method payload timeout callback).run then
    recordAt k (.callback callback.number (.error failure))

def runTask : Task α → SessionM α Unit
  | .line k => serveLine k
  | .call k callback method payload timeout => runCall k callback method payload timeout
  | .report k callback outcome => recordAt k (.callback callback.number outcome)
  | .deadline k timer => runDeadline k timer
  | .accept => acceptOffered
  | .drain index => look index

def drainLane (index : Nat) : (fuel : Nat) → SessionM α Unit
  | 0 => return
  | fuel + 1 => do
    let s ← get
    match s.strategy with
    | .inline _ => return
    | .pooled lanes =>
      let (work, lanes) := lanes.next index
      set { s with strategy := .pooled lanes }
      match work with
      | .entry (k, message) =>
        perform k (s.routes.dispatch message)
        drainLane index fuel
      | .stopped dropped => count (Counters.dropped dropped)
      | .drained => return

/-- Nothing is added to a lane while it is drained, so what waits in all lanes is fuel enough. -/
def runJob : Job → SessionM α Unit
  | .timeout k callback => perform k (Endpoint.deliverTimeout callback)
  | .lane index => do
    match (← get).strategy with
    | .inline _ => return
    | .pooled lanes =>
      modify fun s => { s with strategy := .pooled (lanes.start index) }
      drainLane index (lanes.queued + 1)

def runReady : (fuel : Nat) → SessionM α Unit
  | 0 => return
  | fuel + 1 => do
    let s ← get
    match s.ready with
    | [] => return
    | task :: ready =>
      set { s with ready }
      runTask task
      runReady fuel

/-- Run tasks and jobs in turn until there are none. -/
def runTurns : (fuel : Nat) → SessionM α Unit
  | 0 => return
  | fuel + 1 => do
    runReady (fuel + 1)
    let jobs := (← get).jobs
    if jobs.isEmpty then return
    modify fun s => { s with jobs := [] }
    jobs.forM runJob
    runTurns fuel

/-- More turns than any session takes to come to rest. -/
def turnLimit : Nat := 1000000

def settle : SessionM α Unit := runTurns turnLimit

def ring : Task α → SessionM α Unit
  | .line k => wakeLineIf k Line.isConnecting
  | task => spawn task

def tick : SessionM α Unit := do
  modify fun s => { s with trace := { s.trace with now := s.trace.now + 1 } }
  let s ← get
  let (due, later) := s.alarms.partition (·.due ≤ s.trace.now)
  set { s with alarms := later }
  due.forM fun alarm => ring alarm.task
  settle

def advance : Millis → SessionM α Unit
  | 0 => return
  | ms + 1 => do
    tick
    advance ms

end GraphRpc.Session
