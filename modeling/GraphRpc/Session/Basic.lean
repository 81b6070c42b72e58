import GraphRpc.Admission
import GraphRpc.Routes
import GraphRpc.Session.Strategy
import GraphRpc.Transport.Line

/-!
# Sessions

A session is a set of connections with their lines, and everything that is to run on them: tasks
that are ready, work for the workers, and alarms for a later time. It keeps a log of what an
application is told.

`act` lets an operation run on one connection and does what the operation brought about: it enters
the log, makes tasks ready, and gives work to the workers.
-/

namespace GraphRpc

/-- A connection and its line. A stream that was not accepted has no connection. -/
structure Site (α : Type) where
  name : String
  connection : Option (Connection α)
  line : Line := {}
  number : Nat := 0
  /-- Whether the connection holds a slot of the server. -/
  admitted : Bool := false

/-- What may run at once. Connections are named by their place in the session. -/
inductive Task (α : Type) where
  | line (site : Nat)
  | call (site : Nat) (callback : Callback) (method : String) (payload : Payload α)
      (timeout : Option Millis)
  | report (site : Nat) (callback : Callback) (outcome : Except Failure (Payload α))
  | deadline (site : Nat) (timer : Timer)
  | accept
  | drain (index : Nat)

inductive Job where
  | lane (index : Nat)
  | timeout (site : Nat) (callback : Callback)

structure Alarm (α : Type) where
  due : Millis
  task : Task α

inductive Event (α : Type) where
  | callback (number : Nat) (outcome : Except Failure (Payload α))
  | handled (handler : String) (message : Message α)
  | connected
  | disconnected
  | faulted (why : Failure)
  | shutdownDone
  | serveDone

structure LogEntry (α : Type) where
  time : Millis
  /-- Nothing for an event of the server itself. -/
  peer : Option String
  event : Event α

structure Serving where
  offered : List Nat := []
  /-- Whether a signal to stop waits to be taken. -/
  signalled : Bool := false
  sender : Bool := true
  /-- Whether the signal to stop was taken. -/
  stopping : Bool := false
deriving DecidableEq, Repr, Inhabited

structure Drain where
  serves : Bool
  /-- When to look again, and when to look no more. -/
  next : Option (Millis × Millis) := none
  done : Bool := false
deriving DecidableEq, Repr, Inhabited

structure Session (α : Type) where
  fresh : Connection α
  trace : Trace α := {}
  routes : Routes α := {}
  strategy : Strategy α := default
  sites : Array (Site α) := #[]
  connections : Nat := 0
  admission : Admission := { max := 1 }
  shutdownLimit : Millis := 10000
  serving : Option Serving := none
  drains : Array Drain := #[]
  /-- Oldest first, as are the jobs and the alarms. -/
  ready : List (Task α) := []
  jobs : List Job := []
  alarms : List (Alarm α) := []
  log : List (LogEntry α) := []
  /-- The line that is being served, and whether it is to be served again. -/
  current : Option (Nat × Bool) := none

namespace Session

variable {α : Type}

abbrev SessionM (α : Type) := StateM (Session α)

def site? (s : Session α) (k : Nat) : Option (Site α) := s.sites[k]?

def connection? (s : Session α) (k : Nat) : Option (Connection α) :=
  (s.site? k).bind (·.connection)

def isConnected (s : Session α) (k : Nat) : Bool := (s.connection? k).any (·.isConnected)

def isClosed (s : Session α) (k : Nat) : Bool := (s.connection? k).any (·.closed)

def line? (s : Session α) (k : Nat) : Option Line := (s.site? k).map (·.line)

def updateSite (k : Nat) (f : Site α → Site α) : SessionM α Unit :=
  modify fun s => { s with sites := s.sites.modify k f }

def updateLine (k : Nat) (f : Line → Line) : SessionM α Unit :=
  updateSite k fun site => { site with line := f site.line }

def now : SessionM α Millis := do
  return (← get).trace.now

def spawn (task : Task α) : SessionM α Unit :=
  modify fun s => { s with ready := s.ready ++ [task] }

def assign (job : Job) : SessionM α Unit := modify fun s => { s with jobs := s.jobs ++ [job] }

def setAlarm (due : Millis) (task : Task α) : SessionM α Unit :=
  modify fun s => { s with alarms := s.alarms ++ [⟨due, task⟩] }

def record (peer : Option String) (event : Event α) : SessionM α Unit :=
  modify fun s => { s with log := s.log ++ [⟨s.trace.now, peer, event⟩] }

def recordAt (k : Nat) (event : Event α) : SessionM α Unit := do
  record ((← get).site? k |>.map (·.name)) event

def count (f : Counters → Counters) : SessionM α Unit :=
  modify fun s => { s with trace := s.trace.count f }

def Task.isLine (k : Nat) : Task α → Bool
  | .line site => site == k
  | _ => false

/-- Let a line be served soon. One that is being served is served again afterwards. -/
def wakeLine (k : Nat) : SessionM α Unit :=
  modify fun s =>
    if s.current.any (·.1 == k) then { s with current := some (k, true) }
    else if s.ready.any (Task.isLine k) then s
    else { s with ready := s.ready ++ [.line k] }

def wakeLineIf (k : Nat) (wants : Line → Bool) : SessionM α Unit := do
  if ((← get).line? k).any wants then wakeLine k

def notifyWriter (k : Nat) : SessionM α Unit := do
  wakeLineIf k Line.wantsFrame
  updateLine k fun line => { line with writer := { line.writer with permit := true } }

def handOver (k : Nat) (message : Message α) : SessionM α Unit := do
  let s ← get
  let number := ((s.site? k).map (·.number)).getD 0
  match s.strategy with
  | .inline _ => return
  | .pooled lanes =>
    let lane := lanes.laneOf number
    let (needsWorker, lanes) := lanes.enqueue lane (k, message)
    set { s with strategy := .pooled lanes }
    match needsWorker with
    | none => count (Counters.dropped 1)
    | some true => assign (.lane lane)
    | some false => return

def absorb (k : Nat) : Effect α → SessionM α Unit
  | .resolved callback outcome =>
    if callback.awaited then spawn (.report k callback outcome)
    else recordAt k (.callback callback.number outcome)
  | .discarded callback =>
    if callback.awaited then spawn (.report k callback (.error (.call .cancelled)))
    else return
  | .handled handler message => recordAt k (.handled handler message)
  | .armed timer => spawn (.deadline k timer)
  | .handedOver message => handOver k message
  | .frameQueued => notifyWriter k
  | .closeSignalled => wakeLineIf k Line.wantsClose
  | .connected => recordAt k .connected
  | .disconnected => recordAt k .disconnected
  | .faulted why => recordAt k (.faulted why)

def act {β : Type} (k : Nat) (operation : StateM (Endpoint α) β) : SessionM α (Option β) := do
  let s ← get
  match s.connection? k with
  | none => return none
  | some connection =>
    let (result, e) := operation.run ⟨connection, s.trace⟩
    set { s with trace := { e.trace with effects := [] } }
    updateSite k fun site => { site with connection := some e.connection }
    e.trace.effects.forM (absorb k)
    return some result

def perform {β : Type} (k : Nat) (operation : StateM (Endpoint α) β) : SessionM α Unit := do
  let _ ← act k operation

end Session
end GraphRpc
