import GraphRpc.Session.Schedule

/-!
# The ends of a session

What an application does with a client, a server or a connection without a transport, and what is
done at the far ends of the lines.
-/

namespace GraphRpc.Session

variable {α : Type}

/-! ## Starting -/

def detached (fresh : Connection α) (routes : Routes α) : Session α :=
  { fresh, routes, sites := #[{ name := "", connection := some fresh }] }

def client (fresh : Connection α) (routes : Routes α) (strategy : Strategy α) (plan : ConnectPlan)
    (capacity : Nat) : Session α :=
  let line := .ofCapacity capacity (.connecting plan none)
  { fresh, routes, strategy
    sites := #[{ name := "", connection := some fresh, line }]
    ready := [.line 0] }

def server (fresh : Connection α) (routes : Routes α) (strategy : Strategy α)
    (maxConnections : Nat) (shutdownLimit : Millis) : Session α :=
  { fresh, routes, strategy, shutdownLimit, admission := { max := maxConnections } }

/-- Start a session where there is a runtime for its tasks, or where there is none. -/
def begin (runtime : Bool) (s : Session α) : Except Failure (Session α) :=
  if runtime then .ok s else .error .noRuntime

/-! ## Calls -/

/-- Issue a call. The answer is the number of its callback, and its id. -/
def invoke (k : Nat) (method : String) (payload : Payload α) (timeout : Option Millis) :
    SessionM α (Option (Nat × Except Failure UInt64)) :=
  act k do
    let callback ← Endpoint.newCallback false
    let id ← (Endpoint.invoke method payload timeout callback).run
    return (callback.number, id)

/-- Issue a call whose outcome is awaited. The answer is the number of its callback. -/
def call (k : Nat) (method : String) (payload : Payload α) (timeout : Option Millis) :
    SessionM α (Option Nat) := do
  let some callback ← act k (Endpoint.newCallback true) | return none
  spawn (.call k callback method payload timeout)
  return some callback.number

def register (method : String) (handler : Handler α) : SessionM α Unit :=
  modify fun s => { s with routes := s.routes.register method handler }

/-! ## Clients and servers -/

def closeClient : SessionM α Unit := do
  perform 0 Endpoint.close
  stopStrategy

/-- Add a line for a stream of which nobody has taken the near end. -/
def addLine (name : String) (capacity : Nat) : SessionM α Nat :=
  modifyGet fun s =>
    let site := { name, connection := none, line := .ofCapacity capacity .idle }
    (s.sites.size, { s with sites := s.sites.push site })

def accept (name : String) (capacity : Nat) : SessionM α (Except Failure Unit) := do
  takeStream (← addLine name capacity)

def serve : SessionM α Unit := do
  modify fun s => { s with serving := some {} }
  spawn .accept

def isServing : SessionM α Bool := do
  return (← get).serving.isSome

/-- Offer a stream to the acceptor, or drop it if there is none. -/
def offer (name : String) (capacity : Nat) : SessionM α Unit := do
  let k ← addLine name capacity
  match (← get).serving with
  | none => updateLine k Line.closeNear
  | some serving =>
    modify fun s =>
      { s with serving := some { serving with offered := serving.offered ++ [k] } }
    spawn .accept

def signalStop : SessionM α Bool := do
  match (← get).serving with
  | none => return false
  | some serving =>
    if serving.signalled || !serving.sender then return false
    modify fun s => { s with serving := some { serving with signalled := true } }
    spawn .accept
    return true

/-- Send no more signals, which is taken for one. -/
def dropSignal : SessionM α Unit := do
  if let some serving := (← get).serving then
    modify fun s => { s with serving := some { serving with sender := false } }
    spawn .accept

def shutdown : SessionM α Unit := do
  spawn (.drain (← beginDrain false))

/-! ## Far ends -/

/-- Send bytes as far as there is room, and go on as room is made. -/
def sendOn (k : Nat) : (fuel : Nat) → List UInt8 → SessionM α SendResult
  | 0, _ => return .blocked
  | fuel + 1, bytes => do
    let some line := (← get).line? k | return .dropped
    match line.toNear.write? bytes with
    | none => return .brokenPipe
    | some (rest, toNear) =>
      updateLine k fun line => { line with toNear }
      wakeLineIf k Line.wantsBytes
      if rest.isEmpty then return .sent bytes.length
      settle
      if rest.length < bytes.length then sendOn k fuel rest else return .blocked

def send (k : Nat) (bytes : List UInt8) : SessionM α SendResult := do
  if ((← get).line? k).any (·.farDropped) then return .dropped
  match ← sendOn k (bytes.length + 1) bytes with
  | .sent _ => return .sent bytes.length
  | result => return result

def sendChunks (k : Nat) : List (List UInt8) → SessionM α SendResult
  | [] => return .sent 0
  | chunk :: chunks => do
    match ← send k chunk with
    | .sent count =>
      settle
      match ← sendChunks k chunks with
      | .sent more => return .sent (count + more)
      | result => return result
    | result => return result

def sendBy (size k : Nat) (bytes : List UInt8) : SessionM α SendResult :=
  let count := (bytes.length + size - 1) / size
  sendChunks k ((List.range count).map fun i => (bytes.drop (i * size)).take size)

def shutFar (k : Nat) : SessionM α Unit := do
  updateLine k Line.shut
  wakeLineIf k Line.wantsBytes

def dropFar (k : Nat) : SessionM α Unit := do
  updateLine k Line.drop
  wakeLineIf k fun line => line.wantsBytes || line.wantsRoom

def readFar (k : Nat) : SessionM α Bool := do
  let some line := (← get).line? k | return false
  updateLine k Line.receive
  if line.farDropped || line.toFar.bytes.isEmpty then return false
  wakeLineIf k Line.wantsRoom
  return true

def readAllFar : (fuel : Nat) → SessionM α Unit
  | 0 => return
  | fuel + 1 => do
    let read ← (List.range (← get).sites.size).mapM readFar
    if read.any id then
      settle
      readAllFar fuel

def report (codec : Codec α) (k : Nat) : SessionM α (Option (FarReport α)) := do
  match (← get).line? k with
  | none => return none
  | some line =>
    let (report, line) := line.report codec
    updateLine k fun _ => line
    return some report

def handled (s : Session α) : List (Event α) :=
  (s.log.map (·.event)).filter fun event => match event with
    | .handled .. => true
    | _ => false

def takeLog : SessionM α (List (LogEntry α)) :=
  modifyGet fun s => (s.log, { s with log := [] })

end GraphRpc.Session
