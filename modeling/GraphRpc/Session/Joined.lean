import GraphRpc.Session.Ends
import GraphRpc.Settings.Basic
import GraphRpc.Transport.Surroundings

/-!
# Joined sessions

A client and a server whose lines carry to each other what either writes, until nothing more comes. The
server takes the client from an acceptor, and where it listens at a socket, the socket is there for as long
as it serves.
-/

namespace GraphRpc

structure Joined (α : Type) where
  client : Session α
  server : Session α
  directory : Directory := {}
  socket : Option String := none

namespace Joined

variable {α : Type}

/-- Take what the far end of the only line has got, and whether that is all. -/
def collect : Session.SessionM α (List UInt8 × Bool) := do
  let _ ← Session.readFar 0
  match (← get).line? 0 with
  | none => return ([], true)
  | some line =>
    Session.updateLine 0 fun line => { line with farBuffer := [] }
    return (line.farBuffer, line.toFar.closed)

def hand (bytes : List UInt8) (ended : Bool) : Session.SessionM α Unit := do
  let _ ← Session.send 0 bytes
  if ended then Session.shutFar 0
  Session.settle

/-- Carry bytes both ways until nothing more comes. -/
def exchange : (fuel : Nat) → StateM (Joined α) Unit
  | 0 => return
  | fuel + 1 => do
    let j ← get
    let ((up, upEnded), client) := collect.run (Session.settle.run j.client).2
    let ((down, downEnded), server) := collect.run (Session.settle.run j.server).2
    let (_, client) := (hand down downEnded).run client
    let (_, server) := (hand up upEnded).run server
    set { j with client, server }
    if !(up.isEmpty && down.isEmpty) then exchange fuel

def outcome? (j : Joined α) (number : Nat) : Option (Except Failure (Payload α)) :=
  j.client.log.findSome? fun entry =>
    match entry.event with
    | .callback n outcome => if n = number then some outcome else none
    | _ => none

def await {β : Type} (seen? : Joined α → Option β) : (fuel : Nat) → StateM (Joined α) (Option β)
  | 0 => return none
  | fuel + 1 => do
    exchange 1000
    match seen? (← get) with
    | some b => return some b
    | none =>
      modify fun j =>
        { j with client := (Session.tick.run j.client).2, server := (Session.tick.run j.server).2 }
      await seen? fuel

def call (method : String) (payload : Payload α) :
    StateM (Joined α) (Option (Except Failure (Payload α))) := do
  let j ← get
  let (issued, client) := (Session.invoke 0 method payload none).run j.client
  set { j with client }
  match issued with
  | some (number, .ok _) => await (outcome? · number) 100000
  | some (_, .error failure) => return some (.error failure)
  | none => return none

/-- Close the client, stop the server, and wait until it has served. Its socket goes then. -/
def stop : StateM (Joined α) (Option Unit) := do
  modify fun j => { j with client := (Session.closeClient.run j.client).2 }
  exchange 1000
  modify fun j => { j with server := (Session.signalStop.run j.server).2 }
  let served ← await (fun j => if j.server.serving.isNone then some () else none) 100000
  if served.isSome then
    modify fun j => { j with directory := j.socket.elim j.directory j.directory.remove }
  return served

end Joined

def OutboundSettings.newQueue (o : OutboundSettings) : Outbound :=
  { policy := o.policy, capacity := o.capacity }

namespace Settings

variable {α : Type}

def newClient (s : Settings) (registry : Registry α) (routes : Routes α) (outcome : ConnectOutcome) :
    Session α :=
  let fresh : Connection α :=
    { codec := ⟨s.codec, registry⟩, outbound := s.client.outbound.newQueue
      callTimeout := s.client.callTimeout.map (·.millis) }
  Session.client fresh routes (.ofKind s.dispatch.strategy s.dispatch.workers)
    { outcome, limit := s.client.connectionTimeout.millis } 1048576

def newServer (s : Settings) (registry : Registry α) (routes : Routes α) : Session α :=
  let fresh : Connection α :=
    { codec := ⟨s.codec, registry⟩, outbound := s.server.outbound.newQueue
      callTimeout := s.server.callTimeout.map (·.millis) }
  Session.server fresh routes (.ofKind s.dispatch.strategy s.dispatch.workers)
    s.server.maxConnections s.server.shutdownTimeout.millis

end Settings

namespace Joined

variable {α : Type}

def ofSettings (s : Settings) (registry : Registry α) (routes : Routes α) (peer : String)
    (directory : Directory) (socket : Option String) : Joined α :=
  let ((), server) := (do Session.serve; Session.offer peer 1048576).run (s.newServer registry routes)
  { client := s.newClient registry {} .succeeds, server, socket
    directory := socket.elim directory directory.bind }

/-- The client and the server that settings describe, where nothing can be connected to. -/
def apart (s : Settings) (registry : Registry α) (why : StreamFault) : Joined α :=
  { client := s.newClient registry {} (.fails why), server := s.newServer registry {} }

end Joined
end GraphRpc
