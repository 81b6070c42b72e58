import Mathlib
import GraphRpc.Proofs.Peers.Serving
import GraphRpc.Transport.Inbound

/-!
# Two peers

Two connections, joined by a stream of bytes in each direction, that call each other. What either of
them does, and what the streams carry, happens in any order. Each writes its frames to one stream and
reads messages from the other, dispatches them in any order, and serves several requests at a time.
How soon it stops reading and writing once it is closed is left open.
-/

namespace GraphRpc

variable {α : Type}

-- ---------------------------------------------------------------------------
-- One side
-- ---------------------------------------------------------------------------

structure Peer (α : Type) where
  traffic : Traffic α
  routes : Routes α
  writing : Bool := true
  reading : Bool := true
  /-- Bytes that were written and are on their way. -/
  sent : List UInt8 := []
  received : List UInt8 := []
  queued : List (Message α) := []
  served : List (Message α) := []
  serving : List (Service α) := []

/-- Deadlines are timers that go off, and whose calls are then told. -/
inductive PeerAction (α : Type) where
  | invoke (method : String) (payload : Payload α) (timeout : Option Millis) (awaited : Bool)
  | close (why : LinkFault)
  /-- Operation `i` takes its next step, in which it sees the calls in `seen`. -/
  | step (i : Nat) (seen : List UInt64)
  | fire (timer : Timer)
  | deliver (i : Nat)
  | pass (ms : Millis)
  | write
  | read
  | dispatch (i : Nat)
  | serve (i : Nat)

namespace Peer

def start (codec : Codec α) (outbound : Outbound) (callTimeout : Option Millis) (routes : Routes α) :
    Peer α where
  traffic := .start codec { outbound with frames := [] } callTimeout
  routes

def endpoint (p : Peer α) : Endpoint α := p.traffic.endpoint

def codec (p : Peer α) : Codec α := p.endpoint.connection.codec

def on (p : Peer α) (a : TrafficAction α) : Peer α := { p with traffic := p.traffic.act a }

def put (p : Peer α) (e : Endpoint α) : Peer α := { p with traffic := { p.traffic with endpoint := e } }

def count (p : Peer α) (f : Counters → Counters) : Peer α := p.put ((Endpoint.count f).run p.endpoint).2

def fail (p : Peer α) (failure : Failure) : Peer α :=
  if p.endpoint.connection.closed then p
  else (p.put ((Endpoint.emit (.faulted failure)).run p.endpoint).2).on (.close .closed)

def readFailed (p : Peer α) (why : Failure) : Peer α :=
  { ((p.count Counters.decodeFailed).fail why).on (.close .closed) with reading := false }

def write (p : Peer α) : Peer α :=
  match p.endpoint.connection.outbound.pop? with
  | none => p
  | some (frame, _) =>
    match Frame.build frame.bytes p.codec.limits.maxFrameSize with
    | .ok framed =>
      { (p.on .pop).count (Counters.frameSent frame.bytes.size) with
        sent := p.sent ++ framed.data.toList }
    | .error why => { (p.on .pop).fail (.frame why) with writing := false }

def read (p : Peer α) : Peer α :=
  match Arrival.next p.codec p.received with
  | .message size m rest =>
    { p.count (Counters.frameReceived size) with received := rest, queued := p.queued ++ [m] }
  | .undecodable size why => (p.count (Counters.frameReceived size)).readFailed why
  | .unframed why => p.readFailed (.frame why)
  | .unfinished _ => p

def dispatch (p : Peer α) (m : Message α) : Peer α :=
  match m.kind with
  | .response | .error => p.on (.answer m)
  | .request => { p with served := p.served ++ [m], serving := p.serving ++ [⟨m, .invoking⟩] }
  | .oneWay =>
    let (outcome, e) := (p.routes.invokeHandlers m).exec p.endpoint
    p.put (e.tally outcome)

def serve (p : Peer α) (i : Nat) (x : Service α) : Peer α :=
  let (phase, e, bytes) := x.step p.routes p.endpoint
  let p := { p.put e with serving := p.serving.set i { x with phase } }
  bytes.elim p fun bytes => p.on (.send bytes)

def act (p : Peer α) : PeerAction α → Peer α
  | .invoke method payload timeout awaited => p.on (.invoke method payload timeout awaited)
  | .close why => p.on (.close (.link why))
  | .step i seen => p.on (.step i seen)
  | .fire timer => p.on (.fire timer)
  | .deliver i => p.on (.deliver i)
  | .pass ms => p.on (.pass ms)
  | .write => if p.writing then p.write else p
  | .read => if p.reading then p.read else p
  | .dispatch i =>
    match p.queued[i]? with
    | none => p
    | some m => dispatch { p.count Counters.dispatched with queued := p.queued.eraseIdx i } m
  | .serve i =>
    match p.serving[i]? with
    | none => p
    | some x => p.serve i x

end Peer

-- ---------------------------------------------------------------------------
-- Both sides
-- ---------------------------------------------------------------------------

structure Pair (α : Type) where
  near : Peer α
  far : Peer α

inductive Side where
  | near | far
deriving DecidableEq, Repr

inductive PairAction (α : Type) where
  | own (side : Side) (a : PeerAction α)
  | carry (side : Side) (count : Nat)

def Peer.carryTo (p q : Peer α) (count : Nat) : Peer α × Peer α :=
  ({ p with sent := p.sent.drop count }, { q with received := q.received ++ p.sent.take count })

namespace Pair

def act (s : Pair α) : PairAction α → Pair α
  | .own .near a => { s with near := s.near.act a }
  | .own .far a => { s with far := s.far.act a }
  | .carry .near count =>
    let (near, far) := s.near.carryTo s.far count
    { near, far }
  | .carry .far count =>
    let (far, near) := s.far.carryTo s.near count
    { near, far }

def run (s : Pair α) (actions : List (PairAction α)) : Pair α := actions.foldl act s

end Pair
end GraphRpc
