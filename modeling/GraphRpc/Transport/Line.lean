import GraphRpc.Transport.Intake
import GraphRpc.Transport.Writer

/-!
# Lines

A line is what carries a connection: a pipe each way between its near end, where a reader and a
writer serve the connection, and its far end, where someone sends bytes and takes frames as they
come.
-/

namespace GraphRpc

inductive ConnectOutcome where
  | succeeds
  | hangs
  | fails (why : StreamFault)
deriving DecidableEq, Repr, Inhabited

structure ConnectPlan where
  outcome : ConnectOutcome := .succeeds
  delay : Millis := 0
  limit : Millis := 5000
deriving DecidableEq, Repr, Inhabited

inductive LinePhase where
  | idle
  | connecting (plan : ConnectPlan) (since : Option Millis)
  | attached
  | running
  | over
deriving DecidableEq, Repr, Inhabited

structure Line where
  phase : LinePhase := .idle
  toNear : Pipe := {}
  toFar : Pipe := {}
  /-- What the reader has got and not handed over. Without it the reader is over. -/
  reading : Option Intake := some {}
  /-- Whether the reader waits for bytes, or for the connection to close. -/
  readerWaits : Bool := false
  writer : Writer := {}
  polls : Nat := 0
  /-- What the far end has got and not taken as frames. -/
  farBuffer : List UInt8 := []
  farEnded : Bool := false
  farDropped : Bool := false
deriving Inhabited

inductive SendResult where
  | sent (count : Nat)
  | brokenPipe
  | blocked
  | dropped
deriving DecidableEq, Repr, Inhabited

structure FarReport (α : Type) where
  /-- Messages, or the payloads of frames that carry none. -/
  frames : List (ByteArray ⊕ Message α)
  unfinished : List UInt8
  ended : Bool

namespace Line

variable {α : Type}

def ofCapacity (capacity : Nat) (phase : LinePhase) : Line :=
  { phase, toNear := { capacity }, toFar := { capacity } }

/-- A line whose near end was never taken. -/
def closeNear (line : Line) : Line :=
  { line with phase := .over, toNear := line.toNear.close, toFar := line.toFar.close }

def wantsBytes (line : Line) : Bool := line.phase = .running && line.readerWaits

def wantsRoom (line : Line) : Bool := line.phase = .running && line.writer.isBlocked

def wantsFrame (line : Line) : Bool :=
  line.phase = .running && line.writer.state = .waiting && !line.writer.permit

def wantsClose (line : Line) : Bool :=
  line.phase = .running && (line.readerWaits || line.writer.state = .waiting)

def isConnecting (line : Line) : Bool :=
  match line.phase with
  | .connecting .. => true
  | _ => false

def isDone (line : Line) : Bool := line.reading.isNone && line.writer.state = .over

/-! ## The far end -/

def shut (line : Line) : Line := { line with toNear := line.toNear.close }

def drop (line : Line) : Line :=
  { line with
    farDropped := true
    farBuffer := []
    toNear := line.toNear.close
    toFar := line.toFar.close }

def receive (line : Line) : Line :=
  if line.farDropped then line
  else
    let (bytes, toFar) := line.toFar.readAll
    { line with farBuffer := line.farBuffer ++ bytes, farEnded := toFar.closed, toFar }

def report (codec : Codec α) (line : Line) : FarReport α × Line :=
  if line.farDropped then (⟨[], [], false⟩, line)
  else
    let bytes := line.farBuffer
    let (frames, rest, _) := Frame.drain codec.limits.maxFrameSize bytes
    let read := fun frame : Frame => match Message.decode codec frame.payload.data.toList with
      | .ok m => .inr m
      | .error _ => .inl frame.payload
    (⟨frames.map read, rest, line.farEnded⟩, { line with farBuffer := rest })

end Line
end GraphRpc
