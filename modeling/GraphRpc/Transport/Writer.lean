import GraphRpc.Connection
import GraphRpc.Transport.Pipe

/-!
# Writing frames to a stream

A writer feeds the frames of the outbound buffer into a buffer of its own, flushes that into the
pipe, and then waits: for the close signal, or for the one permit that any number of new frames
leaves behind. It looks for frames again after every permit.
-/

namespace GraphRpc

inductive WriterState where
  | feeding
  | flushing
  | waiting
  | over
deriving DecidableEq, Repr, Inhabited

structure Writer where
  state : WriterState := .feeding
  /-- Framed bytes that the pipe has not taken yet. -/
  buffer : List UInt8 := []
  /-- A frame that waits for the buffer to be flushed. -/
  held : Option ByteArray := none
  fed : Bool := false
  permit : Bool := false
deriving Inhabited

namespace Writer

/-- From this many bytes on, the buffer is flushed before it takes another frame. -/
def flushThreshold : Nat := 8192

def isBlocked (w : Writer) : Bool := w.state = .feeding && w.held.isSome || w.state = .flushing

end Writer

namespace Endpoint

variable {α : Type}

def popFrame : StateM (Endpoint α) (Option ByteArray) :=
  modifyGet fun e =>
    match e.connection.outbound.pop? with
    | some (frame, outbound) =>
      (some frame.bytes, { e with connection := { e.connection with outbound } })
    | none => (none, e)

def writeFailed (why : Failure) (w : Writer) (pipe : Pipe) : StateM (Endpoint α) (Writer × Pipe) := do
  fail why
  return ({ w with state := .over }, pipe)

/-- Write on until the pipe is full or there is nothing to write. -/
def transmit : (fuel : Nat) → Writer → Pipe → StateM (Endpoint α) (Writer × Pipe)
  | 0, w, pipe => return (w, pipe)
  | fuel + 1, w, pipe => do
    match w.state with
    | .over => return (w, pipe)
    | .waiting =>
      if ← isClosed then
        return ({ w with state := .over }, pipe.close)
      else if w.permit then
        transmit fuel { w with state := .feeding, permit := false } pipe
      else return (w, pipe)
    | .flushing =>
      match pipe.write? w.buffer with
      | none => writeFailed (.stream .brokenPipe) w pipe
      | some (rest, pipe) =>
        if rest.isEmpty then
          transmit fuel { w with state := .waiting, buffer := [], fed := false } pipe
        else return ({ w with buffer := rest }, pipe)
    | .feeding =>
      let frame ← if w.held.isSome then pure w.held else popFrame
      match frame with
      | none => transmit fuel { w with state := if w.fed then .flushing else .waiting } pipe
      | some bytes =>
        let full := Writer.flushThreshold ≤ w.buffer.length
        match if full then pipe.write? w.buffer else some (w.buffer, pipe) with
        | none => writeFailed (.stream .brokenPipe) w pipe
        | some (rest, pipe) =>
          if full && !rest.isEmpty then
            return ({ w with buffer := rest, held := some bytes }, pipe)
          else
            match Frame.build bytes (← get).connection.codec.limits.maxFrameSize with
            | .error why => writeFailed (.frame why) w pipe
            | .ok framed =>
              count (Counters.frameSent bytes.size)
              transmit fuel
                { w with buffer := rest ++ framed.data.toList, held := none, fed := true } pipe

/-- Each frame is fed once, and the writer changes its state a few times in between. -/
def transmitAll (w : Writer) (pipe : Pipe) : StateM (Endpoint α) (Writer × Pipe) := do
  transmit (2 * (← get).connection.outbound.size + 8) w pipe

end Endpoint
end GraphRpc
