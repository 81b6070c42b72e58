import GraphRpc.Connection
import GraphRpc.Transport.Intake

/-!
# Reading messages from a stream

A connection takes messages from the front of what it has received, and receives more when a frame
is unfinished. What is wrong is reported once, closes the connection, and ends the reading: bytes
after a fault cannot be told apart, so what is still in the pipe stays there.
-/

namespace GraphRpc

/-- What stands at the front of received bytes. Sizes are those of frame payloads. -/
inductive Arrival (α : Type) where
  | message (size : Nat) (m : Message α) (rest : List UInt8)
  | undecodable (size : Nat) (why : Failure)
  | unframed (why : FrameFault)
  | unfinished (missing : Nat)

namespace Arrival

variable {α : Type}

def next (codec : Codec α) (buffer : List UInt8) : Arrival α :=
  match Frame.parse buffer codec.limits.maxFrameSize with
  | .error (.incomplete missing) => .unfinished missing
  | .error why => .unframed why
  | .ok (frame, used) =>
    match Message.decode codec frame.payload.data.toList with
    | .ok m => .message frame.size m (buffer.drop used)
    | .error why => .undecodable frame.size why

end Arrival

namespace Endpoint

variable {α : Type}

def readFailed (why : Failure) : StateM (Endpoint α) Unit := do
  count Counters.decodeFailed
  fail why
  close

/-- Hand over the messages that come out of `pipe`. The first component of the result is what is left
of an open stream; without one the reading is over and the connection closed. -/
def receive (handOver : Message α → StateM (Endpoint α) Unit) :
    (fuel : Nat) → Intake → Pipe → StateM (Endpoint α) (Option Intake × Pipe)
  | 0, intake, pipe => return (some intake, pipe)
  | fuel + 1, intake, pipe => do
    if ← isClosed then return (none, pipe)
    match Arrival.next (← get).connection.codec intake.bytes with
    | .message size message rest =>
      count (Counters.frameReceived size)
      handOver message
      receive handOver fuel (intake.leave rest) pipe
    | .undecodable size why =>
      count (Counters.frameReceived size)
      readFailed why
      return (none, pipe)
    | .unframed why =>
      readFailed (.frame why)
      return (none, pipe)
    | .unfinished missing =>
      let intake := (intake.reserve missing).reserve 1
      if !pipe.bytes.isEmpty then
        let (intake, pipe) := intake.fill pipe
        receive handOver fuel intake pipe
      else if !pipe.closed then return (some intake, pipe)
      else
        if intake.bytes.isEmpty then close else readFailed (.stream .leftover)
        return (none, pipe)

/-- Every frame takes some bytes out of the buffer, and these came out of the pipe, so that twice the
bytes are fuel enough. -/
def receiveAll (handOver : Message α → StateM (Endpoint α) Unit) (intake : Intake) (pipe : Pipe) :
    StateM (Endpoint α) (Option Intake × Pipe) :=
  receive handOver (intake.bytes.length + 2 * pipe.bytes.length + 1) intake pipe

end Endpoint
end GraphRpc
