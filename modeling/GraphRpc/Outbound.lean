import GraphRpc.Failure

/-!
# Outbound buffers

Frames wait here, in the order in which they were sent, until the transport takes them. A policy
says what happens when there is no room for one more.
-/

namespace GraphRpc

inductive OverflowPolicy where
  | unbounded
  | dropOldest
  | rejectNew
deriving DecidableEq, Repr, Inhabited

structure OutboundFrame where
  /-- The call that the frame issues, if it is one. -/
  callId : Option UInt64
  bytes : ByteArray
deriving Inhabited

structure Outbound where
  policy : OverflowPolicy := .unbounded
  /-- Room in frames, which only the bounded policies heed. -/
  capacity : Nat := 1024
  frames : List OutboundFrame := []
deriving Inhabited

namespace Outbound

def size (o : Outbound) : Nat := o.frames.length

def isFull (o : Outbound) : Bool := o.capacity ≤ o.size

/-- Add a frame at the end. The first component is the frame that made room, if any. -/
def push (o : Outbound) (frame : OutboundFrame) :
    Except LinkFault (Option OutboundFrame × Outbound) :=
  if o.policy = .rejectNew ∧ o.isFull then
    .error (.bufferFull o.capacity)
  else if o.policy = .dropOldest ∧ o.isFull then
    .ok (o.frames.head?, { o with frames := o.frames.tail ++ [frame] })
  else
    .ok (none, { o with frames := o.frames ++ [frame] })

def pop? (o : Outbound) : Option (OutboundFrame × Outbound) :=
  match o.frames with
  | [] => none
  | frame :: rest => some (frame, { o with frames := rest })

/-- Drop all frames. The answer is how many there were. -/
def clear (o : Outbound) : Nat × Outbound := (o.size, { o with frames := [] })

end Outbound
end GraphRpc
