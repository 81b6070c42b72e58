/-!
# Counters

What happened on all connections together. A counter wraps around at 64 bits; the number of active
connections also goes down.
-/

namespace GraphRpc

structure Counters where
  connectionsTotal : UInt64 := 0
  connectionsActive : UInt64 := 0
  framesSent : UInt64 := 0
  framesReceived : UInt64 := 0
  bytesSent : UInt64 := 0
  bytesReceived : UInt64 := 0
  callsIssued : UInt64 := 0
  oneWayIssued : UInt64 := 0
  callsCompleted : UInt64 := 0
  callsTimedOut : UInt64 := 0
  /-- Calls that ended with any failure but a missed deadline. -/
  callsFailed : UInt64 := 0
  dispatches : UInt64 := 0
  dispatchErrors : UInt64 := 0
  entriesDropped : UInt64 := 0
  decodeErrors : UInt64 := 0
deriving DecidableEq, Repr, Inhabited

namespace Counters

def connectionEstablished (c : Counters) : Counters :=
  { c with
    connectionsTotal := c.connectionsTotal + 1
    connectionsActive := c.connectionsActive + 1 }

def connectionClosed (c : Counters) : Counters :=
  { c with connectionsActive := c.connectionsActive - 1 }

def frameSent (size : Nat) (c : Counters) : Counters :=
  { c with framesSent := c.framesSent + 1, bytesSent := c.bytesSent + UInt64.ofNat size }

def frameReceived (size : Nat) (c : Counters) : Counters :=
  { c with
    framesReceived := c.framesReceived + 1
    bytesReceived := c.bytesReceived + UInt64.ofNat size }

def callIssued (c : Counters) : Counters := { c with callsIssued := c.callsIssued + 1 }

def oneWayWasIssued (c : Counters) : Counters := { c with oneWayIssued := c.oneWayIssued + 1 }

def callCompleted (c : Counters) : Counters := { c with callsCompleted := c.callsCompleted + 1 }

def callTimedOut (c : Counters) : Counters := { c with callsTimedOut := c.callsTimedOut + 1 }

def callFailed (c : Counters) : Counters := { c with callsFailed := c.callsFailed + 1 }

def dispatched (c : Counters) : Counters := { c with dispatches := c.dispatches + 1 }

def dispatchFailed (c : Counters) : Counters := { c with dispatchErrors := c.dispatchErrors + 1 }

def dropped (count : Nat) (c : Counters) : Counters :=
  { c with entriesDropped := c.entriesDropped + UInt64.ofNat count }

def decodeFailed (c : Counters) : Counters := { c with decodeErrors := c.decodeErrors + 1 }

def toList (c : Counters) : List (String × UInt64) := [
  ("connections_total", c.connectionsTotal),
  ("connections_active", c.connectionsActive),
  ("frames_sent", c.framesSent),
  ("frames_received", c.framesReceived),
  ("bytes_sent", c.bytesSent),
  ("bytes_received", c.bytesReceived),
  ("calls_issued", c.callsIssued),
  ("one_way_issued", c.oneWayIssued),
  ("calls_completed", c.callsCompleted),
  ("calls_timed_out", c.callsTimedOut),
  ("calls_failed", c.callsFailed),
  ("dispatches", c.dispatches),
  ("dispatch_errors", c.dispatchErrors),
  ("entries_dropped", c.entriesDropped),
  ("decode_errors", c.decodeErrors)]

end Counters
end GraphRpc
