/-!
# Lanes

Entries that wait to be dispatched, in lanes of their own order. A lane is idle, scheduled to be
drained, or being drained, so that at most one worker is at it. Shutting down drops whatever waits.
The operations on one lane are each atomic.
-/

namespace GraphRpc

inductive StrategyKind where
  | pooled
  | inline
deriving DecidableEq, Repr, Inhabited

inductive LaneState where
  | idle
  | scheduled
  | draining
deriving DecidableEq, Repr, Inhabited

structure Lane (ε : Type) where
  queue : List ε := []
  state : LaneState := .idle
deriving Repr, Inhabited

namespace Lane

variable {ε : Type}

def push (lane : Lane ε) (entry : ε) : Lane ε := { lane with queue := lane.queue ++ [entry] }

def pop? (lane : Lane ε) : Option (ε × Lane ε) :=
  match lane.queue with
  | [] => none
  | entry :: rest => some (entry, { lane with queue := rest })

def clear (lane : Lane ε) : Nat × Lane ε := (lane.queue.length, { lane with queue := [] })

def enter (lane : Lane ε) (state : LaneState) : Lane ε := { lane with state }

def exchange (lane : Lane ε) (expected state : LaneState) : Bool × Lane ε :=
  if lane.state = expected then (true, lane.enter state) else (false, lane)

end Lane

structure Lanes (ε : Type) where
  lanes : Array (Lane ε)
  shutdown : Bool := false
deriving Inhabited

/-- What a worker finds when it looks for the next entry of its lane. -/
inductive LaneWork (ε : Type) where
  | entry (e : ε)
  | stopped (dropped : Nat)
  | drained

namespace Lanes

variable {ε : Type}

def ofWorkers (workers : Nat) : Lanes ε := { lanes := .replicate (max workers 1) {} }

def size (l : Lanes ε) : Nat := l.lanes.size

def queued (l : Lanes ε) : Nat := l.lanes.foldl (fun n lane => n + lane.queue.length) 0

def laneOf (l : Lanes ε) (connection : Nat) : Nat := connection % l.size

def modify (l : Lanes ε) (k : Nat) (f : Lane ε → Lane ε) : Lanes ε :=
  { l with lanes := l.lanes.modify k f }

/-- Add an entry to lane `k`. The answer says whether the lane now needs a worker, or nothing if the
entry was dropped. -/
def enqueue (l : Lanes ε) (k : Nat) (entry : ε) : Option Bool × Lanes ε :=
  if l.shutdown then (none, l)
  else
    match l.lanes[k]? with
    | none => (some false, l)
    | some lane =>
      let (claimed, lane) := (lane.push entry).exchange .idle .scheduled
      (some claimed, l.modify k fun _ => lane)

def start (l : Lanes ε) (k : Nat) : Lanes ε := l.modify k (·.enter .draining)

/-- The worker at lane `k` looks for work. It leaves the lane idle when there is none. -/
def next (l : Lanes ε) (k : Nat) : LaneWork ε × Lanes ε :=
  match l.lanes[k]? with
  | none => (.drained, l)
  | some lane =>
    if l.shutdown then
      let (dropped, lane) := lane.clear
      (.stopped dropped, l.modify k fun _ => lane.enter .idle)
    else
      match lane.pop? with
      | some (entry, lane) => (.entry entry, l.modify k fun _ => lane)
      | none => (.drained, l.modify k (·.enter .idle))

def close (l : Lanes ε) : Nat × Lanes ε :=
  if l.shutdown then (0, l)
  else (l.queued, ⟨l.lanes.map fun lane => lane.clear.2, true⟩)

end Lanes
end GraphRpc
