import GraphRpc.Lanes

/-!
# Crews

A crew is the workers of some lanes with what they have done so far. Every lane has at most one
worker, which holds at most one entry in hand. While the crew is held up nobody puts an entry down.
-/

namespace GraphRpc

structure Crew (ε : Type) where
  lanes : Lanes ε
  inHand : Array (Option ε)
  done : Array (List ε)
  held : Bool := false
  dropped : Nat := 0
deriving Inhabited

namespace Crew

variable {ε : Type}

def ofWorkers (workers : Nat) : Crew ε :=
  let lanes : Lanes ε := .ofWorkers workers
  { lanes, inHand := .replicate lanes.size none, done := .replicate lanes.size [] }

def running (c : Crew ε) : Nat := (c.inHand.toList.filter (·.isSome)).length

def enqueue (c : Crew ε) (connection : Nat) (entry : ε) : Crew ε :=
  let (accepted, lanes) := c.lanes.enqueue (c.lanes.laneOf connection) entry
  { c with lanes, dropped := if accepted.isSome then c.dropped else c.dropped + 1 }

def shutdown (c : Crew ε) : Crew ε :=
  let (dropped, lanes) := c.lanes.close
  { c with lanes, dropped := c.dropped + dropped }

/-- Let the worker of a lane go on, from entry to entry. -/
def work (k : Nat) : (fuel : Nat) → Crew ε → Crew ε
  | 0, c => c
  | fuel + 1, c =>
    match c.inHand[k]?.join with
    | some entry =>
      if c.held then c
      else
        work k fuel
          { c with inHand := c.inHand.set! k none, done := c.done.modify k (· ++ [entry]) }
    | none =>
      let (found, lanes) := c.lanes.next k
      let c := { c with lanes }
      match found with
      | .entry entry => work k fuel { c with inHand := c.inHand.set! k (some entry) }
      | .stopped dropped => { c with dropped := c.dropped + dropped }
      | .drained => c

def visit (c : Crew ε) (k : Nat) : Crew ε :=
  match c.lanes.lanes[k]?.map Lane.state with
  | some .scheduled => work k (2 * c.lanes.queued + 2) { c with lanes := c.lanes.start k }
  | some .draining => work k (2 * c.lanes.queued + 2) c
  | _ => c

/-- Let all workers go on as far as they can. -/
def settle (c : Crew ε) : Crew ε := (List.range c.lanes.size).foldl visit c

end Crew
end GraphRpc
