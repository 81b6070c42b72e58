import GraphRpc.Lanes
import GraphRpc.Message

/-!
# Strategies

How messages get from a reader to the handlers: at once, or over lanes that workers drain.
-/

namespace GraphRpc

/-- A message and the number of the connection that it came over. -/
abbrev Delivery (α : Type) := Nat × Message α

inductive Strategy (α : Type) where
  | inline (stopped : Bool)
  | pooled (lanes : Lanes (Delivery α))

namespace Strategy

variable {α : Type}

def ofKind (kind : StrategyKind) (workers : Nat) : Strategy α :=
  match kind with
  | .inline => .inline false
  | .pooled => .pooled (.ofWorkers workers)

/-- A strategy where there is a runtime for its workers, or where there is none. -/
def start (runtime : Bool) (kind : StrategyKind) (workers : Nat) : Except Failure (Strategy α) :=
  if kind = .pooled ∧ !runtime then .error .noRuntime else .ok (.ofKind kind workers)

instance : Inhabited (Strategy α) := ⟨.inline false⟩

def isStopped : Strategy α → Bool
  | inline stopped => stopped
  | pooled lanes => lanes.shutdown

def stop : Strategy α → Nat × Strategy α
  | inline _ => (0, inline true)
  | pooled lanes =>
    let (dropped, lanes) := lanes.close
    (dropped, pooled lanes)

end Strategy
end GraphRpc
