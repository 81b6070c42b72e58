import GraphRpc.Failure

/-!
# Waiting

Times and durations of the virtual clock, in milliseconds, and waiting under a limit.
-/

namespace GraphRpc

/-- Milliseconds of the virtual clock. -/
abbrev Millis := Nat

def drainPollInterval : Millis := 50

/-- The outcome, and the time it comes, of work that ends with `result` after `needed`, given up
after `limit`. Work that ends just at the limit is in time. -/
def waitAtMost {β : Type} (limit needed : Millis) (result : Except Failure β) :
    Millis × Except Failure β :=
  if needed ≤ limit then (needed, result) else (limit, .error (.call .timedOut))

end GraphRpc
