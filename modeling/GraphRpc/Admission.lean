/-!
# Admission

A server admits a limited number of connections. A slot is reserved before a connection is entered,
and released after it was removed.
-/

namespace GraphRpc

structure Admission where
  max : Nat
  reserved : Nat := 0
  active : List Nat := []
deriving DecidableEq, Repr, Inhabited

namespace Admission

def reserve? (a : Admission) : Option Admission :=
  if a.reserved < a.max then some { a with reserved := a.reserved + 1 } else none

def enter (a : Admission) (connection : Nat) : Admission :=
  { a with active := a.active ++ [connection] }

def leave (a : Admission) (connection : Nat) : Admission :=
  { a with active := a.active.erase connection }

def release (a : Admission) : Admission := { a with reserved := a.reserved - 1 }

def size (a : Admission) : Nat := a.active.length

def isEmpty (a : Admission) : Bool := a.active.isEmpty

end Admission
end GraphRpc
