/-!
# Pipes

One direction of a stream in memory: bytes go in at one end, as far as there is room, and come out
at the other in the same order. Either end closes it; what is in it can still be read.
-/

namespace GraphRpc

structure Pipe where
  capacity : Nat := 1048576
  bytes : List UInt8 := []
  closed : Bool := false
deriving DecidableEq, Repr, Inhabited

namespace Pipe

def room (p : Pipe) : Nat := p.capacity - p.bytes.length

/-- Put in as much as there is room for. The rest is handed back; a closed pipe takes nothing. -/
def write? (p : Pipe) (data : List UInt8) : Option (List UInt8 × Pipe) :=
  if data.isEmpty then some ([], p)
  else if p.closed then none
  else some (data.drop p.room, { p with bytes := p.bytes ++ data.take p.room })

def read (p : Pipe) (count : Nat) : List UInt8 × Pipe :=
  (p.bytes.take count, { p with bytes := p.bytes.drop count })

def readAll (p : Pipe) : List UInt8 × Pipe := (p.bytes, { p with bytes := [] })

def close (p : Pipe) : Pipe := { p with closed := true }

end Pipe
end GraphRpc
