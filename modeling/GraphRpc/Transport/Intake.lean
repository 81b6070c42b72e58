import GraphRpc.Transport.Pipe

/-!
# Receive buffers

A reader takes bytes out of a pipe as far as its buffer has room, and looks for frames before it
takes more. The buffer keeps the place of what was taken from its front until it needs that place;
only if it still has too little does it grow, to at least twice its size.
-/

namespace GraphRpc

structure Intake where
  bytes : List UInt8 := []
  taken : Nat := 0
  size : Nat := 8192
deriving DecidableEq, Repr, Inhabited

namespace Intake

def room (i : Intake) : Nat := i.size - i.taken - i.bytes.length

def reserve (i : Intake) (count : Nat) : Intake :=
  let length := i.bytes.length
  if count ≤ i.room then i
  else if length + count ≤ i.size ∧ length ≤ i.taken then { i with taken := 0 }
  else { i with size := max (2 * i.size) (i.taken + length + count) }

theorem le_room_reserve (i : Intake) (count : Nat) : count ≤ (i.reserve count).room := by
  unfold reserve
  dsimp only
  split
  · assumption
  · split <;> simp only [room] <;> omega

theorem bytes_reserve (i : Intake) (count : Nat) : (i.reserve count).bytes = i.bytes := by
  unfold reserve
  dsimp only
  split
  · rfl
  · split <;> rfl

def leave (i : Intake) (rest : List UInt8) : Intake :=
  { i with bytes := rest, taken := i.taken + (i.bytes.length - rest.length) }

def fill (i : Intake) (pipe : Pipe) : Intake × Pipe :=
  let (bytes, pipe) := pipe.read i.room
  ({ i with bytes := i.bytes ++ bytes }, pipe)

end Intake
end GraphRpc
