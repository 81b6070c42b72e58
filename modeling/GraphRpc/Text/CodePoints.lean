/-!
# Sets of characters

A set of characters is told by the code points where it begins and ends. Below the first of these
all characters are outside, from there up to the second inside, and so on in turns.
-/

namespace GraphRpc.Text

structure CodePoints where
  turns : List Nat

namespace CodePoints

/-- Whether `n` is inside, where `inside` says so for what is below the first turn. -/
def holds (n : Nat) (inside : Bool) : List Nat → Bool
  | [] => inside
  | turn :: turns => if n < turn then inside else holds n (!inside) turns

def contains (s : CodePoints) (c : Char) : Bool := holds c.toNat false s.turns

end CodePoints
end GraphRpc.Text
