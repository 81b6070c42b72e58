/-!
# Big-endian numbers

A number of `width` bytes is written with its most significant byte first. Reading inverts
writing below `256 ^ width`, and writing inverts reading at the same width.
-/

namespace GraphRpc

/-- The largest number that a 32-bit length or identifier can carry. -/
def maxWord : Nat := UInt32.size - 1

namespace Binary

/-- The last `width` base-256 digits of `n`, most significant first. -/
def bigEndian : (width : Nat) → (n : Nat) → List UInt8
  | 0, _ => []
  | width + 1, n => bigEndian width (n / 256) ++ [UInt8.ofNat n]

def value (digits : List UInt8) : Nat :=
  digits.foldl (fun n digit => n * 256 + digit.toNat) 0

@[simp]
theorem length_bigEndian (width n : Nat) : (bigEndian width n).length = width := by
  induction width generalizing n with
  | zero => rfl
  | succ width ih => simp [bigEndian, ih]

theorem value_append_singleton (digits : List UInt8) (d : UInt8) :
    value (digits ++ [d]) = value digits * 256 + d.toNat := by
  simp [value]

end Binary
end GraphRpc
