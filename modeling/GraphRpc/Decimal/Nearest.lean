import GraphRpc.Ieee

/-!
# Decimals as floats

The float nearest to a decimal. Halfway between two floats the one with the even significand is
taken; beyond the largest float lies infinity.
-/

namespace GraphRpc

namespace Decimal

def roundToEven (num den : Nat) : Nat :=
  let q := num / den
  let r := num % den
  if 2 * r < den then q
  else if den < 2 * r then q + 1
  else q + q % 2

def size (n : Nat) : Nat := (Nat.toDigits 10 n).length

end Decimal

namespace Binary64

def infinity : Binary64 := .ofParts 0 2047 0

def nan : Binary64 := .ofParts 0 2047 0x8000000000000

def neg (x : Binary64) : Binary64 := ⟨x.bits ^^^ 0x8000000000000000⟩

/-- The bits of a positive float are those of its significand, shifted up by its exponent: a
significand that reaches the next power of two carries over by itself. -/
def ofSignificand (significand : Nat) (exponent : Int) : Binary64 :=
  let bits := (exponent + 1074).toNat <<< 52 + significand
  if 2047 <<< 52 ≤ bits then infinity else ⟨UInt64.ofNat bits⟩

/-- The float nearest to `m * 10 ^ e`. -/
def ofDecimal (m : Nat) (e : Int) : Binary64 :=
  if m = 0 ∨ Decimal.size m + e < -330 then ⟨0⟩
  else if 310 < Decimal.size m + e then infinity
  else
    let num := m * Nat.pow 10 e.toNat
    let den := Nat.pow 10 (-e).toNat
    let scaled := fun q : Int => (num <<< (-q).toNat, den <<< q.toNat)
    let q := max ((num.log2 : Int) - den.log2 - 53) (-1074)
    let q := if (scaled q).1 / (scaled q).2 < 0x20000000000000 then q else q + 1
    ofSignificand (Decimal.roundToEven (scaled q).1 (scaled q).2) q

end Binary64
end GraphRpc
