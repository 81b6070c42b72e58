import GraphRpc.Decimal.Nearest

/-!
# Floats as decimals

The shortest decimal that reads back as a float, and of those the nearest to it. All floats from
halfway to the float below up to halfway to the float above read back as it; the ends do if its
significand is even. The coarsest decimal grid with a point there holds the shortest decimal.
-/

namespace GraphRpc.Decimal

/-- A positive float in quarters of its last place, which are `2 ^ exponent` each, and the ends of
the interval that reads back as it. -/
structure Span where
  low : Nat
  value : Nat
  high : Nat
  exponent : Int
  closed : Bool

/-- The span of a positive finite float. Below a power of two the floats lie twice as close. -/
def Span.ofBinary64 (x : Binary64) : Span :=
  let biased := x.bits.toNat >>> 52 % 0x800
  let fraction := x.bits.toNat % 0x10000000000000
  let m := if biased = 0 then fraction else fraction + 0x10000000000000
  let below := if fraction = 0 ∧ 1 < biased then 1 else 2
  { low := 4 * m - below, value := 4 * m, high := 4 * m + 2
    exponent := (max biased 1 : Nat) - 1077, closed := m % 2 = 0 }

/-- The multiple of `10 ^ e` in the span that is nearest to the value, if there is one. -/
def Span.gridPoint? (s : Span) (e : Int) : Option Nat :=
  let num := Nat.pow 10 (-e).toNat <<< s.exponent.toNat
  let den := Nat.pow 10 e.toNat <<< (-s.exponent).toNat
  let inside := fun k =>
    if s.closed then s.low * num ≤ k * den && k * den ≤ s.high * num
    else s.low * num < k * den && k * den < s.high * num
  let k := s.value * num / den
  match inside k, inside (k + 1) with
  | true, true => if 2 * (s.value * num) < (2 * k + 1) * den then some k else some (k + 1)
  | true, false => some k
  | false, true => some (k + 1)
  | false, false => none

def Span.search (s : Span) : (fuel : Nat) → Int → Nat × Int
  | 0, e => (0, e)
  | fuel + 1, e =>
    match s.gridPoint? e with
    | some k => (k, e)
    | none => s.search fuel (e - 1)

/-- Digits and exponent of the shortest decimal of a positive finite float. -/
def shortest (x : Binary64) : Nat × Int := (Span.ofBinary64 x).search 700 309

/-- A decimal without an exponent. -/
def positional (digits : Nat) (e : Int) : String :=
  let ds := Nat.toDigits 10 digits
  if 0 ≤ e then String.ofList (ds ++ List.replicate e.toNat '0')
  else
    let places := (-e).toNat
    let ds := List.replicate (places + 1 - ds.length) '0' ++ ds
    String.ofList (ds.take (ds.length - places)) ++ "." ++
      String.ofList (ds.drop (ds.length - places))

/-- A float in full. What stands for the fraction of a whole number is `whole`. -/
def text (whole : String) (x : Binary64) : String :=
  let magnitude : Binary64 := ⟨x.bits &&& 0x7fffffffffffffff⟩
  let sign := if magnitude = x then "" else "-"
  if x.isNaN then "NaN"
  else if magnitude = .infinity then sign ++ "inf"
  else if x.isZero then sign ++ "0" ++ whole
  else
    let (digits, e) := shortest magnitude
    sign ++ positional digits e ++ if 0 ≤ e then whole else ""

end GraphRpc.Decimal
