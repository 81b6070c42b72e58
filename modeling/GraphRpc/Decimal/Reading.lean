import GraphRpc.Decimal.Nearest

/-!
# Reading decimals

Numbers in decimal, with nothing around them. A float may have a point anywhere among its digits and
an exponent; infinity, and what is not a number, have names in letters of any case.
-/

namespace GraphRpc.Decimal

def signed : List Char → Bool × List Char
  | '-' :: r => (true, r)
  | '+' :: r => (false, r)
  | r => (false, r)

def value (ds : List Char) : Nat := ds.foldl (fun n c => n * 10 + (c.toNat - 48)) 0

def natural? (ds : List Char) : Option Nat :=
  if ds.isEmpty || !ds.all (·.isDigit) then none else some (value ds)

def integer? (cs : List Char) : Option Int :=
  let (negative, ds) := signed cs
  (natural? ds).map fun n => if negative then -n else n

def word? (s : String) : Option Nat := do
  guard (!s.startsWith "-")
  let n ← natural? (signed s.toList).2
  guard (n < UInt64.size)
  return n

def signedWord? (s : String) : Option Int := do
  let i ← integer? s.toList
  guard (Int64.minValue.toInt ≤ i ∧ i ≤ Int64.maxValue.toInt)
  return i

def float? (s : String) : Option Binary64 :=
  let (negative, cs) := signed s.toList
  let finish := fun x : Binary64 => if negative then x.neg else x
  match (String.ofList cs).toLower with
  | "inf" | "infinity" => some (finish .infinity)
  | "nan" => some .nan
  | _ => do
    let whole := cs.takeWhile (·.isDigit)
    let (fraction, cs) := match cs.dropWhile (·.isDigit) with
      | '.' :: r => (r.takeWhile (·.isDigit), r.dropWhile (·.isDigit))
      | r => ([], r)
    guard (!(whole ++ fraction).isEmpty)
    let e ← match cs with
      | [] => some 0
      | 'e' :: r | 'E' :: r => integer? r
      | _ => none
    return finish (.ofDecimal (value (whole ++ fraction)) (e - fraction.length))

end GraphRpc.Decimal
