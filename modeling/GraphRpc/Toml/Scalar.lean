import GraphRpc.Decimal.Reading
import GraphRpc.Toml.Basic

/-!
# Numbers and times

What an unquoted value may be: a truth value, an integer, a float, a date or a time. Underscores
stand between digits only. An integer has 64 bits, and a float that is too large is refused.
-/

namespace GraphRpc.Toml

def digits? (isDigit : Char → Bool) : List Char → Option (List Char)
  | [] => none
  | [c] => if isDigit c then some [c] else none
  | c :: '_' :: rest => if isDigit c then (digits? isDigit rest).map (c :: ·) else none
  | c :: d :: rest => if isDigit c then (digits? isDigit (d :: rest)).map (c :: ·) else none

def digitValue (c : Char) : Nat :=
  if c.isDigit then c.toNat - 48 else c.toLower.toNat - 87

def number (base : Nat) (ds : List Char) : Nat := ds.foldl (fun n c => n * base + digitValue c) 0

def isHexDigit (c : Char) : Bool :=
  c.isDigit || ('a' ≤ c && c ≤ 'f') || ('A' ≤ c && c ≤ 'F')

/-- Decimal digits that begin with zero only if they are zero. -/
def wholePart? (cs : List Char) : Option (List Char) :=
  match digits? Char.isDigit cs with
  | some ('0' :: _ :: _) => none
  | ds => ds

def bounded (n : Int) : Option Value :=
  if Int64.minValue.toInt ≤ n ∧ n ≤ Int64.maxValue.toInt then some (.integer n) else none

def integer? (cs : List Char) : Option Value :=
  match cs with
  | '0' :: 'x' :: r => (digits? isHexDigit r).bind fun ds => bounded (number 16 ds)
  | '0' :: 'o' :: r => (digits? (fun c => '0' ≤ c && c ≤ '7') r).bind fun ds => bounded (number 8 ds)
  | '0' :: 'b' :: r => (digits? (fun c => c = '0' || c = '1') r).bind fun ds => bounded (number 2 ds)
  | cs =>
    let (negative, r) := Decimal.signed cs
    (wholePart? r).bind fun ds =>
      let n : Int := number 10 ds
      bounded (if negative then -n else n)

/-- Split at the first character that satisfies `p`, which belongs to neither side. -/
def splitAt (p : Char → Bool) (cs : List Char) : List Char × Option (List Char) :=
  match cs.dropWhile (!p ·) with
  | [] => (cs, none)
  | _ :: rest => (cs.takeWhile (!p ·), some rest)

def exponent? (cs : List Char) : Option Int :=
  let (negative, r) := Decimal.signed cs
  (digits? Char.isDigit r).map fun ds =>
    let n : Int := number 10 ds
    if negative then -n else n

def float? (cs : List Char) : Option Value :=
  let (negative, r) := Decimal.signed cs
  let finish := fun x : Binary64 => Value.float (if negative then x.neg else x)
  match r with
  | ['i', 'n', 'f'] => some (finish .infinity)
  | ['n', 'a', 'n'] => some (finish .nan)
  | r => do
    let (mantissa, exponent) := splitAt (fun c => c = 'e' || c = 'E') r
    let (whole, fraction) := splitAt (· = '.') mantissa
    if exponent.isNone ∧ fraction.isNone then none
    let whole ← wholePart? whole
    let fraction ← (fraction.map (digits? Char.isDigit)).getD (some [])
    let e ← (exponent.map exponent?).getD (some 0)
    let x := Binary64.ofDecimal (number 10 (whole ++ fraction)) (e - fraction.length)
    if x = .infinity ∧ !negative then none
    return finish x

/-! ## Dates and times -/

def twoDigits? (low high : Nat) : List Char → Option Nat
  | [a, b] =>
    let n := number 10 [a, b]
    if a.isDigit && b.isDigit && low ≤ n && n ≤ high then some n else none
  | _ => none

def daysIn (year month : Nat) : Nat :=
  if month = 2 then
    if year % 4 = 0 ∧ (year % 100 ≠ 0 ∨ year % 400 = 0) then 29 else 28
  else if month = 4 ∨ month = 6 ∨ month = 9 ∨ month = 11 then 30
  else 31

def isDate : List Char → Bool
  | [y1, y2, y3, y4, '-', m1, m2, '-', d1, d2] =>
    let year := [y1, y2, y3, y4]
    year.all (·.isDigit) &&
      match twoDigits? 1 12 [m1, m2] with
      | some month => (twoDigits? 1 (daysIn (number 10 year) month) [d1, d2]).isSome
      | none => false
  | _ => false

def isOffset : List Char → Bool
  | ['Z'] | ['z'] => true
  | [s, h1, h2, ':', m1, m2] =>
    (s = '+' || s = '-') && (twoDigits? 0 23 [h1, h2]).isSome && (twoDigits? 0 59 [m1, m2]).isSome
  | _ => false

def isTime (withOffset : Bool) : List Char → Bool
  | h1 :: h2 :: ':' :: m1 :: m2 :: ':' :: s1 :: s2 :: rest =>
    let ends := fun r => r.isEmpty || withOffset && isOffset r
    (twoDigits? 0 23 [h1, h2]).isSome && (twoDigits? 0 59 [m1, m2]).isSome &&
      (twoDigits? 0 60 [s1, s2]).isSome &&
      match rest with
      | '.' :: r => r.head?.any (·.isDigit) && ends (r.dropWhile (·.isDigit))
      | r => ends r
  | _ => false

def isDateTime (cs : List Char) : Bool :=
  isDate cs || isTime false cs ||
    match cs.drop 10 with
    | c :: time => (c = 'T' || c = 't' || c = ' ') && isDate (cs.take 10) && isTime true time
    | [] => false

def scalar? (cs : List Char) : Option Value :=
  match cs with
  | ['t', 'r', 'u', 'e'] => some (.boolean true)
  | ['f', 'a', 'l', 's', 'e'] => some (.boolean false)
  | cs => if isDateTime cs then some (.dateTime (String.ofList cs)) else integer? cs <|> float? cs

def isScalarChar (c : Char) : Bool :=
  c.isAlphanum || c = '+' || c = '-' || c = '.' || c = '_' || c = ':'

/-- Take an unquoted value. A space may stand between a date and a time. -/
def takeScalar (cs : List Char) : Option (Value × List Char) :=
  let token := cs.takeWhile isScalarChar
  let rest := cs.dropWhile isScalarChar
  let (token, rest) :=
    match rest with
    | ' ' :: c :: more =>
      if isDate token && c.isDigit then
        (token ++ ' ' :: (c :: more).takeWhile isScalarChar, (c :: more).dropWhile isScalarChar)
      else (token, rest)
    | _ => (token, rest)
  (scalar? token).map fun v => (v, rest)

end GraphRpc.Toml
