import GraphRpc.Decimal.Reading
import GraphRpc.Decimal.Shortest
import GraphRpc.Text.Pattern

/-!
# Fields in log filters

A filter may ask for a field, and for what the field holds: a truth value, a number, or a text that
fits a pattern. What is asked for is read as the first of these that it can be, and written as what
it was read as.
-/

namespace GraphRpc

inductive LogValue where
  | truth (b : Bool)
  /-- A number with a fraction, or one that is too large for an integer. -/
  | real (x : Binary64)
  | notNumber
  | natural (n : Nat)
  | negative (i : Int)
  | pattern (p : String)
deriving DecidableEq, Repr, Inhabited

/-- A number in the order of all but what is not a number. The two zeros are one. -/
def Binary64.rank (x : Binary64) : Int :=
  let magnitude : Nat := x.bits.toNat % 0x8000000000000000
  if x.bits.toNat < 0x8000000000000000 then magnitude else -magnitude

namespace LogValue

def ofNumber? (s : String) : Option LogValue :=
  (Decimal.word? s).map natural <|> (Decimal.signedWord? s).map negative <|>
    (Decimal.float? s).map fun x => if x.isNaN then notNumber else real x

def ofString? (s : String) : Option LogValue :=
  if s = "true" then some (truth true)
  else if s = "false" then some (truth false)
  else ofNumber? s <|> if Text.isPattern s then some (pattern s) else none

def text : LogValue → String
  | truth b => if b then "true" else "false"
  | real x => Decimal.text "" x
  | notNumber => "NaN"
  | natural n => toString n
  | negative i => toString i
  | pattern p => p

/-- Kinds of values from the least specific one up. -/
def kind : LogValue → Nat
  | truth _ => 0
  | real _ => 1
  | notNumber => 2
  | natural _ => 3
  | negative _ => 4
  | pattern _ => 5

def number : LogValue → Int
  | truth b => if b then 1 else 0
  | real x => x.rank
  | natural n => n
  | negative i => i
  | notNumber | pattern _ => 0

def words : LogValue → String
  | pattern p => p
  | _ => ""

def order (a b : LogValue) : Ordering :=
  (compare a.kind b.kind).then ((compare a.number b.number).then (compare a.words b.words))

end LogValue

structure LogField where
  name : String
  value : Option LogValue := none
deriving DecidableEq, Repr, Inhabited

namespace LogField

/-- The name up to an equals sign, and the value up to another. -/
def ofString? (s : String) : Option LogField :=
  match s.splitOn "=" with
  | name :: value :: _ => (LogValue.ofString? value).map fun v => { name, value := some v }
  | _ => some { name := s }

def text (f : LogField) : String := f.name ++ f.value.elim "" fun v => "=" ++ v.text

def order (a b : LogField) : Ordering :=
  match a.value, b.value with
  | none, none => compare a.name b.name
  | none, some _ => .lt
  | some _, none => .gt
  | some v, some w => (compare a.name b.name).then (v.order w)

end LogField
end GraphRpc
