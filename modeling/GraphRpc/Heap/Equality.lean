import GraphRpc.Heap

/-!
# Equality of object graphs

Two values are equal as graphs if they agree everywhere and the objects they lead to agree field by
field. A pair of objects that was met before is taken to agree, so the comparison ends on cycles.
Objects that are no records agree only with themselves, within one heap.
-/

namespace GraphRpc

namespace Value

/-- Pairs of handles whose objects were compared or are being compared. -/
abbrev Seen := List (Handle × Handle)

mutual

def agree (objects : Handle → Handle → StateM Seen Bool) : Value → Value → StateM Seen Bool
  | .object x, .object y => objects x y
  | .array as, .array bs => agreeItems objects as bs
  | .map as, .map bs => agreeEntries objects as bs
  | a, b => pure (a.eqv b)

def agreeItems (objects : Handle → Handle → StateM Seen Bool) :
    List Value → List Value → StateM Seen Bool
  | [], [] => pure true
  | a :: as, b :: bs => do
    if ← agree objects a b then agreeItems objects as bs else pure false
  | _, _ => pure false

def agreeEntries (objects : Handle → Handle → StateM Seen Bool) :
    List (Value × Value) → List (Value × Value) → StateM Seen Bool
  | [], [] => pure true
  | (k, a) :: as, (l, b) :: bs => do
    if ← agree objects k l then
      if ← agree objects a b then agreeEntries objects as bs else pure false
    else pure false
  | _, _ => pure false

end

def agreeFields (objects : Handle → Handle → StateM Seen Bool) :
    List (String × Value) → List (String × Value) → StateM Seen Bool
  | [], [] => pure true
  | (n, a) :: as, (m, b) :: bs => do
    if n = m then
      if ← agree objects a b then agreeFields objects as bs else pure false
    else pure false
  | _, _ => pure false

end Value

namespace Heap

variable {α : Type}

/-- Compare the objects behind two handles, descending through at most `fuel` pairs of objects.
`one` says that the two heaps are one and the same. -/
def objectsAgree (left right : Heap α) (one : Bool) :
    (fuel : Nat) → Handle → Handle → StateM Value.Seen Bool
  | 0, _, _ => pure true
  | fuel + 1, x, y => do
    let seen : List (Handle × Handle) ← get
    if (x, y) ∈ seen then
      pure true
    else
      modify ((x, y) :: ·)
      if left.typeName? x = right.typeName? y then
        match left.record? x, right.record? y with
        | some r, some s => Value.agreeFields (objectsAgree left right one fuel) r.fields s.fields
        | none, none => pure (one && x == y)
        | _, _ => pure false
      else pure false

/-- Each descent meets a new pair of existing slots, so this much fuel is never used up. -/
def comparisonFuel (left right : Heap α) : Nat := left.size * right.size + 1

def valuesAgree (left right : Heap α) (one : Bool) (a b : Value) : Bool :=
  (Value.agree (objectsAgree left right one (comparisonFuel left right)) a b).run [] |>.1

/-- Equality of the graphs below `a` in `left` and `b` in `right`, two heaps of their own. -/
def graphEq (left : Heap α) (a : Value) (right : Heap α) (b : Value) : Bool :=
  valuesAgree left right false a b

def graphEqWithin (heap : Heap α) (a b : Value) : Bool := valuesAgree heap heap true a b

end Heap
end GraphRpc
