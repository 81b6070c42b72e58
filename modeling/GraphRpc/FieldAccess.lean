import GraphRpc.Heap

/-!
# Field access

A field access reads and writes the fields of objects without knowing their representation. The
record access serves every record; a typed access serves one application type through named
accessors; an application may supply any other.
-/

namespace GraphRpc

/-- Reading and writing the fields of the objects of some types. -/
structure FieldAccess (α : Type) where
  canRead : (typeName : String) → Object α → Bool
  fields : (typeName : String) → Object α → Except CodecFault (List String)
  get : Object α → (field : String) → Except CodecFault Value
  canWrite : (typeName : String) → Bool
  /-- An object without content, to be filled through `set`. -/
  construct : (typeName : String) → Except CodecFault (Object α)
  set : Object α → (field : String) → Value → Except CodecFault (Object α)

def recordOwner : String := "record"

def FieldAccess.record {α : Type} : FieldAccess α where
  canRead _ o := o.isRecord
  fields typeName
    | .record r => .ok r.names
    | .app _ => .error (.fieldAccess (.notRecord typeName))
  get
    | .record r, field =>
      match r.get? field with
      | some v => .ok v
      | none => .error (.fieldAccess (.noField recordOwner field))
    | .app _, _ => .error (.fieldAccess (.notRecord recordOwner))
  canWrite _ := true
  construct _ := .ok (.record .empty)
  set
    | .record r, field, v => .ok (.record (r.set field v))
    | .app _, _, _ => .error (.fieldAccess (.notRecord recordOwner))

/-- One named field of an application type `τ`. -/
structure Accessor (τ : Type) where
  name : String
  get : τ → Value
  set : τ → Value → Except CodecFault τ

/-- Access to one application type `τ` among all the instances `α`, under one type name. -/
structure TypedAccess (α τ : Type) where
  typeName : String
  blank : τ
  accessors : List (Accessor τ)
  wrap : τ → α
  unwrap : α → Option τ

namespace TypedAccess

variable {α τ : Type}

def accessor (t : TypedAccess α τ) (field : String) : Except CodecFault (Accessor τ) :=
  match t.accessors.find? (·.name == field) with
  | some a => .ok a
  | none => .error (.fieldAccess (.noField t.typeName field))

def instance? (t : TypedAccess α τ) : Object α → Option τ
  | .record _ => none
  | .app x => t.unwrap x

def instanceOf (t : TypedAccess α τ) (o : Object α) : Except CodecFault τ :=
  match t.instance? o with
  | some x => .ok x
  | none => .error (.fieldAccess (.foreignInstance t.typeName))

/-- Reading asks for the instance before the field, writing for the field before the instance. -/
def toFieldAccess (t : TypedAccess α τ) : FieldAccess α where
  canRead typeName o := typeName == t.typeName && (t.instance? o).isSome
  fields _ _ := .ok (t.accessors.map (·.name))
  get o field := do
    let x ← t.instanceOf o
    return (← t.accessor field).get x
  canWrite typeName := typeName == t.typeName
  construct _ := .ok (.app (t.wrap t.blank))
  set o field v := do
    let a ← t.accessor field
    let x ← t.instanceOf o
    return .app (t.wrap (← a.set x v))

end TypedAccess
end GraphRpc
