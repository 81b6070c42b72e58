import GraphRpc.FieldAccess
import GraphRpc.Text.Quoted

/-!
# Registries

A registry decides which field access serves an object: the one registered last for exactly its
type name, then the matchers in the order of their registration, then the fallback; the first of
these that is capable.
-/

namespace GraphRpc

structure Registry (α : Type) where
  byType : List (String × FieldAccess α)
  matchers : List (FieldAccess α)
  fallback : FieldAccess α

inductive Registration (α : Type) where
  | type (typeName : String) (access : FieldAccess α)
  | matcher (access : FieldAccess α)
  | fallback (access : FieldAccess α)

namespace Registry

variable {α : Type}

def generic : Registry α := ⟨[], [], .record⟩

/-- Later registrations for a type name replace earlier ones, as does a later fallback. -/
def register (registry : Registry α) : Registration α → Registry α
  | .type typeName access =>
    { registry with
      byType := (typeName, access) :: registry.byType.filter (·.1 != typeName) }
  | .matcher access => { registry with matchers := registry.matchers ++ [access] }
  | .fallback access => { registry with fallback := access }

def ofList (registrations : List (Registration α)) : Registry α :=
  registrations.foldl register generic

/-- The accesses that are asked about a type, in order. -/
def candidates (registry : Registry α) (typeName : String) : List (FieldAccess α) :=
  (registry.byType.lookup typeName).toList ++ registry.matchers ++ [registry.fallback]

def resolveReader (registry : Registry α) (typeName : String) (o : Object α) :
    Except CodecFault (FieldAccess α) :=
  match (registry.candidates typeName).find? (·.canRead typeName o) with
  | some access => .ok access
  | none => .error (.fieldAccess (.unreadable typeName))

def resolveWriter (registry : Registry α) (typeName : String) :
    Except CodecFault (FieldAccess α) :=
  match (registry.candidates typeName).find? (·.canWrite typeName) with
  | some access => .ok access
  | none => .error (.fieldAccess (.unconstructible typeName))

def typeNames (registry : Registry α) : List String :=
  (registry.byType.map (·.1)).mergeSort (· ≤ ·)

def describe (registry : Registry α) : String :=
  "FrozenRegistry \x7b types: [" ++ ", ".intercalate (registry.typeNames.map Text.quoted) ++
    "], matchers: " ++ toString registry.matchers.length ++ " \x7d"

end Registry
end GraphRpc
