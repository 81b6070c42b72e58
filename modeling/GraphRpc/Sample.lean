import GraphRpc.Registry

/-!
# Sample applications

Application types to try the library with: a person who may have a friend, so that typed objects
form cycles, and a counter. Two more field accesses show what an application can supply on its own.
-/

namespace GraphRpc.Sample

structure Person where
  name : String
  age : Int64
  friend : Option Handle
deriving DecidableEq, Repr, Inhabited

structure Counter where
  hits : Int64
deriving DecidableEq, Repr, Inhabited

inductive Instance where
  | person (p : Person)
  | counter (c : Counter)
deriving DecidableEq, Repr

namespace Instance

def person? : Instance → Option Person
  | person p => some p
  | counter _ => none

def counter? : Instance → Option Counter
  | counter c => some c
  | person _ => none

end Instance

def ofFriend : Option Handle → Value
  | some h => .object h
  | none => .null

def toFriend (v : Value) : Except CodecFault (Option Handle) :=
  if v.isNull then .ok none else v.toHandle.map some

def person : TypedAccess Instance Person where
  typeName := "User"
  blank := ⟨"", 0, none⟩
  accessors := [
    ⟨"name", fun p => .str p.name, fun p v => return { p with name := ← v.toText }⟩,
    ⟨"age", fun p => .i64 p.age, fun p v => return { p with age := ← v.toInt64 }⟩,
    ⟨"friend", fun p => ofFriend p.friend, fun p v => return { p with friend := ← toFriend v }⟩]
  wrap := .person
  unwrap := Instance.person?

def counter (typeName field : String) : TypedAccess Instance Counter where
  typeName
  blank := ⟨0⟩
  accessors := [⟨field, fun c => .i64 c.hits, fun _ v => return ⟨← v.toInt64⟩⟩]
  wrap := .counter
  unwrap := Instance.counter?

/-- Records of all types whose names start with `start`, with their fields in reverse. An object it
builds carries `maker` in a field. -/
def startingWith (start maker : String) : FieldAccess Instance :=
  { FieldAccess.record with
    canRead := fun typeName o => typeName.startsWith start && o.isRecord
    fields := fun typeName o => (FieldAccess.record.fields typeName o).map List.reverse
    canWrite := fun typeName => typeName.startsWith start
    construct := fun _ => .ok (.record (Record.empty.set "_by" (.str maker))) }

def incapable : FieldAccess Instance where
  canRead _ _ := false
  fields _ _ := .ok []
  get _ _ := .ok .null
  canWrite _ := false
  construct typeName := .error (.fieldAccess (.stated s!"{typeName}: never"))
  set o _ _ := .ok o

end GraphRpc.Sample
