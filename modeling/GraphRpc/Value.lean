import GraphRpc.Failure
import GraphRpc.Ieee

/-!
# Values

A value is a scalar, a container, or a handle to an object in the heap that travels with it.
Handles are plain indices, so object graphs may be cyclic and shared.
-/

namespace GraphRpc

/-- Index of an object in a heap. The slot it names need not exist. -/
structure Handle where
  index : UInt32
deriving DecidableEq, Repr, Inhabited, Hashable

namespace Handle

def slot (h : Handle) : Nat := h.index.toNat

def ofSlot (n : Nat) : Handle := ⟨UInt32.ofNat n⟩

instance : ToString Handle := ⟨fun h => s!"#{h.index}"⟩

end Handle

inductive Value where
  | null
  | bool (b : Bool)
  | i8 (n : Int8)
  | i16 (n : Int16)
  | i32 (n : Int32)
  | i64 (n : Int64)
  | f32 (x : Binary32)
  | f64 (x : Binary64)
  | str (s : String)
  | bytes (data : ByteArray)
  | array (items : List Value)
  /-- Key and value pairs in order. Keys may be any value and may repeat. -/
  | map (entries : List (Value × Value))
  | object (h : Handle)
deriving Inhabited

namespace Value

def kind : Value → Kind
  | null => .null
  | bool _ => .bool
  | i8 _ => .i8
  | i16 _ => .i16
  | i32 _ => .i32
  | i64 _ => .i64
  | f32 _ => .f32
  | f64 _ => .f64
  | str _ => .str
  | bytes _ => .bytes
  | array _ => .array
  | map _ => .map
  | object _ => .object

def isNull : Value → Bool
  | null => true
  | _ => false

def bool? : Value → Option Bool
  | bool b => some b
  | _ => none

def int? : Value → Option Int64
  | i8 n => some n.toInt64
  | i16 n => some n.toInt64
  | i32 n => some n.toInt64
  | i64 n => some n
  | _ => none

def int32? (v : Value) : Option Int32 :=
  v.int?.bind fun n => if n.toInt32.toInt64 = n then some n.toInt32 else none

def float? : Value → Option Binary64
  | f32 x => some x.widen
  | f64 x => some x
  | _ => none

def str? : Value → Option String
  | str s => some s
  | _ => none

def bytes? : Value → Option ByteArray
  | bytes data => some data
  | _ => none

def array? : Value → Option (List Value)
  | array items => some items
  | _ => none

def object? : Value → Option Handle
  | object h => some h
  | _ => none

/-- The outcome of a partial conversion, which on failure names what was wanted and found. -/
def converted {β : Type} (v : Value) (wanted : Target) (result : Option β) :
    Except CodecFault β :=
  match result with
  | some b => .ok b
  | none => .error (.fieldAccess (.wrongKind wanted v.kind))

def toBool (v : Value) : Except CodecFault Bool := v.converted .bool v.bool?
def toInt64 (v : Value) : Except CodecFault Int64 := v.converted .i64 v.int?
def toInt32 (v : Value) : Except CodecFault Int32 := v.converted .i32 v.int32?
def toBinary64 (v : Value) : Except CodecFault Binary64 := v.converted .f64 v.float?
def toText (v : Value) : Except CodecFault String := v.converted .string v.str?
def toByteArray (v : Value) : Except CodecFault ByteArray := v.converted .bytes v.bytes?
def toHandle (v : Value) : Except CodecFault Handle := v.converted .object v.object?
def toItems (v : Value) : Except CodecFault (List Value) := v.converted .array v.array?

mutual

/-- Equality of values as data: handles by index, floats by the equality of IEEE 754. -/
def eqv : Value → Value → Bool
  | null, null => true
  | bool a, bool b => a == b
  | i8 a, i8 b => a == b
  | i16 a, i16 b => a == b
  | i32 a, i32 b => a == b
  | i64 a, i64 b => a == b
  | f32 a, f32 b => a.ieeeEq b
  | f64 a, f64 b => a.ieeeEq b
  | str a, str b => a == b
  | bytes a, bytes b => a == b
  | array as, array bs => eqvItems as bs
  | map as, map bs => eqvEntries as bs
  | object a, object b => a == b
  | _, _ => false

def eqvItems : List Value → List Value → Bool
  | [], [] => true
  | a :: as, b :: bs => eqv a b && eqvItems as bs
  | _, _ => false

def eqvEntries : List (Value × Value) → List (Value × Value) → Bool
  | [], [] => true
  | (k, a) :: as, (l, b) :: bs => eqv k l && eqv a b && eqvEntries as bs
  | _, _ => false

end

end Value
end GraphRpc
