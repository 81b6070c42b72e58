import GraphRpc.Codec

/-!
# Encoding

An encoder writes values to the end of its output. The first time it meets an object it numbers it
and writes it in full; later it writes a reference to that number, also from within the object
itself. Numbers outlive the value in which they were given, and also a value that failed.
-/

namespace GraphRpc

structure Encoder where
  out : ByteArray
  /-- The objects met so far. The position of an object is its number on the wire. -/
  met : Array Handle

/-- Encoding keeps what was written and numbered before a failure. -/
abbrev EncodeM := EStateM CodecFault Encoder

namespace Encoder

def start : Encoder := ⟨.empty, #[]⟩

def fresh (e : Encoder) : Encoder := { e with out := .empty }

end Encoder

namespace EncodeM

def putBytes (data : ByteArray) : EncodeM Unit :=
  modify fun e => { e with out := e.out ++ data }

def putByte (b : UInt8) : EncodeM Unit :=
  modify fun e => { e with out := e.out.push b }

def putTag (tag : Tag) : EncodeM Unit := putByte tag.byte

def putNat (width n : Nat) : EncodeM Unit := putBytes (Binary.bigEndian width n).toByteArray

def checkLimit (what : Measure) (len max : Nat) : EncodeM Unit :=
  if len > max ∨ len > maxWord then throw (.sizeLimit what len max) else pure ()

def putText (what : Measure) (s : String) (max : Nat) : EncodeM Unit := do
  checkLimit what s.utf8ByteSize max
  putNat 4 s.utf8ByteSize
  putBytes s.toUTF8

end EncodeM

namespace Codec

open EncodeM

variable {α : Type}

def assignNumber (h : Handle) : EncodeM UInt32 :=
  modifyGet fun e => (UInt32.ofNat e.met.size, { e with met := e.met.push h })

/-- Write a value with `room` for that many further levels of nesting. -/
def encodeAt (codec : Codec α) (heap : Heap α) (room : Nat) (v : Value) : EncodeM Unit :=
  match v with
  | .null => putTag .null
  | .bool b => do
    putTag .bool
    putByte (if b then 1 else 0)
  | .i8 n => do
    putTag .i8
    putNat 1 n.toUInt8.toNat
  | .i16 n => do
    putTag .i16
    putNat 2 n.toUInt16.toNat
  | .i32 n => do
    putTag .i32
    putNat 4 n.toUInt32.toNat
  | .i64 n => do
    putTag .i64
    putNat 8 n.toUInt64.toNat
  | .f32 x => do
    putTag .f32
    putNat 4 x.bits.toNat
  | .f64 x => do
    putTag .f64
    putNat 8 x.bits.toNat
  | .str s => do
    putTag .str
    putText .string s codec.limits.maxStringLen
  | .bytes data => do
    checkLimit .bytes data.size codec.limits.maxBytesLen
    putTag .bytes
    putNat 4 data.size
    putBytes data
  | .array items =>
    match room with
    | 0 => throw codec.tooDeep
    | room + 1 => do
      checkLimit .array items.length codec.limits.maxCollectionLen
      putTag .array
      putNat 4 items.length
      items.forM (encodeAt codec heap room)
  | .map entries =>
    match room with
    | 0 => throw codec.tooDeep
    | room + 1 => do
      checkLimit .map entries.length codec.limits.maxCollectionLen
      putTag .map
      putNat 4 entries.length
      entries.forM fun (k, v) => do
        encodeAt codec heap room k
        encodeAt codec heap room v
  | .object h => do
    match (← get).met.idxOf? h with
    | some number =>
      putTag .objectRef
      putNat 4 number
    | none =>
      match room with
      | 0 => throw codec.tooDeep
      | room + 1 =>
        let some slot := heap.slot? h | throw (.invalid (.danglingHandle h.index))
        let number ← assignNumber h
        let access ← codec.registry.resolveReader slot.typeName slot.object
        let fields ← access.fields slot.typeName slot.object
        checkLimit .fieldCount fields.length codec.limits.maxFields
        putTag .object
        putText .typeName slot.typeName codec.limits.maxStringLen
        putNat 4 number.toNat
        putNat 4 fields.length
        fields.forM fun field => do
          putText .fieldName field codec.limits.maxStringLen
          let v ← access.get slot.object field
          encodeAt codec heap room v

def encode (codec : Codec α) (heap : Heap α) (v : Value) : EncodeM Unit :=
  codec.encodeAt heap codec.room v

def encodeParams (codec : Codec α) (values : List Value) (heap : Heap α) : EncodeM Unit := do
  checkLimit .parameterCount values.length codec.limits.maxCollectionLen
  putNat 4 values.length
  values.forM (codec.encode heap)

/-- The bytes that an encoding produces from nothing. -/
def bytesOf (action : EncodeM Unit) : Except CodecFault ByteArray :=
  match action.run Encoder.start with
  | .ok _ e => .ok e.out
  | .error fault _ => .error fault

def encodeValue (codec : Codec α) (v : Value) (heap : Heap α) : Except CodecFault ByteArray :=
  bytesOf (codec.encode heap v)

end Codec
end GraphRpc
