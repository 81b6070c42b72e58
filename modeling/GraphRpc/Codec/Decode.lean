import GraphRpc.Codec

/-!
# Decoding

A decoder consumes bytes from the front and fills a heap. An object gets its slot before its fields
are read, so a reference within its fields finds it. Objects must arrive numbered from 0 in order;
the number of an object is thus the number of its slot.
-/

namespace GraphRpc

abbrev ReadM := EStateM CodecFault (List UInt8)

namespace ReadM

def take (n : Nat) : ReadM (List UInt8) := fun bytes =>
  let taken := bytes.take n
  if taken.length < n then .error (.invalid .truncated) bytes else .ok taken (bytes.drop n)

def byte : ReadM UInt8 := do
  return (← take 1).headD 0

def nat (width : Nat) : ReadM Nat := do
  return Binary.value (← take width)

def length (what : Measure) (max : Nat) : ReadM Nat := do
  let len ← nat 4
  if len > max then throw (.sizeLimit what len max) else pure len

def text (what : Measure) (max : Nat) : ReadM String := do
  let len ← length what max
  let raw ← take len
  match String.fromUTF8? raw.toByteArray with
  | some s => pure s
  | none => throw (.invalid .notUtf8)

end ReadM

structure Decoder (α : Type) where
  rest : List UInt8
  heap : Heap α

/-- Decoding keeps the bytes that are left and the objects built before a failure. -/
abbrev DecodeM (α : Type) := EStateM CodecFault (Decoder α)

namespace DecodeM

variable {α β : Type}

def read (reader : ReadM β) : DecodeM α β := fun d =>
  match reader d.rest with
  | .ok b rest => .ok b { d with rest }
  | .error fault rest => .error fault { d with rest }

/-- The results of `action`, performed `n` times, after those in `done`, which is reversed. -/
def repeated (action : DecodeM α β) : (n : Nat) → (done : List β) → DecodeM α (List β)
  | 0, done => pure done.reverse
  | n + 1, done => do
    let b ← action
    repeated action n (b :: done)

def insert (typeName : String) (object : Object α) : DecodeM α Handle :=
  modifyGet fun d =>
    let (h, heap) := d.heap.insert typeName object
    (h, { d with heap })

def setField (access : FieldAccess α) (h : Handle) (field : String) (v : Value) :
    DecodeM α Unit := do
  match (← get).heap.object? h with
  | none => throw (.invalid (.vanishedObject h.index))
  | some object =>
    let object ← access.set object field v
    modify fun d => { d with heap := d.heap.setObject h object }

end DecodeM

namespace Codec

open DecodeM

variable {α : Type}

/-- Read a value with `room` for that many further levels of nesting. -/
def decodeAt (codec : Codec α) (room : Nat) : DecodeM α Value := do
  match ← Tag.ofByte (← read .byte) with
  | .null => pure .null
  | .bool =>
    match ← read .byte with
    | 0 => pure (.bool false)
    | 1 => pure (.bool true)
    | b => throw (.invalid (.boolByte b))
  | .i8 => return .i8 (UInt8.ofNat (← read (.nat 1))).toInt8
  | .i16 => return .i16 (UInt16.ofNat (← read (.nat 2))).toInt16
  | .i32 => return .i32 (UInt32.ofNat (← read (.nat 4))).toInt32
  | .i64 => return .i64 (UInt64.ofNat (← read (.nat 8))).toInt64
  | .f32 => return .f32 ⟨UInt32.ofNat (← read (.nat 4))⟩
  | .f64 => return .f64 ⟨UInt64.ofNat (← read (.nat 8))⟩
  | .str => return .str (← read (.text .string codec.limits.maxStringLen))
  | .bytes => do
    let len ← read (.length .bytes codec.limits.maxBytesLen)
    return .bytes (← read (.take len)).toByteArray
  | .array =>
    match room with
    | 0 => throw codec.tooDeep
    | room + 1 => do
      let count ← read (.length .array codec.limits.maxCollectionLen)
      return .array (← repeated (decodeAt codec room) count [])
  | .map =>
    match room with
    | 0 => throw codec.tooDeep
    | room + 1 => do
      let count ← read (.length .map codec.limits.maxCollectionLen)
      let entry : DecodeM α (Value × Value) := do
        let k ← decodeAt codec room
        let v ← decodeAt codec room
        return (k, v)
      return .map (← repeated entry count [])
  | .objectRef => do
    let number ← read (.nat 4)
    if number < (← get).heap.size then
      return .object (.ofSlot number)
    else throw (.unresolvedReference (UInt32.ofNat number))
  | .object =>
    match room with
    | 0 => throw codec.tooDeep
    | room + 1 => do
      let typeName ← read (.text .typeName codec.limits.maxStringLen)
      let number ← read (.nat 4)
      let expected := (← get).heap.size
      if number ≠ expected then
        throw (.invalid (.idOutOfSequence (UInt32.ofNat number) expected))
      let access ← codec.registry.resolveWriter typeName
      let h ← insert typeName (← access.construct typeName)
      let count ← read (.length .fieldCount codec.limits.maxFields)
      let field : DecodeM α Unit := do
        let name ← read (.text .fieldName codec.limits.maxStringLen)
        let v ← decodeAt codec room
        setField access h name v
      let _ ← repeated field count []
      return .object h

def decode (codec : Codec α) : DecodeM α Value := codec.decodeAt codec.room

/-- The heap of a decoder that has consumed all of its bytes. -/
def finish (d : Decoder α) : Except CodecFault (Heap α) :=
  if d.rest.isEmpty then .ok d.heap else .error (.invalid (.trailing d.rest.length))

def decodeAll {β : Type} (action : DecodeM α β) (bytes : List UInt8) :
    Except CodecFault (β × Heap α) :=
  match action ⟨bytes, .empty⟩ with
  | .ok b d => (finish d).map (b, ·)
  | .error fault _ => .error fault

def decodeValue (codec : Codec α) (bytes : List UInt8) : Except CodecFault (Value × Heap α) :=
  decodeAll codec.decode bytes

def decodeParams (codec : Codec α) (bytes : List UInt8) :
    Except CodecFault (List Value × Heap α) :=
  decodeAll (do
    let count ← read (.length .parameterCount codec.limits.maxCollectionLen)
    repeated codec.decode count []) bytes

end Codec
end GraphRpc
