import Mathlib
import GraphRpc.Message
import GraphRpc.Proofs.Checked.Cursor
import GraphRpc.Proofs.Heap

/-!
# Checked decoding

Frames, values and messages read with checked steps. The decoder keeps a table from the numbers on
the wire to handles, counts its depth upwards, makes room before it reads the items of a collection,
and traps if the object whose fields it reads is not in the heap. Whatever the bytes, the limits and
the registry are, it does what the decoder of the library does and never traps. What carries this
through nested objects is that the table and the heap grow together, and that neither ever shrinks.
-/

namespace GraphRpc.Checked

open Wire

-- ---------------------------------------------------------------------------
-- Frames
-- ---------------------------------------------------------------------------

def payloadLength (bytes : List UInt8) (max : Nat) : Except (Stop FrameFault) Nat := do
  if bytes.length < Frame.headerSize then
    throw (.fault (.incomplete (← sub Frame.headerSize bytes.length)))
  else do
    let header ← copy Frame.headerSize (← slice bytes 0 Frame.headerSize)
    let len := Binary.value header
    if len > max then throw (.fault (.tooLarge len max)) else do
      let total ← add Frame.headerSize len
      if bytes.length < total then throw (.fault (.incomplete (← sub total bytes.length)))
      else return len

def parse (bytes : List UInt8) (max : Nat) : Except (Stop FrameFault) (Frame × Nat) := do
  let len ← payloadLength bytes max
  let total ← add Frame.headerSize len
  let payload ← slice bytes Frame.headerSize total
  return (⟨payload.toByteArray⟩, total)

def splitTo (buffer : List UInt8) (n : Nat) : Except Trap (List UInt8 × List UInt8) :=
  if n ≤ buffer.length then .ok (buffer.take n, buffer.drop n) else .error .outOfRange

def advance (buffer : List UInt8) (n : Nat) : Except Trap (List UInt8) := do
  let (_, rest) ← splitTo buffer n
  return rest

/-- Take a frame from a receive buffer, or make room in it for what is missing. -/
def next (max : Nat) (buffer : List UInt8) :
    Except (Stop FrameFault) (Option (Frame × List UInt8)) :=
  match payloadLength buffer max with
  | .ok len => do
    let buffer ← advance buffer Frame.headerSize
    let (payload, buffer) ← splitTo buffer len
    return some (⟨payload.toByteArray⟩, buffer)
  | .error (.fault (.incomplete needed)) => do
    let total ← add buffer.length needed
    allot total 1
    return none
  | .error stop => .error stop

-- ---------------------------------------------------------------------------
-- Values
-- ---------------------------------------------------------------------------

structure Decoder (α : Type) where
  cursor : Cursor
  heap : Heap α
  identity : Array Handle

abbrev DecoderM (α : Type) := CheckedM CodecFault (Decoder α)

namespace DecoderM

variable {α β : Type}

def read (reader : CursorM β) : DecoderM α β := fun d =>
  match reader d.cursor with
  | .ok b cursor => .ok b { d with cursor }
  | .error stop cursor => .error stop { d with cursor }

/-- Room for `count` elements of `size` bytes, but for no more than the input can still hold when
each of them takes `width` bytes of it. -/
def reserve (count width size : Nat) : DecoderM α Unit := do
  let left ← (← get).cursor.remaining
  allot (min count (left / width)) size

def repeated (action : DecoderM α β) : (n : Nat) → (done : List β) → DecoderM α (List β)
  | 0, done => pure done.reverse
  | n + 1, done => do
    let b ← action
    repeated action n (b :: done)

def insert (typeName : String) (object : Object α) : DecoderM α Handle := do
  narrow (← get).heap.size
  modifyGet fun d =>
    let (h, heap) := d.heap.insert typeName object
    (h, { d with heap, identity := d.identity.push h })

def setField (access : FieldAccess α) (h : Handle) (field : String) (v : Value) :
    DecoderM α Unit := do
  match (← get).heap.object? h with
  | none => throw (.trap .vanished)
  | some object =>
    let object ← access.set object field v
    modify fun d => { d with heap := d.heap.setObject h object }

end DecoderM

open DecoderM

variable {α β : Type}

def enter (codec : Codec α) (depth : Nat) :
    Except (Stop CodecFault) { inner : Nat // depth < inner ∧ inner ≤ codec.room } :=
  match h : add depth 1 with
  | .error why => .error (.trap why)
  | .ok inner =>
    if deep : inner > codec.limits.maxDepth ∨ inner > maxWord then
      .error (.fault (.sizeLimit .nestingDepth inner codec.limits.maxDepth))
    else
      .ok ⟨inner, by have := eq_of_add h; omega, by simp only [Codec.room]; omega⟩

/-- Read a value at `depth`, where a value takes `size` bytes of memory. -/
def decodeAt (codec : Codec α) (size depth : Nat) : DecoderM α Value := do
  match ← Tag.ofByte (← read .byte) with
  | .null => pure .null
  | .bool =>
    match ← read .byte with
    | 0 => pure (.bool false)
    | 1 => pure (.bool true)
    | b => throw (.fault (.invalid (.boolByte b)))
  | .i8 => return .i8 (UInt8.ofNat (← read (.nat 1))).toInt8
  | .i16 => return .i16 (UInt16.ofNat (← read (.nat 2))).toInt16
  | .i32 => return .i32 (UInt32.ofNat (← read (.nat 4))).toInt32
  | .i64 => return .i64 (UInt64.ofNat (← read (.nat 8))).toInt64
  | .f32 => return .f32 ⟨UInt32.ofNat (← read (.nat 4))⟩
  | .f64 => return .f64 ⟨UInt64.ofNat (← read (.nat 8))⟩
  | .str => return .str (← read (.text .string codec.limits.maxStringLen))
  | .bytes => do
    let len ← read (.length .bytes codec.limits.maxBytesLen)
    return .bytes (← read (.take len)).toByteArray
  | .array => do
    let ⟨inner, _⟩ ← enter codec depth
    let count ← read (.length .array codec.limits.maxCollectionLen)
    reserve count 1 size
    return .array (← repeated (decodeAt codec size inner) count [])
  | .map => do
    let ⟨inner, _⟩ ← enter codec depth
    let count ← read (.length .map codec.limits.maxCollectionLen)
    reserve count 2 (2 * size)
    let entry : DecoderM α (Value × Value) := do
      let k ← decodeAt codec size inner
      let v ← decodeAt codec size inner
      return (k, v)
    return .map (← repeated entry count [])
  | .objectRef => do
    let number ← read (.nat 4)
    match (← get).identity[number]? with
    | some h => return .object h
    | none => throw (.fault (.unresolvedReference (UInt32.ofNat number)))
  | .object => do
    let ⟨inner, _⟩ ← enter codec depth
    let typeName ← read (.text .typeName codec.limits.maxStringLen)
    let number ← read (.nat 4)
    let expected := (← get).identity.size
    if number ≠ expected then
      throw (.fault (.invalid (.idOutOfSequence (UInt32.ofNat number) expected)))
    let access ← codec.registry.resolveWriter typeName
    let h ← insert typeName (← access.construct typeName)
    let count ← read (.length .fieldCount codec.limits.maxFields)
    let field : DecoderM α Unit := do
      let name ← read (.text .fieldName codec.limits.maxStringLen)
      let v ← decodeAt codec size inner
      setField access h name v
    let _ ← repeated field count []
    return .object h
termination_by codec.room - depth

def decode (codec : Codec α) (size : Nat) : DecoderM α Value := decodeAt codec size 0

def finish (d : Decoder α) : Except (Stop CodecFault) (Heap α) := do
  let left ← d.cursor.remaining
  if left ≠ 0 then throw (.fault (.invalid (.trailing left))) else return d.heap

def decodeAll (action : DecoderM α β) (bytes : List UInt8) :
    Except (Stop CodecFault) (β × Heap α) :=
  match action ⟨⟨bytes, 0⟩, .empty, #[]⟩ with
  | .ok b d => (finish d).map (b, ·)
  | .error stop _ => .error stop

def decodeValue (codec : Codec α) (size : Nat) (bytes : List UInt8) :
    Except (Stop CodecFault) (Value × Heap α) :=
  decodeAll (decode codec size) bytes

def decodeParams (codec : Codec α) (size : Nat) (bytes : List UInt8) :
    Except (Stop CodecFault) (List Value × Heap α) :=
  decodeAll (do
    let count ← read (.length .parameterCount codec.limits.maxCollectionLen)
    reserve count 1 size
    repeated (decode codec size) count []) bytes

-- ---------------------------------------------------------------------------
-- Messages
-- ---------------------------------------------------------------------------

def Stop.map {ε ε' : Type} (f : ε → ε') : Stop ε → Stop ε'
  | trap why => trap why
  | fault why => fault (f why)

def header (codec : Codec α) : CursorM (MessageKind × UInt64 × String) := do
  let kind ← MessageKind.ofByte (← .byte)
  let callId ← .nat 8
  let method ← .text .methodName codec.limits.maxStringLen
  if method.isEmpty then throw (.fault (.invalid .emptyMethod))
  return (kind, UInt64.ofNat callId, method)

def decodeMessage (codec : Codec α) (size : Nat) (bytes : List UInt8) :
    Except (Stop Failure) (Message α) :=
  match CursorM.byte ⟨bytes, 0⟩ with
  | .error stop _ => .error (stop.map .codec)
  | .ok version c =>
    if version ≠ protocolVersion then
      .error (.fault (.unsupportedVersion version))
    else
      match header codec c with
      | .error stop _ => .error (stop.map .codec)
      | .ok (kind, callId, method) c => do
        let rest ← c.rest
        match decodeParams codec size rest with
        | .error stop => .error (stop.map .codec)
        | .ok (values, heap) => .ok { version, kind, callId, method, payload := ⟨values, heap⟩ }

end GraphRpc.Checked
