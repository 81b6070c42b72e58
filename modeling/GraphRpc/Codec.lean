import GraphRpc.Binary
import GraphRpc.Limits
import GraphRpc.Registry

/-!
# Codecs

A codec is what encoding and decoding share: the limits and the registry of field accesses. Each
value on the wire starts with a tag byte; numbers are big-endian, and everything of variable size is
preceded by its 32-bit length.
-/

namespace GraphRpc

instance instMonadLiftExcept {ε σ : Type} : MonadLift (Except ε) (EStateM ε σ) where
  monadLift
    | .ok a => pure a
    | .error e => throw e

structure Codec (α : Type) where
  limits : Limits
  registry : Registry α

inductive Tag where
  | null | bool | i8 | i16 | i32 | i64 | f32 | f64 | str | bytes | array | map | objectRef | object
deriving DecidableEq, Repr

namespace Tag

def byte : Tag → UInt8
  | null => 0x00
  | bool => 0x01
  | i8 => 0x02
  | i16 => 0x03
  | i32 => 0x04
  | i64 => 0x05
  | f32 => 0x06
  | f64 => 0x07
  | str => 0x08
  | bytes => 0x09
  | array => 0x0A
  | map => 0x0B
  | objectRef => 0x0C
  | object => 0x0D

def ofByte? : UInt8 → Option Tag
  | 0x00 => some null
  | 0x01 => some bool
  | 0x02 => some i8
  | 0x03 => some i16
  | 0x04 => some i32
  | 0x05 => some i64
  | 0x06 => some f32
  | 0x07 => some f64
  | 0x08 => some str
  | 0x09 => some bytes
  | 0x0A => some array
  | 0x0B => some map
  | 0x0C => some objectRef
  | 0x0D => some object
  | _ => none

def ofByte (b : UInt8) : Except CodecFault Tag :=
  match ofByte? b with
  | some tag => .ok tag
  | none => .error (.unknownTag b)

theorem ofByte?_byte (tag : Tag) : ofByte? tag.byte = some tag := by
  cases tag <;> rfl

end Tag

namespace Codec

variable {α : Type}

/-- How deep values may nest: as far as the limit and a 32-bit depth allow. -/
def room (codec : Codec α) : Nat := min codec.limits.maxDepth maxWord

def tooDeep (codec : Codec α) : CodecFault :=
  .sizeLimit .nestingDepth (codec.room + 1) codec.limits.maxDepth

end Codec
end GraphRpc
