import GraphRpc.Codec.Decode
import GraphRpc.Codec.Encode
import GraphRpc.Frame

/-!
# Messages

A message is a call, an answer or a notification: a version, a kind, the number of the call, a
method name, and parameters with the objects they lead to. An error is an answer whose first
parameter is a text.
-/

namespace GraphRpc

def protocolVersion : UInt8 := 1

inductive MessageKind where
  | request | response | oneWay | error
deriving DecidableEq, Repr, Inhabited

namespace MessageKind

def byte : MessageKind → UInt8
  | request => 0
  | response => 1
  | oneWay => 2
  | error => 3

def ofByte : UInt8 → Except CodecFault MessageKind
  | 0 => .ok request
  | 1 => .ok response
  | 2 => .ok oneWay
  | 3 => .ok error
  | b => .error (.invalid (.messageKind b))

def isReply : MessageKind → Bool
  | response | error => true
  | request | oneWay => false

end MessageKind

/-- Parameters and the heap that their handles point into. -/
structure Payload (α : Type) where
  values : List Value
  heap : Heap α

namespace Payload

variable {α : Type}

def ofValues (values : List Value) : Payload α := ⟨values, .empty⟩

def empty : Payload α := ofValues []

instance : Inhabited (Payload α) := ⟨empty⟩

def first? (p : Payload α) : Option Value := p.values.head?

def size (p : Payload α) : Nat := p.values.length

def isEmpty (p : Payload α) : Bool := p.values.isEmpty

end Payload

structure Message (α : Type) where
  version : UInt8 := protocolVersion
  kind : MessageKind
  callId : UInt64
  method : String
  payload : Payload α
deriving Inhabited

namespace Message

variable {α : Type}

def request (callId : UInt64) (method : String) (payload : Payload α) : Message α :=
  { kind := .request, callId, method, payload }

def oneWay (callId : UInt64) (method : String) (payload : Payload α) : Message α :=
  { kind := .oneWay, callId, method, payload }

def responseTo (request : Message α) (payload : Payload α) : Message α :=
  { kind := .response, callId := request.callId, method := request.method, payload }

def errorTo (request : Message α) (reason : String) : Message α :=
  { kind := .error, callId := request.callId, method := request.method
    payload := .ofValues [.str reason] }

def errorReason (m : Message α) : String := (m.payload.first?.bind Value.str?).getD "remote error"

def putHeader (m : Message α) : EncodeM Unit := do
  EncodeM.putByte m.version
  EncodeM.putByte m.kind.byte
  EncodeM.putNat 8 m.callId.toNat
  EncodeM.putNat 4 m.method.utf8ByteSize
  EncodeM.putBytes m.method.toUTF8

def encode (codec : Codec α) (m : Message α) : Except Failure ByteArray :=
  if m.method.isEmpty then
    .error (.codec (.invalid .emptyMethod))
  else if m.method.utf8ByteSize > codec.limits.maxStringLen then
    .error (.codec (.sizeLimit .methodName m.method.utf8ByteSize codec.limits.maxStringLen))
  else
    match Codec.bytesOf (do m.putHeader; codec.encodeParams m.payload.values m.payload.heap) with
    | .error fault => .error (.codec fault)
    | .ok bytes =>
      if bytes.size > codec.limits.maxFrameSize then
        .error (.frame (.tooLarge bytes.size codec.limits.maxFrameSize))
      else .ok bytes

def header (codec : Codec α) : ReadM (MessageKind × UInt64 × String) := do
  let kind ← MessageKind.ofByte (← .byte)
  let callId ← .nat 8
  let method ← .text .methodName codec.limits.maxStringLen
  if method.isEmpty then throw (.invalid .emptyMethod)
  return (kind, UInt64.ofNat callId, method)

def decode (codec : Codec α) (bytes : List UInt8) : Except Failure (Message α) :=
  match ReadM.byte bytes with
  | .error fault _ => .error (.codec fault)
  | .ok version rest =>
    if version ≠ protocolVersion then
      .error (.unsupportedVersion version)
    else
      match header codec rest with
      | .error fault _ => .error (.codec fault)
      | .ok (kind, callId, method) rest =>
        match codec.decodeParams rest with
        | .error fault => .error (.codec fault)
        | .ok (values, heap) => .ok { version, kind, callId, method, payload := ⟨values, heap⟩ }

end Message
end GraphRpc
