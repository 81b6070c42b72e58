import GraphRpc.Settings.Fault

/-!
# Failures

Every way in which the library can fail, as a cause. The wording of each cause is in one place,
`Failure.message` and the functions it calls; nothing else depends on it. A `stated` cause carries
words that an application chose.
-/

namespace GraphRpc

inductive Measure where
  | parameterCount
  | string
  | bytes
  | array
  | map
  | nestingDepth
  | typeName
  | fieldCount
  | fieldName
  | methodName
  | stated (what : String)
deriving DecidableEq, Repr

inductive Kind where
  | null | bool | i8 | i16 | i32 | i64 | f32 | f64 | str | bytes | array | map | object
deriving DecidableEq, Repr

inductive Target where
  | bool | i64 | i32 | f64 | string | bytes | object | array
deriving DecidableEq, Repr

inductive Malformation where
  | truncated
  | trailing (count : Nat)
  | emptyMethod
  | notUtf8
  | boolByte (byte : UInt8)
  | messageKind (byte : UInt8)
  | idOutOfSequence (found : UInt32) (expected : Nat)
  | danglingHandle (index : UInt32)
  | vanishedObject (index : UInt32)
  | stated (text : String)
deriving DecidableEq, Repr

/-- Why a field or an object could not be read or written. `owner` names the type in question. -/
inductive AccessFault where
  | unreadable (owner : String)
  | unconstructible (owner : String)
  | noField (owner field : String)
  | notRecord (owner : String)
  | foreignInstance (owner : String)
  | wrongKind (wanted : Target) (found : Kind)
  | stated (text : String)
deriving DecidableEq, Repr

inductive FrameFault where
  | tooLarge (len max : Nat)
  | incomplete (needed : Nat)
deriving DecidableEq, Repr

inductive CodecFault where
  | unknownTag (byte : UInt8)
  | sizeLimit (what : Measure) (len max : Nat)
  | unresolvedReference (id : UInt32)
  | invalid (why : Malformation)
  | fieldAccess (why : AccessFault)
deriving DecidableEq, Repr

inductive StreamFault where
  | leftover
  | brokenPipe
  | badAddress
  | badPort
  | unreachable
  | unassignable
  | unresolved
  | noEntry
  | stated (text : String)
deriving DecidableEq, Repr

inductive ConnectFault where
  | timedOut
  | stream (why : StreamFault)
  | limitReached (max : Nat)
  | stated (text : String)
deriving DecidableEq, Repr

inductive LinkFault where
  | closed
  | connect (why : ConnectFault)
  | bufferFull (capacity : Nat)
deriving DecidableEq, Repr

inductive CallFault where
  | timedOut
  | cancelled
  | remote (reason : String)
deriving DecidableEq, Repr

inductive Failure where
  | stream (why : StreamFault)
  | frame (why : FrameFault)
  | codec (why : CodecFault)
  | link (why : LinkFault)
  | call (why : CallFault)
  | unsupportedVersion (version : UInt8)
  | noHandler (method : String)
  | settings (why : SettingsFault)
  | noRuntime
  | custom (text : String)
deriving DecidableEq, Repr

def Measure.name : Measure → String
  | parameterCount => "parameter count"
  | string => "string"
  | bytes => "bytes"
  | array => "array"
  | map => "map"
  | nestingDepth => "nesting depth"
  | typeName => "type name"
  | fieldCount => "field count"
  | fieldName => "field name"
  | methodName => "method name"
  | stated what => what

def Kind.name : Kind → String
  | null => "null"
  | bool => "bool"
  | i8 => "i8"
  | i16 => "i16"
  | i32 => "i32"
  | i64 => "i64"
  | f32 => "f32"
  | f64 => "f64"
  | str => "str"
  | bytes => "bytes"
  | array => "array"
  | map => "map"
  | object => "object"

def Target.name : Target → String
  | bool => "bool"
  | i64 => "i64"
  | i32 => "i32"
  | f64 => "f64"
  | string => "String"
  | bytes => "Bytes"
  | object => "ObjectId"
  | array => "Vec<Value>"

def Malformation.message : Malformation → String
  | truncated => "Input ended before the value was complete"
  | trailing count => s!"Trailing bytes after the last parameter ({count} bytes)"
  | emptyMethod => "Method name must not be empty"
  | notUtf8 => "String is not valid UTF-8"
  | boolByte byte => s!"bool byte must be 0 or 1, got {byte}"
  | messageKind byte => s!"unknown message kind {byte}"
  | idOutOfSequence found expected => s!"object id {found} out of sequence (expected {expected})"
  | danglingHandle index => s!"dangling object handle #{index}"
  | vanishedObject index => s!"object #{index} vanished while decoding"
  | stated text => text

def AccessFault.message : AccessFault → String
  | unreadable owner => s!"{owner}: no mutator can read this object"
  | unconstructible owner => s!"{owner}: no mutator can construct this type"
  | noField owner field => s!"{owner}: no field '{field}'"
  | notRecord owner => s!"{owner}: instance is not a record"
  | foreignInstance owner => s!"{owner}: instance has the wrong Rust type"
  | wrongKind wanted found => s!"expected {wanted.name}, found {found.name}"
  | stated text => text

def FrameFault.message : FrameFault → String
  | tooLarge len max => s!"Frame too large: {len} bytes (max {max})"
  | incomplete needed => s!"Incomplete frame: {needed} more bytes needed"

def hexByte (byte : UInt8) : String :=
  String.ofList ([byte.toNat / 16, byte.toNat % 16].map fun d => (Nat.digitChar d).toUpper)

def CodecFault.message : CodecFault → String
  | unknownTag byte => s!"Unknown value tag: 0x{hexByte byte}"
  | sizeLimit what len max => s!"Size limit exceeded for {what.name}: {len} (max {max})"
  | unresolvedReference id => s!"Unresolved object reference: {id}"
  | invalid why => s!"Invalid encoding: {why.message}"
  | fieldAccess why => s!"Field access failed: {why.message}"

def StreamFault.message : StreamFault → String
  | leftover => "bytes remaining on stream"
  | brokenPipe => "broken pipe"
  | badAddress => "invalid socket address"
  | badPort => "invalid port value"
  | unreachable => "Network is unreachable (os error 101)"
  | unassignable => "Cannot assign requested address (os error 99)"
  | unresolved =>
    "failed to lookup address information: Temporary failure in name resolution"
  | noEntry => "No such file or directory (os error 2)"
  | stated text => text

def ConnectFault.message : ConnectFault → String
  | stream why => why.message
  | timedOut => "Connection attempt timed out"
  | limitReached max => s!"connection limit reached ({max})"
  | stated text => text

def LinkFault.message : LinkFault → String
  | closed => "Connection closed"
  | connect why => s!"Connect error: {why.message}"
  | bufferFull capacity => s!"Outbound buffer full ({capacity} frames)"

def CallFault.message : CallFault → String
  | timedOut => "Call timed out"
  | cancelled => "Call cancelled"
  | remote reason => s!"Remote error: {reason}"

def Failure.message : Failure → String
  | stream why => s!"I/O error: {why.message}"
  | frame why => why.message
  | codec why => why.message
  | link why => why.message
  | call why => why.message
  | unsupportedVersion version => s!"Unsupported protocol version: {version}"
  | noHandler method => s!"No handler registered for method '{method}'"
  | settings why => s!"Configuration error: {why.message}"
  | noRuntime => "Custom error: No Tokio runtime available"
  | custom text => s!"Custom error: {text}"

namespace Failure

def closed : Failure := .link .closed

/-- Whether the inbound bytes can no longer be trusted after this failure. -/
def breaksStream : Failure → Bool
  | stream _ | frame (.tooLarge ..) | codec _ | unsupportedVersion _ => true
  | _ => false

end Failure
end GraphRpc
