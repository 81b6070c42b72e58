import GraphRpc.Settings.Basic
import GraphRpc.Settings.Fault
import GraphRpc.Text.Quoted
import GraphRpc.Toml.Document
import GraphRpc.Decimal.Shortest

/-!
# Reading settings

Settings are read from a document, section by section and in the order of the document. The first
value that is not of its type is reported; a field that is missing is reported when all others of
its section were read. A section may also be given as an array of its fields.
-/

namespace GraphRpc

inductive ReadFault where
  | invalidType (found expected : String)
  | invalidValue (found expected : String)
  | missingField (name : String)
  | invalidLength (length : Nat) (expected : String)
  | unknownVariant (name : String) (known : List String)
  | notVariant (detail : String)
  | unknownLevel (name : String)
deriving DecidableEq, Repr

def choices (names : List String) : String :=
  let marked := names.map fun n => s!"`{n}`"
  match marked with
  | [a, b] => s!"{a} or {b}"
  | l => "one of " ++ ", ".intercalate l

def ReadFault.message : ReadFault → String
  | invalidType found expected => s!"invalid type: {found}, expected {expected}"
  | invalidValue found expected => s!"invalid value: {found}, expected {expected}"
  | missingField name => s!"missing field `{name}`"
  | invalidLength length expected => s!"invalid length {length}, expected {expected}"
  | unknownVariant name known => s!"unknown variant `{name}`, expected {choices known}"
  | notVariant detail => detail
  | unknownLevel name => s!"Invalid log level: {name}"

abbrev Reading := Except ReadFault

namespace Toml.Value

def describe : Value → String
  | string s => s!"string {Text.quoted s}"
  | integer n => s!"integer `{n}`"
  | float x => "floating point `" ++ Decimal.text ".0" x ++ "`"
  | boolean b => s!"boolean `{b}`"
  | array .. => "sequence"
  | dateTime _ | table .. => "map"

def readText : Value → Reading String
  | string s => .ok s
  | v => .error (.invalidType v.describe "a string")

def readFlag : Value → Reading Bool
  | boolean b => .ok b
  | v => .error (.invalidType v.describe "a boolean")

def readCount (expected : String) (v : Value) : Reading Nat :=
  match v with
  | integer n =>
    if 0 ≤ n then .ok n.toNat else .error (.invalidValue (Value.integer n).describe expected)
  | v => .error (.invalidType v.describe expected)

def readSize : Value → Reading Nat := readCount "usize"

def readDuration (v : Value) : Reading Duration := do
  return .ofMillis (← v.readCount "u64")

def readLevel (v : Value) : Reading LogLevel := do
  let name ← v.readText
  match LogLevel.ofString? name with
  | some level => return level
  | none => throw (.unknownLevel name)

/-- Whether a value may stand behind a name that says everything by itself. -/
def isUnit : Value → Bool
  | array _ items => items.isEmpty
  | table _ entries => entries.isEmpty
  | _ => false

/-- One of several names: a string, or a table with the name as its only key. -/
def readChoice {β : Type} (name : β → String) (known : List β) (v : Value) : Reading β :=
  let choose := fun s => match known.find? (name · == s) with
    | some b => Except.ok b
    | none => .error (.unknownVariant s (known.map name))
  match v with
  | string s => choose s
  | table _ [(s, inner)] => do
    let b ← choose s
    if inner.isUnit then return b else throw (.notVariant "expected empty table")
  | table .. => .error (.notVariant "wanted exactly 1 element")
  | _ => .error (.notVariant "wanted string or table")

end Toml.Value

open Toml (Value Table)

inductive Need where
  | always
  /-- Only where the fields are given as an array. -/
  | inArrays
  | never
deriving DecidableEq, Repr

/-- A field of a section: its name and how its value changes the section. -/
structure Field (σ : Type) where
  name : String
  need : Need := .always
  read : Value → σ → Reading σ

namespace Field

variable {σ : Type}

/-- Read the entries of a table. Those with other names are left alone. -/
def readEntries (fields : List (Field σ)) (entries : Table) (s : σ) : Reading σ := do
  let s ← entries.foldlM (fun s (key, v) =>
    match fields.find? (·.name == key) with
    | some field => field.read v s
    | none => pure s) s
  match fields.find? fun f => f.need = .always && (entries.lookup f.name).isNone with
  | some field => throw (.missingField field.name)
  | none => return s

def readItems (expected : String) : (index : Nat) → List (Field σ) → List Value → σ → Reading σ
  | _, [], _, s => .ok s
  | index, field :: fields, [], s =>
    if field.need = .never then readItems expected (index + 1) fields [] s
    else .error (.invalidLength index expected)
  | index, field :: fields, v :: vs, s => do
    readItems expected (index + 1) fields vs (← field.read v s)

def readSection (name : String) (fields : List (Field σ)) (default : σ) (v : Value) : Reading σ :=
  match v with
  | .table _ entries => readEntries fields entries default
  | .dateTime _ => readEntries fields [] default
  | .array _ items =>
    readItems s!"struct {name} with {fields.length} elements" 0 fields items default
  | v => .error (.invalidType v.describe s!"struct {name}")

end Field

def OutboundSettings.fields : List (Field OutboundSettings) := [
  { name := "policy"
    read := fun v s => return { s with policy := ← v.readChoice OverflowPolicy.name OverflowPolicy.all } },
  { name := "capacity", read := fun v s => return { s with capacity := ← v.readSize } }]

def OutboundSettings.ofValue (v : Value) : Reading OutboundSettings :=
  Field.readSection "OutboundConfig" fields {} v

def ServerSettings.fields : List (Field ServerSettings) := [
  { name := "address", read := fun v s => return { s with address := ← v.readText } },
  { name := "max_connections"
    read := fun v s => return { s with maxConnections := ← v.readSize } },
  { name := "shutdown_timeout"
    read := fun v s => return { s with shutdownTimeout := ← v.readDuration } },
  { name := "call_timeout", need := .never
    read := fun v s => return { s with callTimeout := some (← v.readDuration) } },
  { name := "outbound", need := .never
    read := fun v s => return { s with outbound := ← OutboundSettings.ofValue v } }]

def ClientSettings.fields : List (Field ClientSettings) := [
  { name := "address", read := fun v s => return { s with address := ← v.readText } },
  { name := "connection_timeout"
    read := fun v s => return { s with connectionTimeout := ← v.readDuration } },
  { name := "call_timeout", need := .never
    read := fun v s => return { s with callTimeout := some (← v.readDuration) } },
  { name := "outbound", need := .never
    read := fun v s => return { s with outbound := ← OutboundSettings.ofValue v } }]

def Limits.fields : List (Field Limits) := [
  { name := "max_frame_size", read := fun v s => return { s with maxFrameSize := ← v.readSize } },
  { name := "max_string_len", read := fun v s => return { s with maxStringLen := ← v.readSize } },
  { name := "max_bytes_len", read := fun v s => return { s with maxBytesLen := ← v.readSize } },
  { name := "max_collection_len"
    read := fun v s => return { s with maxCollectionLen := ← v.readSize } },
  { name := "max_fields", read := fun v s => return { s with maxFields := ← v.readSize } },
  { name := "max_depth", read := fun v s => return { s with maxDepth := ← v.readSize } }]

def DispatchSettings.fields : List (Field DispatchSettings) := [
  { name := "strategy"
    read := fun v s => return { s with strategy := ← v.readChoice StrategyKind.name StrategyKind.all } },
  { name := "workers", read := fun v s => return { s with workers := ← v.readSize } }]

def LoggingSettings.fields : List (Field LoggingSettings) := [
  { name := "app_name", read := fun v s => return { s with appName := ← v.readText } },
  { name := "log_level", read := fun v s => return { s with level := ← v.readLevel } },
  { name := "log_to_console", read := fun v s => return { s with toConsole := ← v.readFlag } },
  { name := "log_to_file", read := fun v s => return { s with toFile := ← v.readFlag } },
  { name := "log_file_path", need := .inArrays
    read := fun v s => return { s with filePath := some (← v.readText) } },
  { name := "json_format", read := fun v s => return { s with json := ← v.readFlag } }]

def Settings.fields : List (Field Settings) := [
  { name := "server", need := .never
    read := fun v s => return { s with
      server := ← Field.readSection "ServerConfig" ServerSettings.fields {} v } },
  { name := "client", need := .never
    read := fun v s => return { s with
      client := ← Field.readSection "ClientConfig" ClientSettings.fields {} v } },
  { name := "codec", need := .never
    read := fun v s => return { s with
      codec := ← Field.readSection "CodecConfig" Limits.fields {} v } },
  { name := "dispatch", need := .never
    read := fun v s => return { s with
      dispatch := ← Field.readSection "DispatchConfig" DispatchSettings.fields {} v } },
  { name := "logging", need := .never
    read := fun v s => return { s with
      logging := ← Field.readSection "LoggingConfig" LoggingSettings.fields {} v } }]

def Settings.ofTable (t : Table) : Reading Settings := Field.readEntries fields t {}

def Settings.ofText (text : String) : Except SettingsFault Settings :=
  match Toml.parse? text with
  | none => .error (.malformed "no TOML document")
  | some t => (ofTable t).mapError fun fault => .malformed fault.message

end GraphRpc
