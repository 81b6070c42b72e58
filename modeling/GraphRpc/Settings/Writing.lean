import GraphRpc.Settings.Reading
import GraphRpc.Toml.Printer

/-!
# Writing settings

Settings as a document that describes them. What is not set is left out. A number has to fit a
signed word of 64 bits.
-/

namespace GraphRpc

open Toml (Value Table)

namespace Settings

abbrev Writing := Except SettingsFault

def writeCount (n : Nat) : Writing Value :=
  if n ≤ Int64.maxValue.toInt then .ok (.integer n) else .error .unwritableNumber

def writeDuration (d : Duration) : Writing Value := writeCount d.wordMillis

/-- Some fields as entries, in order. Those without a value are left out. -/
def writeFields : List (String × Writing (Option Value)) → Writing Table
  | [] => .ok []
  | (name, v) :: rest => do
    match ← v with
    | some v => return (name, v) :: (← writeFields rest)
    | none => writeFields rest

def writeSection (fields : List (String × Writing (Option Value))) : Writing Value := do
  return .table .header (← writeFields fields)

def field (name : String) (v : Writing Value) : String × Writing (Option Value) :=
  (name, some <$> v)

def optional (name : String) (v : Option (Writing Value)) : String × Writing (Option Value) :=
  (name, match v with
    | some v => some <$> v
    | none => .ok none)

def text (s : String) : Writing Value := .ok (.string s)

def flag (b : Bool) : Writing Value := .ok (.boolean b)

def writeOutbound (o : OutboundSettings) : Writing Value :=
  writeSection [field "policy" (text o.policy.name), field "capacity" (writeCount o.capacity)]

def writeServer (s : ServerSettings) : Writing Value :=
  writeSection [field "address" (text s.address),
    field "max_connections" (writeCount s.maxConnections),
    field "shutdown_timeout" (writeDuration s.shutdownTimeout),
    optional "call_timeout" (s.callTimeout.map writeDuration),
    field "outbound" (writeOutbound s.outbound)]

def writeClient (c : ClientSettings) : Writing Value :=
  writeSection [field "address" (text c.address),
    field "connection_timeout" (writeDuration c.connectionTimeout),
    optional "call_timeout" (c.callTimeout.map writeDuration),
    field "outbound" (writeOutbound c.outbound)]

def writeLimits (l : Limits) : Writing Value :=
  writeSection [field "max_frame_size" (writeCount l.maxFrameSize),
    field "max_string_len" (writeCount l.maxStringLen),
    field "max_bytes_len" (writeCount l.maxBytesLen),
    field "max_collection_len" (writeCount l.maxCollectionLen),
    field "max_fields" (writeCount l.maxFields), field "max_depth" (writeCount l.maxDepth)]

def writeDispatch (d : DispatchSettings) : Writing Value :=
  writeSection [field "strategy" (text d.strategy.name), field "workers" (writeCount d.workers)]

def writeLogging (l : LoggingSettings) : Writing Value :=
  writeSection [field "app_name" (text l.appName), field "log_level" (text l.level.name),
    field "log_to_console" (flag l.toConsole), field "log_to_file" (flag l.toFile),
    optional "log_file_path" (l.filePath.map text), field "json_format" (flag l.json)]

def toTable (s : Settings) : Writing Table :=
  writeFields [field "server" (writeServer s.server), field "client" (writeClient s.client),
    field "codec" (writeLimits s.codec), field "dispatch" (writeDispatch s.dispatch),
    field "logging" (writeLogging s.logging)]

def toText (s : Settings) : Writing String := return Toml.print (← s.toTable)

/-! ## Files -/

inductive File where
  | missing
  | directory
  | contents (bytes : ByteArray)

def ofFile : File → Except SettingsFault Settings
  | .missing => .error (.unopenable .notFound)
  | .directory => .error (.unreadable .isDirectory)
  | .contents bytes =>
    match String.fromUTF8? bytes with
    | some text => ofText text
    | none => .error (.unreadable .notUtf8)

/-- What a file holds after settings were saved to it. Its directory has to exist. -/
def save (directoryExists : Bool) (s : Settings) : Writing String := do
  let text ← s.toText
  if directoryExists then return text else throw (.unwritable .notFound)

end Settings
end GraphRpc
