/-!
# Faults of settings

Why settings could not be read, written or used.
-/

namespace GraphRpc

inductive FileFault where
  | notFound
  | isDirectory
  | notUtf8
  | badName
  | longName
deriving DecidableEq, Repr

inductive SettingsFault where
  | unopenable (why : FileFault)
  | unreadable (why : FileFault)
  | unwritable (why : FileFault)
  | malformed (detail : String)
  | unwritableNumber
  | unknownStrategy (name : String)
  | invalid (problems : List String)
  | noLogSink
  | noLogPath
  | unopenableLog (why : FileFault)
  | stated (text : String)
deriving DecidableEq, Repr

def FileFault.message : FileFault → String
  | notFound => "No such file or directory (os error 2)"
  | isDirectory => "Is a directory (os error 21)"
  | notUtf8 => "stream did not contain valid UTF-8"
  | badName => "file name contained an unexpected NUL byte"
  | longName => "File name too long (os error 36)"

def SettingsFault.message : SettingsFault → String
  | unopenable why => s!"Failed to open config file: {why.message}"
  | unreadable why => s!"Failed to read config file: {why.message}"
  | unwritable why => s!"Failed to write config file: {why.message}"
  | malformed detail => s!"Failed to parse TOML: {detail}"
  | unwritableNumber => "Failed to serialize config: out-of-range value for u64 type"
  | unknownStrategy name => s!"Unknown dispatch strategy: {name}"
  | invalid problems =>
    "Configuration validation failed:\n  - " ++ "\n  - ".intercalate problems
  | noLogSink => "at least one of log_to_console or log_to_file must be enabled"
  | noLogPath => "log_file_path is required for file logging"
  | unopenableLog why => s!"Failed to open log file: {why.message}"
  | stated text => text

end GraphRpc
