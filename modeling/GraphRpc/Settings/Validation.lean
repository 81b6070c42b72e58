import GraphRpc.Settings.Address
import GraphRpc.Settings.Basic
import GraphRpc.Settings.Path

/-!
# Validation

What is wrong with settings, section by section. Settings without problems can be used.
-/

namespace GraphRpc

inductive SettingsProblem where
  | noServerAddress
  | badServerAddress (address : String)
  | noConnections
  | manyConnections (count : Nat)
  | shortShutdown
  | longShutdown
  | zeroCallTimeout
  | noOutboundCapacity
  | noClientAddress
  | shortConnectionTimeout
  | smallFrames
  | largeFrames (size : Nat)
  | noStringLength
  | noCollectionLength
  | noDepth
  | largeDepth (depth : Nat)
  | noWorkers
  | manyWorkers (count : Nat)
  | noAppName
  | longAppName (size : Nat)
  | missingLogDirectory (path : String)
  | noLogPath
  | noLogOutput
deriving DecidableEq, Repr

def SettingsProblem.message : SettingsProblem → String
  | noServerAddress => "Server address cannot be empty"
  | badServerAddress address =>
    s!"Invalid server address format: '{address}' (expected format: '0.0.0.0:7070')"
  | noConnections => "Max connections must be greater than 0"
  | manyConnections count =>
    s!"Max connections very high: {count} (ensure system resources can support this)"
  | shortShutdown => "Shutdown timeout too short (minimum: 1s)"
  | longShutdown => "Shutdown timeout too long (maximum: 60s)"
  | zeroCallTimeout => "Call timeout must be greater than 0 when set"
  | noOutboundCapacity => "Outbound capacity must be greater than 0 for bounded policies"
  | noClientAddress => "Client address cannot be empty"
  | shortConnectionTimeout => "Connection timeout too short (minimum: 100ms)"
  | smallFrames => "Max frame size too small (minimum: 16 bytes)"
  | largeFrames size => s!"Max frame size too large: {size} bytes (length prefix is 32 bits)"
  | noStringLength => "Max string length must be greater than 0"
  | noCollectionLength => "Max collection length must be greater than 0"
  | noDepth => "Max depth must be greater than 0"
  | largeDepth depth => s!"Max depth too large: {depth} (maximum: 1024)"
  | noWorkers => "Pooled strategy needs at least 1 worker"
  | manyWorkers count => s!"Worker count too large: {count} (maximum: 512)"
  | noAppName => "Application name cannot be empty"
  | longAppName size => s!"Application name too long: {size} characters (maximum: 64)"
  | missingLogDirectory path => s!"Log file directory does not exist: {path}"
  | noLogPath => "log_file_path must be specified when log_to_file is true"
  | noLogOutput => "At least one logging output (console or file) must be enabled"

def problemIf (c : Prop) [Decidable c] (p : SettingsProblem) : List SettingsProblem :=
  if c then [p] else []

@[simp] theorem problemIf_eq_nil {c : Prop} [Decidable c] {p : SettingsProblem} :
    problemIf c p = [] ↔ ¬ c := by
  by_cases h : c <;> simp [problemIf, h]

def OutboundSettings.problems (o : OutboundSettings) : List SettingsProblem :=
  problemIf (o.policy ≠ .unbounded ∧ o.capacity = 0) .noOutboundCapacity

def callTimeoutProblems (t : Option Duration) : List SettingsProblem :=
  problemIf (t.any (·.isZero)) .zeroCallTimeout

def ServerSettings.problems (s : ServerSettings) : List SettingsProblem :=
  (if s.address.isEmpty then [.noServerAddress]
    else problemIf (¬ Address.isSocket s.address) (.badServerAddress s.address)) ++
  (if s.maxConnections = 0 then [.noConnections]
    else problemIf (100000 < s.maxConnections) (.manyConnections s.maxConnections)) ++
  (if s.shutdownTimeout.seconds < 1 then [.shortShutdown]
    else problemIf (60 < s.shutdownTimeout.seconds) .longShutdown) ++
  callTimeoutProblems s.callTimeout ++ s.outbound.problems

def ClientSettings.problems (c : ClientSettings) : List SettingsProblem :=
  problemIf c.address.isEmpty .noClientAddress ++
  problemIf (c.connectionTimeout.millis < 100) .shortConnectionTimeout ++
  callTimeoutProblems c.callTimeout ++ c.outbound.problems

def Limits.problems (l : Limits) : List SettingsProblem :=
  (if l.maxFrameSize < 16 then [.smallFrames]
    else problemIf (4294967295 < l.maxFrameSize) (.largeFrames l.maxFrameSize)) ++
  problemIf (l.maxStringLen = 0) .noStringLength ++
  problemIf (l.maxCollectionLen = 0) .noCollectionLength ++
  (if l.maxDepth = 0 then [.noDepth]
    else problemIf (1024 < l.maxDepth) (.largeDepth l.maxDepth))

def DispatchSettings.problems (d : DispatchSettings) : List SettingsProblem :=
  match d.strategy with
  | .inline => []
  | .pooled =>
    if d.workers = 0 then [.noWorkers]
    else problemIf (512 < d.workers) (.manyWorkers d.workers)

/-- `exist` says which directories exist. -/
def LoggingSettings.problems (exist : String → Bool) (l : LoggingSettings) : List SettingsProblem :=
  (if l.appName.isEmpty then [.noAppName]
    else problemIf (64 < l.appName.utf8ByteSize) (.longAppName l.appName.utf8ByteSize)) ++
  (if l.toFile then
    match l.filePath with
    | none => [.noLogPath]
    | some path =>
      match Path.parent? path with
      | none => []
      | some parent => problemIf (¬ parent.isEmpty ∧ ¬ exist parent) (.missingLogDirectory parent)
    else []) ++
  problemIf (¬ l.toConsole ∧ ¬ l.toFile) .noLogOutput

def Settings.problems (exist : String → Bool) (s : Settings) : List SettingsProblem :=
  s.server.problems ++ s.client.problems ++ s.codec.problems ++ s.dispatch.problems ++
    s.logging.problems exist

def Settings.check (exist : String → Bool) (s : Settings) : Except SettingsFault Unit :=
  match s.problems exist with
  | [] => .ok ()
  | problems => .error (.invalid (problems.map (·.message)))

end GraphRpc
