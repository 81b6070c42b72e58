import GraphRpc.Settings.Basic
import GraphRpc.Settings.Fault

/-!
# Settings from the environment

Variables override the default settings. A number that cannot be read overrides nothing, but the
name of a strategy has to be known.
-/

namespace GraphRpc.Settings

abbrev Environment := String → Option String

def override {β : Type} (value : Option β) (change : β → Settings → Settings) (s : Settings) :
    Settings :=
  match value with
  | some b => change b s
  | none => s

def strategyNamed (name : String) : Except SettingsFault StrategyKind :=
  match StrategyKind.all.find? (·.name == name.toLower) with
  | some kind => .ok kind
  | none => .error (.unknownStrategy name.toLower)

def ofEnvironment (env : Environment) : Except SettingsFault Settings := do
  let count := fun name => (env name).bind Decimal.word?
  let duration := fun name => (count name).map Duration.ofMillis
  let strategy ← (env "BOSON_DISPATCH_STRATEGY").mapM strategyNamed
  return ({} : Settings)
    |> override (env "BOSON_SERVER_ADDRESS") (fun a s =>
      { s with server := { s.server with address := a } })
    |> override (env "BOSON_CLIENT_ADDRESS") (fun a s =>
      { s with client := { s.client with address := a } })
    |> override (duration "BOSON_CONNECTION_TIMEOUT_MS") (fun d s =>
      { s with client := { s.client with connectionTimeout := d } })
    |> override (duration "BOSON_CALL_TIMEOUT_MS") (fun d s =>
      { s with client := { s.client with callTimeout := some d } })
    |> override (duration "BOSON_SERVER_CALL_TIMEOUT_MS") (fun d s =>
      { s with server := { s.server with callTimeout := some d } })
    |> override (count "BOSON_MAX_FRAME_SIZE") (fun n s =>
      { s with codec := { s.codec with maxFrameSize := n } })
    |> override strategy (fun k s => { s with dispatch := { s.dispatch with strategy := k } })
    |> override (count "BOSON_DISPATCH_WORKERS") (fun n s =>
      { s with dispatch := { s.dispatch with workers := n } })

end GraphRpc.Settings
