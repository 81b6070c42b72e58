import GraphRpc.Lanes
import GraphRpc.Limits
import GraphRpc.Outbound
import GraphRpc.Settings.Duration
import GraphRpc.Settings.LogLevel

/-!
# Settings

What can be set about servers and clients, the limits of their codecs, dispatching and logging.
-/

namespace GraphRpc

structure OutboundSettings where
  policy : OverflowPolicy := .unbounded
  capacity : Nat := 1024
deriving DecidableEq, Repr, Inhabited

structure ServerSettings where
  address : String := "127.0.0.1:7070"
  maxConnections : Nat := 1000
  shutdownTimeout : Duration := .ofSeconds 10
  callTimeout : Option Duration := none
  outbound : OutboundSettings := {}
deriving DecidableEq, Repr, Inhabited

structure ClientSettings where
  address : String := "127.0.0.1:7070"
  connectionTimeout : Duration := .ofSeconds 5
  callTimeout : Option Duration := none
  outbound : OutboundSettings := {}
deriving DecidableEq, Repr, Inhabited

structure DispatchSettings where
  strategy : StrategyKind := .pooled
  workers : Nat := 1
deriving DecidableEq, Repr, Inhabited

structure LoggingSettings where
  appName : String := "boson-rpc"
  level : LogLevel := .info
  toConsole : Bool := true
  toFile : Bool := false
  filePath : Option String := none
  json : Bool := false
deriving DecidableEq, Repr, Inhabited

structure Settings where
  server : ServerSettings := {}
  client : ClientSettings := {}
  codec : Limits := {}
  dispatch : DispatchSettings := {}
  logging : LoggingSettings := {}
deriving DecidableEq, Repr, Inhabited

def OverflowPolicy.name : OverflowPolicy → String
  | unbounded => "unbounded"
  | dropOldest => "drop_oldest"
  | rejectNew => "reject_new"

def OverflowPolicy.all : List OverflowPolicy := [unbounded, dropOldest, rejectNew]

def StrategyKind.name : StrategyKind → String
  | pooled => "pooled"
  | inline => "inline"

def StrategyKind.all : List StrategyKind := [pooled, inline]

end GraphRpc
