import GraphRpc.Decimal.Reading
import GraphRpc.Failure
import GraphRpc.Settings.Address

/-!
# Surroundings

What a program finds around it where there is no network and no socket but its own: addresses that lead
nowhere, and the paths at which there are files and sockets.
-/

namespace GraphRpc

inductive Remote where
  | network (address : String)
  | socketFile
deriving DecidableEq, Repr

namespace Address

/-- The host in front of the last colon and the port behind it. -/
def hostAndPort? (s : String) : Option (String × String) :=
  match (s.splitOn ":").reverse with
  | port :: host :: hosts => some (":".intercalate (host :: hosts).reverse, port)
  | _ => none

def isPort (s : String) : Bool :=
  match number 10 0xffff none true (Decimal.signed s.toList).2 with
  | some (_, rest) => rest.isEmpty && !s.startsWith "-"
  | none => false

/-- Whether the address of a host is known without asking anyone. -/
def isKnownHost (host : String) : Bool :=
  host = "localhost" || host.contains ':' || host.all fun c => c.isDigit || c = '.'

def fault? (s : String) : Option StreamFault :=
  if isSocket s then none
  else
    match hostAndPort? s with
    | none => some .badAddress
    | some (host, port) =>
      if !isPort port then some .badPort
      else if !isKnownHost host then some .unresolved
      else none

def bindFault (s : String) : StreamFault := (fault? s).getD .unassignable

end Address

def Remote.connectFault : Remote → StreamFault
  | .network address => (Address.fault? address).getD .unreachable
  | .socketFile => .noEntry

structure Directory where
  paths : List String := []
deriving DecidableEq, Repr, Inhabited

namespace Directory

def has (d : Directory) (path : String) : Bool := d.paths.contains path

def remove (d : Directory) (path : String) : Directory := ⟨d.paths.filter (· != path)⟩

/-- Put a socket at a path. A file that is left there makes way. -/
def bind (d : Directory) (path : String) : Directory := ⟨(d.remove path).paths ++ [path]⟩

end Directory

/-- What the peer on a socket is called, which need not be bound to a path of its own. -/
def socketPeer (path : Option String) : String := path.getD "unix:unnamed"

end GraphRpc
