import GraphRpc.Decimal.Reading

/-!
# Log levels

How much is logged. A level is written by its name, in letters of any case, or by its number.
-/

namespace GraphRpc

inductive LogLevel where
  | error | warn | info | debug | trace
deriving DecidableEq, Repr, Inhabited

namespace LogLevel

def name : LogLevel → String
  | error => "error"
  | warn => "warn"
  | info => "info"
  | debug => "debug"
  | trace => "trace"

def number : LogLevel → Nat
  | error => 1
  | warn => 2
  | info => 3
  | debug => 4
  | trace => 5

def all : List LogLevel := [error, warn, info, debug, trace]

def ofString? (s : String) : Option LogLevel :=
  match Decimal.word? s with
  | some n => all.find? (·.number == n)
  | none => all.find? (·.name == s.toLower)

end LogLevel
end GraphRpc
