/-!
# Durations

Lengths of time as settings hold them, to the nanosecond. On paper they are milliseconds in a word
of 64 bits.
-/

namespace GraphRpc

structure Duration where
  nanoseconds : Nat
deriving DecidableEq, Repr, Inhabited

namespace Duration

def ofMillis (ms : Nat) : Duration := ⟨ms * 1000000⟩

def ofSeconds (s : Nat) : Duration := ofMillis (s * 1000)

def millis (d : Duration) : Nat := d.nanoseconds / 1000000

def seconds (d : Duration) : Nat := d.nanoseconds / 1000000000

/-- Whole milliseconds as far as they fit a word. -/
def wordMillis (d : Duration) : Nat := d.millis % UInt64.size

def isZero (d : Duration) : Bool := d.nanoseconds = 0

theorem millis_ofMillis (ms : Nat) : (ofMillis ms).millis = ms := by
  simp [ofMillis, millis]

end Duration
end GraphRpc
