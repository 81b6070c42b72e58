/-!
# Socket addresses

The written form of an address to listen at: a version 4 address as four decimal numbers, or a
version 6 address in brackets, and a port behind a colon. Readers take what they can from the front
of a text.
-/

namespace GraphRpc.Address

abbrev Reader (β : Type) := List Char → Option (β × List Char)

def take (c : Char) : Reader Unit
  | d :: r => if c = d then some ((), r) else none
  | [] => none

def digit? (base : Nat) (c : Char) : Option Nat :=
  let n := if c.isDigit then c.toNat - 48
    else if 'a' ≤ c ∧ c ≤ 'z' then c.toNat - 87
    else if 'A' ≤ c ∧ c ≤ 'Z' then c.toNat - 55
    else base
  if n < base then some n else none

/-- A number up to `max`, of at most `places` digits if that is limited. -/
def number (base max : Nat) (places : Option Nat) (leadingZero : Bool) : Reader Nat := fun cs =>
  let isDigit := fun c => (digit? base c).isSome
  let ds := cs.takeWhile isDigit
  let n := ds.foldl (fun n c => n * base + (digit? base c).getD 0) 0
  if ds.isEmpty || places.any (· < ds.length) || max < n then none
  else if !leadingZero && ds.head? = some '0' && 1 < ds.length then none
  else some (n, cs.dropWhile isDigit)

def octet : Reader Nat := number 10 255 (some 3) false

def version4 : Reader Unit := fun cs => do
  let (_, cs) ← octet cs
  let (_, cs) ← take '.' cs
  let (_, cs) ← octet cs
  let (_, cs) ← take '.' cs
  let (_, cs) ← octet cs
  let (_, cs) ← take '.' cs
  let (_, cs) ← octet cs
  return ((), cs)

def separator (i : Nat) (cs : List Char) : Option (List Char) :=
  if i = 0 then some cs else (take ':' cs).map (·.2)

/-- Read as many of up to `i + room` groups as there are. A version 4 address may stand for the last
two. The answer is how many there are, and whether they end in such an address. -/
def groups : (room i : Nat) → List Char → (Nat × Bool) × List Char
  | 0, i, cs => ((i, false), cs)
  | room + 1, i, cs =>
    match if 0 < room then (separator i cs).bind version4 else none with
    | some (_, cs) => ((i + 2, true), cs)
    | none =>
      match (separator i cs).bind (number 16 0xffff (some 4) true) with
      | some (_, cs) => groups room (i + 1) cs
      | none => ((i, false), cs)

def version6 : Reader Unit := fun cs =>
  let ((count, ended), rest) := groups 8 0 cs
  if count = 8 then some ((), rest)
  else if ended then none
  else do
    let (_, rest) ← take ':' rest
    let (_, rest) ← take ':' rest
    return ((), (groups (7 - count) 0 rest).2)

def port : Reader Nat := fun cs => do
  let (_, cs) ← take ':' cs
  number 10 0xffff none true cs

def scope : Reader Nat := fun cs => do
  let (_, cs) ← take '%' cs
  number 10 0xffffffff none true cs

def socket4 : Reader Unit := fun cs => do
  let (_, cs) ← version4 cs
  let (_, cs) ← port cs
  return ((), cs)

def socket6 : Reader Unit := fun cs => do
  let (_, cs) ← take '[' cs
  let (_, cs) ← version6 cs
  let cs := ((scope cs).map (·.2)).getD cs
  let (_, cs) ← take ']' cs
  let (_, cs) ← port cs
  return ((), cs)

def isSocket (s : String) : Bool :=
  match socket4 s.toList <|> socket6 s.toList with
  | some (_, rest) => rest.isEmpty
  | none => false

end GraphRpc.Address
