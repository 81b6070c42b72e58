import GraphRpc.Toml.Quoted
import GraphRpc.Toml.Scalar

/-!
# Reading TOML

A document is a sequence of lines: blank or a comment, a header that begins a table, or a key with
its value. A table is entered into the document when the next header, or the end, closes it.
-/

namespace GraphRpc.Toml

/-- Every end of line as one character. A carriage return that ends no line stays, and is allowed
nowhere. -/
def unifyBreaks : List Char → List Char
  | '\r' :: '\n' :: r => '\n' :: unifyBreaks r
  | c :: r => c :: unifyBreaks r
  | [] => []

def skipBlanks (cs : List Char) : List Char := cs.dropWhile isBlank

def skipComment : List Char → List Char
  | '#' :: r => r.dropWhile isPlain
  | r => r

def endLine? (cs : List Char) : Option (List Char) :=
  match skipComment (skipBlanks cs) with
  | [] => some []
  | '\n' :: r => some r
  | _ => none

def skipGaps : (fuel : Nat) → List Char → List Char
  | 0, cs => cs
  | fuel + 1, cs =>
    match skipBlanks cs with
    | '\n' :: r => skipGaps fuel r
    | '#' :: r => skipGaps fuel (r.dropWhile isPlain)
    | r => r

/-! ## Keys -/

def isBareKeyChar (c : Char) : Bool := c.isAlphanum || c = '_' || c = '-'

def takeSimpleKey (cs : List Char) : Option (List Char × List Char) :=
  match cs with
  | '"' :: r => basic r
  | '\'' :: r => literal r
  | cs =>
    let key := cs.takeWhile isBareKeyChar
    if key.isEmpty then none else some (key, cs.dropWhile isBareKeyChar)

def depthLimit : Nat := 80

/-- Take the parts of a dotted key, of which there are fewer than `room`. -/
def takeKey : (room : Nat) → List Char → Option (List String × List Char)
  | 0, _ => none
  | room + 1, cs => do
    let (key, r) ← takeSimpleKey (skipBlanks cs)
    match skipBlanks r with
    | '.' :: r =>
      let (path, r) ← takeKey room r
      return (String.ofList key :: path, r)
    | r => return ([String.ofList key], r)

/-! ## Values -/

def addAt (t : Table) (path : List String) (v : Value) : Option Table :=
  path.getLast?.bind fun key => t.addDotted path.dropLast key v

mutual

def takeValue : (fuel room : Nat) → List Char → Option (Value × List Char)
  | 0, _, _ => none
  | fuel + 1, room, cs =>
    match cs, room with
    | '[' :: r, room + 1 => (takeItems fuel room r).map fun (vs, r) => (.array false vs, r)
    | '{' :: r, room + 1 =>
      match skipBlanks r with
      | '}' :: r => some (.table .inline [], r)
      | r => (takeEntries fuel room [] r).map fun (t, r) => (.table .inline t, r)
    | '"' :: _, _ | '\'' :: _, _ => (takeQuoted cs).map fun (s, r) => (.string (String.ofList s), r)
    | cs, _ => takeScalar cs

def takeItems : (fuel room : Nat) → List Char → Option (List Value × List Char)
  | 0, _, _ => none
  | fuel + 1, room, cs =>
    match skipGaps cs.length cs with
    | ']' :: r => some ([], r)
    | r => do
      let (v, r) ← takeValue fuel room r
      match skipGaps r.length r with
      | ',' :: r =>
        let (vs, r) ← takeItems fuel room r
        return (v :: vs, r)
      | ']' :: r => return ([v], r)
      | _ => none

def takeEntries : (fuel room : Nat) → Table → List Char → Option (Table × List Char)
  | 0, _, _, _ => none
  | fuel + 1, room, t, cs => do
    let (path, r) ← takeKey (depthLimit - 1) cs
    match r with
    | '=' :: r =>
      let (v, r) ← takeValue fuel room (skipBlanks r)
      let t ← addAt t path v
      match skipBlanks r with
      | ',' :: r => takeEntries fuel room t r
      | '}' :: r => return (t, r)
      | _ => none
    | _ => none

end

/-! ## Lines -/

/-- A document as far as it was read: what is closed, and the table that is open. -/
structure Draft where
  closed : Table := []
  /-- The path of the open table, or nothing for the entries in front of all headers. -/
  path : List String := []
  repeated : Bool := false
  entries : Table := []
deriving Inhabited

namespace Draft

def alterParent {β : Type} (path : List String) (f : String → Table → Option (β × Table))
    (t : Table) : Option (β × Table) :=
  path.getLast?.bind fun key => t.descend false (fun _ => f key) path.dropLast .header

def close (d : Draft) : Option Table :=
  let opened : Value := .table .header d.entries
  if d.path.isEmpty then some d.entries
  else if d.repeated then
    (alterParent d.path (fun key => Table.alter (fun
      | some (.array true items) => some ((), .array true (items ++ [opened]))
      | _ => none) key) d.closed).map (·.2)
  else (alterParent d.path (fun key t => (t.add key opened).map ((), ·)) d.closed).map (·.2)

/-- Begin a table. One that only tables inside it have brought about is gone on with. -/
def openTable (d : Draft) (path : List String) : Option Draft := do
  let (entries, closed) ← alterParent path (fun key t =>
    match t.lookup key with
    | none => some ([], t)
    | some (.table .implicit entries) => some (entries, t.erase key)
    | some _ => none) (← d.close)
  return { closed, path, entries }

def openRepeated (d : Draft) (path : List String) : Option Draft := do
  let (_, closed) ← alterParent path (fun key => Table.alter (fun
    | none => some ((), .array true [])
    | some (.array true items) => some ((), .array true items)
    | some _ => none) key) (← d.close)
  return { closed, path, repeated := true }

end Draft

def takeHeader (d : Draft) : List Char → Option (Draft × List Char)
  | '[' :: cs => do
    let (path, r) ← takeKey (depthLimit - 1) cs
    match r with
    | ']' :: ']' :: r => return (← d.openRepeated path, ← endLine? r)
    | _ => none
  | cs => do
    let (path, r) ← takeKey (depthLimit - 1) cs
    match r with
    | ']' :: r => return (← d.openTable path, ← endLine? r)
    | _ => none

def takeAssignment (d : Draft) (cs : List Char) : Option (Draft × List Char) := do
  let (path, r) ← takeKey (depthLimit - 1) cs
  match r with
  | '=' :: r =>
    let (v, r) ← takeValue (2 * r.length + 2) (depthLimit - 1) (skipBlanks r)
    let r ← endLine? r
    return ({ d with entries := ← addAt d.entries path v }, r)
  | _ => none

def takeLines : (fuel : Nat) → Draft → List Char → Option Table
  | 0, d, _ => d.close
  | fuel + 1, d, cs =>
    match skipBlanks cs with
    | [] => d.close
    | '\n' :: r => takeLines fuel d r
    | '#' :: r => do takeLines fuel d (← endLine? ('#' :: r))
    | '[' :: r => do
      let (d, r) ← takeHeader d r
      takeLines fuel d r
    | r => do
      let (d, r) ← takeAssignment d r
      takeLines fuel d r

def skipMark : List Char → List Char
  | '\ufeff' :: r => r
  | r => r

/-- The table that a document describes, if it is well formed. Each line takes a character. -/
def parse? (text : String) : Option Table :=
  let cs := unifyBreaks (skipMark text.toList)
  takeLines (cs.length + 1) {} cs

end GraphRpc.Toml
