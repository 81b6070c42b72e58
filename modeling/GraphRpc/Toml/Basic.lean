import GraphRpc.Ieee

/-!
# TOML documents

What a document says: tables whose keys keep their order. A table remembers what brought it about,
which decides how it may still be extended.
-/

namespace GraphRpc.Toml

inductive Origin where
  | header
  | implicit
  | dotted
  /-- Braces, which close it for good. -/
  | inline
deriving DecidableEq, Repr, Inhabited

inductive Value where
  | string (s : String)
  | integer (n : Int)
  | float (x : Binary64)
  | boolean (b : Bool)
  | dateTime (text : String)
  /-- An array, or the tables that doubled headers have made. -/
  | array (ofTables : Bool) (items : List Value)
  | table (origin : Origin) (entries : List (String × Value))
deriving Repr, Inhabited

abbrev Table := List (String × Value)

namespace Table

def erase (t : Table) (key : String) : Table := t.filter (·.1 != key)

variable {β : Type}

/-- Change the value of a key in its place, or add a value at the end. -/
def alter (f : Option Value → Option (β × Value)) (key : String) : Table → Option (β × Table)
  | [] => (f none).map fun (b, v) => (b, [(key, v)])
  | (k, v) :: rest =>
    if k = key then (f (some v)).map fun (b, v) => (b, (k, v) :: rest)
    else (alter f key rest).map fun (b, rest) => (b, (k, v) :: rest)

def add (t : Table) (key : String) (v : Value) : Option Table :=
  if t.any (·.1 == key) then none else some (t ++ [(key, v)])

def alterLast {α : Type} (f : α → Option (β × α)) (items : List α) : Option (β × List α) :=
  match items.getLast? with
  | none => none
  | some last => (f last).map fun (b, last) => (b, items.dropLast ++ [last])

/-- Change the table at the end of a path, which a header or a dotted key goes down. Tables that are
missing on the way are made. A dotted key goes through no table with a header of its own. -/
def descend (dotted : Bool) (f : Origin → Table → Option (β × Table)) :
    List String → Origin → Table → Option (β × Table)
  | [], origin, t => f origin t
  | key :: path, _, t =>
    let made : Origin := if dotted then .dotted else .implicit
    let enter : Value → Option (β × Value)
      | .table origin entries =>
        (descend dotted f path origin entries).map fun (b, t) => (b, .table origin t)
      | _ => none
    t.alter (fun
      | none => enter (.table made [])
      | some (.array true items) => (alterLast enter items).map fun (b, vs) => (b, .array true vs)
      | some (.table origin entries) =>
        if origin = .inline ∨ (dotted ∧ origin = .header) then none
        else enter (.table origin entries)
      | some _ => none) key

/-- Add a value under a dotted key. The table that holds it must have come about by dotted keys,
unless the key has one part only. -/
def addDotted (t : Table) (path : List String) (key : String) (v : Value) : Option Table :=
  (descend true (fun origin t =>
    if (origin = .dotted) = path.isEmpty then none
    else (t.add key v).map fun t => ((), t)) path .header t).map (·.2)

end Table
end GraphRpc.Toml
