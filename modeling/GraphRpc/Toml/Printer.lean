import GraphRpc.Decimal.Shortest
import GraphRpc.Toml.Document

/-!
# Writing TOML

Each entry on a line of its own, and each table behind a header with its full path, after a blank
line. Tables come after the other entries of the table around them.
-/

namespace GraphRpc.Toml

def keyText (key : String) : String :=
  if !key.isEmpty && key.toList.all isBareKeyChar then key
  else String.ofList ('"' :: escaped false 0 0 key.toList ++ ['"'])

mutual

def Value.text : Value → String
  | .string s => String.ofList (quote s.toList)
  | .integer n => toString n
  | .float x => (Decimal.text ".0" x).toLower
  | .boolean b => if b then "true" else "false"
  | .dateTime t => t
  | .array _ items => "[" ++ ", ".intercalate (itemTexts items) ++ "]"
  | .table _ entries => "\x7b " ++ ", ".intercalate (entryTexts entries) ++ " \x7d"

def itemTexts : List Value → List String
  | [] => []
  | v :: rest => v.text :: itemTexts rest

def entryTexts : List (String × Value) → List String
  | [] => []
  | (k, v) :: rest => (keyText k ++ " = " ++ v.text) :: entryTexts rest

end

def plainLines : Table → List String
  | [] => []
  | (_, .table ..) :: rest => plainLines rest
  | (k, v) :: rest => (keyText k ++ " = " ++ v.text) :: plainLines rest

/-- The header of a table, unless it only holds tables, and the lines below it. -/
def headed (path : List String) (entries : Table) : List (List String) :=
  let plain := plainLines entries
  if plain.isEmpty && !entries.isEmpty then []
  else [("[" ++ ".".intercalate (path.map keyText) ++ "]") :: plain]

mutual

def Value.sections (path : List String) : Value → List (List String)
  | .table _ entries => headed path entries ++ sectionsIn path entries
  | _ => []

def sectionsIn (path : List String) : List (String × Value) → List (List String)
  | [] => []
  | (k, v) :: rest => v.sections (path ++ [k]) ++ sectionsIn path rest

end

def print (t : Table) : String :=
  let plain := plainLines t
  let front := if plain.isEmpty then [] else [plain]
  let sections := front ++ sectionsIn [] t
  "\n".intercalate (sections.map fun lines => String.join (lines.map (· ++ "\n")))

end GraphRpc.Toml
