import GraphRpc.Settings.Fault

/-!
# Paths of files

A path names one thing after another, between slashes. Slashes that follow each other count once,
and a single dot says nothing but in front of all.

Of all directories only those are known here that every system has, and the one that the program
runs in.
-/

namespace GraphRpc.Path

/-- A path read from behind, without what says nothing at its end. -/
def dropVoid : List Char → List Char
  | '/' :: r => dropVoid r
  | '.' :: '/' :: r => dropVoid r
  | ['.'] => []
  | r => r

/-- What a path begins with that is not the name of anything in it: a slash, or a single dot. -/
def start : List Char → List Char
  | '/' :: _ => ['/']
  | ['.'] => ['.']
  | '.' :: '/' :: _ => ['.']
  | _ => []

/-- The directory that a path is in, as the path tells it: nothing if the path is a root or empty, and
the empty path if it is a name only. -/
def parent? (path : String) : Option String :=
  let cs := path.toList
  let start := start cs
  match dropVoid (cs.drop start.length).reverse with
  | [] => if start = ['.'] then some "" else none
  | r =>
    let parents := dropVoid ((r.dropWhile (· ≠ '/')).drop 1)
    some (String.ofList (start ++ parents.reverse))

def names (path : String) : List String :=
  (path.splitOn "/").filter fun name => name ≠ "" && name ≠ "."

def directories : List (List String) :=
  [["tmp"], ["etc"], ["usr"], ["var"], ["home"], ["root"], ["dev"]]

def walk (place : List String) : List String → Except FileFault Unit
  | [] => .ok ()
  | name :: rest =>
    if name = ".." then walk place.dropLast rest
    else if 255 < name.utf8ByteSize then .error .longName
    else if place ++ [name] ∈ directories then walk (place ++ [name]) rest
    else .error .notFound

def find (path : String) : Except FileFault Unit :=
  if path.contains '\x00' then .error .badName
  else if path.isEmpty then .error .notFound
  else if 4095 < path.utf8ByteSize then .error .longName
  else walk (if path.startsWith "/" then [] else ["."]) (names path)

def isDirectory (path : String) : Bool :=
  match find path with
  | .ok () => true
  | .error _ => false

/-- Open a file to write at its end. There are no files here, and no directory can be opened so. -/
def openFile (path : String) : Except FileFault Unit :=
  match find path with
  | .ok () => .error .isDirectory
  | .error fault =>
    if path.endsWith "/" && (parent? path).any isDirectory then .error .isDirectory
    else .error fault

end GraphRpc.Path
