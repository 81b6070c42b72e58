/-!
# Quoted strings

Strings between quotes, on one line or on several. Double quotes allow escapes, single quotes take
everything as it stands. Of the two or four ways to write a string the first that needs no escapes
is taken, and the plainest with escapes if there is none.
-/

namespace GraphRpc.Toml

/-! ## Reading -/

/-- Characters that may stand for themselves between any quotes that allow them. -/
def isPlain (c : Char) : Bool := c = '\t' || (' ' ≤ c && c.toNat ≠ 127)

def shortEscape? : Char → Option Char
  | 'b' => some '\x08'
  | 't' => some '\t'
  | 'n' => some '\n'
  | 'f' => some '\x0c'
  | 'r' => some '\r'
  | '"' => some '"'
  | '\\' => some '\\'
  | _ => none

def hexValue? (c : Char) : Option Nat :=
  if c.isDigit then some (c.toNat - 48)
  else if 'a' ≤ c ∧ c ≤ 'f' then some (c.toNat - 87)
  else if 'A' ≤ c ∧ c ≤ 'F' then some (c.toNat - 55)
  else none

def codePoint? (ds : List Char) : Option Char := do
  let ns ← ds.mapM hexValue?
  let n := ns.foldl (fun n d => n * 16 + d) 0
  if h : n.isValidChar then some (Char.ofNatAux n h) else none

def basic : List Char → Option (List Char × List Char)
  | [] => none
  | '"' :: r => some ([], r)
  | '\\' :: 'u' :: a :: b :: c :: d :: r => do
    let x ← codePoint? [a, b, c, d]
    let (s, r) ← basic r
    return (x :: s, r)
  | '\\' :: 'U' :: a :: b :: c :: d :: e :: f :: g :: h :: r => do
    let x ← codePoint? [a, b, c, d, e, f, g, h]
    let (s, r) ← basic r
    return (x :: s, r)
  | '\\' :: c :: r => do
    let x ← shortEscape? c
    let (s, r) ← basic r
    return (x :: s, r)
  | c :: r =>
    if isPlain c && c ≠ '\\' then (basic r).map fun (s, r) => (c :: s, r) else none

def literal : List Char → Option (List Char × List Char)
  | [] => none
  | '\'' :: r => some ([], r)
  | c :: r => if isPlain c then (literal r).map fun (s, r) => (c :: s, r) else none

/-- What is left out behind a backslash at the end of a line: blanks up to the end of the line, and
then all blanks and further ends of lines. -/
inductive Trim where
  | nothing
  | toBreak
  | pastBreak
deriving DecidableEq, Repr, Inhabited

def isBlank (c : Char) : Bool := c = ' ' || c = '\t'

/-- Read up to three double quotes. One or two more belong to the string. -/
def multilineBasic (trim : Trim) : List Char → Option (List Char × List Char)
  | [] => none
  | c :: r =>
    if isBlank c && trim ≠ .nothing then multilineBasic trim r
    else if c = '\n' && trim ≠ .nothing then multilineBasic .pastBreak r
    else if trim = .toBreak then none
    else
      match c, r with
      | '"', '"' :: '"' :: '"' :: '"' :: r => if r.head? = some '"' then none else some (['"', '"'], r)
      | '"', '"' :: '"' :: '"' :: r => some (['"'], r)
      | '"', '"' :: '"' :: r => some ([], r)
      | '\\', 'u' :: a :: b :: c :: d :: r => do
        let x ← codePoint? [a, b, c, d]
        let (s, r) ← multilineBasic .nothing r
        return (x :: s, r)
      | '\\', 'U' :: a :: b :: c :: d :: e :: f :: g :: h :: r => do
        let x ← codePoint? [a, b, c, d, e, f, g, h]
        let (s, r) ← multilineBasic .nothing r
        return (x :: s, r)
      | '\\', c :: r =>
        if isBlank c then multilineBasic .toBreak r
        else if c = '\n' then multilineBasic .pastBreak r
        else do
          let x ← shortEscape? c
          let (s, r) ← multilineBasic .nothing r
          return (x :: s, r)
      | c, r =>
        if (isPlain c && c ≠ '\\') || c = '\n' then
          (multilineBasic .nothing r).map fun (s, r) => (c :: s, r)
        else none

def multilineLiteral : List Char → Option (List Char × List Char)
  | [] => none
  | '\'' :: '\'' :: '\'' :: '\'' :: '\'' :: r =>
    if r.head? = some '\'' then none else some (['\'', '\''], r)
  | '\'' :: '\'' :: '\'' :: '\'' :: r => some (['\''], r)
  | '\'' :: '\'' :: '\'' :: r => some ([], r)
  | c :: r =>
    if isPlain c || c = '\n' then (multilineLiteral r).map fun (s, r) => (c :: s, r) else none

/-- An end of line right behind the opening quotes is left out. -/
def skipBreak : List Char → List Char
  | '\n' :: r => r
  | r => r

def takeQuoted : List Char → Option (List Char × List Char)
  | '"' :: '"' :: '"' :: r => multilineBasic .nothing (skipBreak r)
  | '"' :: r => basic r
  | '\'' :: '\'' :: '\'' :: r => multilineLiteral (skipBreak r)
  | '\'' :: r => literal r
  | _ => none

/-! ## Writing -/

def longestRun (x : Char) (cs : List Char) : Nat :=
  (cs.foldl (fun (longest, run) c =>
    if c = x then (max longest (run + 1), run + 1) else (longest, 0)) (0, 0)).1

def needsEscape (c : Char) : Bool := (c < ' ' && c ≠ '\t' && c ≠ '\n') || c.toNat = 127

def hexDigits4 (n : Nat) : List Char :=
  [n / 4096 % 16, n / 256 % 16, n / 16 % 16, n % 16].map fun d => (Nat.digitChar d).toUpper

def escape? (multiline : Bool) (c : Char) : Option (List Char) :=
  match c with
  | '\x08' => some ['\\', 'b']
  | '\t' => some ['\\', 't']
  | '\n' => if multiline then none else some ['\\', 'n']
  | '\x0c' => some ['\\', 'f']
  | '\r' => some ['\\', 'r']
  | '\\' => some ['\\', '\\']
  | c => if needsEscape c then some ('\\' :: 'u' :: hexDigits4 c.toNat) else none

/-- The text between double quotes. So many double quotes in a row need no escape. -/
def escaped (multiline : Bool) (allowed : Nat) : (run : Nat) → List Char → List Char
  | _, [] => []
  | run, c :: r =>
    if c = '"' then
      if run < allowed then '"' :: escaped multiline allowed (run + 1) r
      else '\\' :: '"' :: escaped multiline allowed 0 r
    else
      match escape? multiline c with
      | some e => e ++ escaped multiline allowed 0 r
      | none => c :: escaped multiline allowed 0 r

/-- Write a string in the plainest way. -/
def quote (cs : List Char) : List Char :=
  let single := longestRun '\'' cs
  let double := longestRun '"' cs
  let code := cs.any needsEscape
  let backslash := cs.contains '\\'
  let newline := cs.contains '\n'
  let begin : List Char := if newline then ['\n'] else []
  let onLine := '"' :: escaped false 0 0 cs ++ ['"']
  let onLines := ['"', '"', '"'] ++ begin ++ escaped true 2 0 cs ++ ['"', '"', '"']
  if !code && !backslash && double = 0 && !newline then onLine
  else if !code && single = 0 && !newline then '\'' :: cs ++ ['\'']
  else if !code && !backslash && double ≤ 2 then onLines
  else if !code && single ≤ 2 then ['\'', '\'', '\''] ++ begin ++ cs ++ ['\'', '\'', '\'']
  else if newline then onLines
  else onLine

end GraphRpc.Toml
