import GraphRpc.Settings.Basic
import GraphRpc.Settings.Fault
import GraphRpc.Settings.LogField

/-!
# Log filters

A filter says for each part of a program how much it may log. It is a list of directives, a level
each, for what comes from a target, from within a span, or with a field, or for everything else. The
more a directive asks for, the earlier it stands. A variable may hold a filter, which goes before
the level that is set.
-/

namespace GraphRpc

/-- How much may be logged by what fits. Without a level nothing may be. -/
structure LogDirective where
  target : Option String := none
  span : Option String := none
  field : Option LogField := none
  level : Option LogLevel := some .trace
deriving DecidableEq, Repr, Inhabited

namespace LogDirective

def level? (s : String) : Option (Option LogLevel) :=
  if s.toLower = "off" ∨ Decimal.word? s = some 0 then some none
  else (LogLevel.ofString? s).map some

def isNameStart (c : Char) : Bool := Text.isAlphanumeric c || c = '_' || c = ':' || c = '-'

def width (cs : List Char) : Nat := cs.foldl (fun n c => n + c.utf8Size) 0

/-- Take that many bytes off the front, unless that would cut a character in two. -/
def splitBytes? : (bytes : Nat) → List Char → Option (List Char × List Char)
  | 0, cs => some ([], cs)
  | _ + 1, [] => none
  | bytes + 1, c :: cs =>
    if c.utf8Size ≤ bytes + 1 then
      (splitBytes? (bytes + 1 - c.utf8Size) cs).map fun (front, rest) => (c :: front, rest)
    else none
termination_by _ cs => cs.length

def piece? (cs : List Char) (first : Nat) (last : Option Nat) : Option String := do
  let (_, cs) ← splitBytes? first cs
  let cs ← match last with
    | none => some cs
    | some last => (splitBytes? (last - first) cs).map (·.1)
  return String.ofList cs

/-- Where the level of a directive begins, if it has one, given where the rest of it begins. -/
def levelStart? (offset : Nat) : List Char → Option (Option Nat)
  | [] => some none
  | '=' :: _ => some (some (offset + 1))
  | _ => none

/-- Read a directive. The blanks around it do not count, but it is cut from the text with them. -/
def ofString? (s : String) : Option LogDirective := do
  let cut := fun first last => piece? s.toList first (some last)
  let cs := Text.trimBlanks s.toList
  guard (cs.head?.any fun c => c = '[' || isNameStart c)
  let name := cs.takeWhile fun c => c ≠ '=' && c ≠ '['
  let n := width name
  let withLevel := fun (d : LogDirective) (start : Option Nat) => match start with
    | none => some d
    | some k => do
      let word ← piece? s.toList k none
      if word.isEmpty then some d else (level? word).map fun level => { d with level }
  match cs.drop name.length with
  | [] => return match level? s with
    | some level => { level }
    | none => { target := some s }
  | '=' :: _ => withLevel { target := some (← cut 0 n) } (some (n + 1))
  | _ :: rest =>
    let target ← if n = 0 then some none else (cut 0 n).map some
    let span := rest.takeWhile fun c => c ≠ ']' && c ≠ '{'
    let m := n + 1 + width span
    let spanText ← cut (n + 1) m
    match rest.drop span.length with
    | '{' :: rest =>
      let field := rest.takeWhile (· ≠ '}')
      let k := m + 1 + width field
      guard (!field.isEmpty)
      let field? ← LogField.ofString? (← cut (m + 1) k)
      match rest.drop field.length with
      | '}' :: ']' :: rest =>
        let span := if span.isEmpty then none else some spanText
        withLevel { target, span, field := some field? } (← levelStart? (k + 2) rest)
      | _ => none
    | ']' :: rest => withLevel { target, span := some spanText } (← levelStart? (m + 1) rest)
    | _ => none

def text (d : LogDirective) : String :=
  let inner := d.span.getD "" ++ d.field.elim "" fun f => "\x7b" ++ f.text ++ "\x7d"
  let brackets := if d.span.isSome ∨ d.field.isSome then "[" ++ inner ++ "]" else ""
  let source := d.target.getD "" ++ brackets
  let level := (d.level.map LogLevel.name).getD "off"
  if d.target.isSome ∨ brackets ≠ "" then source ++ "=" ++ level else level

/-- How much a directive asks for: a longer target, a span, a field. -/
def weight (d : LogDirective) : List Nat :=
  [d.target.elim 0 (·.utf8ByteSize + 1), d.span.elim 0 fun _ => 1, d.field.elim 0 fun _ => 1]

def orderFields : Option LogField → Option LogField → Ordering
  | some a, some b => a.order b
  | _, _ => .eq

def order (a b : LogDirective) : Ordering :=
  (compare a.weight b.weight).then <|
    (compare (a.target.getD "") (b.target.getD "")).then <|
      (compare (a.span.getD "") (b.span.getD "")).then (orderFields a.field b.field)

end LogDirective

abbrev LogFilter := List LogDirective

namespace LogFilter

/-- Enter a directive in its place, or in place of another that asks for the same. -/
def insert (d : LogDirective) : LogFilter → LogFilter
  | [] => [d]
  | e :: rest =>
    match d.order e with
    | .eq => d :: rest
    | .gt => d :: e :: rest
    | .lt => e :: insert d rest

def ofList (directives : List LogDirective) : LogFilter :=
  directives.foldl (fun filter d => insert d filter) []

/-- A filter in words. Directives about spans and fields come last; one about the name of a field
also stands among the others. -/
def ofString? (s : String) : Option LogFilter := do
  let directives ← ((s.splitOn ",").filter (· ≠ "")).mapM LogDirective.ofString?
  let isLate := fun d : LogDirective => d.span.isSome || d.field.isSome
  let late := directives.filter isLate
  let named := late.filter fun d => d.span.isNone && d.field.all (·.value.isNone)
  return ofList (directives.filter (!isLate ·) ++ named) ++ ofList late

def text (filter : LogFilter) : String := ",".intercalate (filter.map (·.text))

/-- The filter of a variable, if it is set and can be read, or else of the settings. -/
def ofSettings (words? : Option String) (l : LoggingSettings) : LogFilter :=
  (words?.bind ofString?).getD [{ level := some l.level }]

end LogFilter

def LoggingSettings.openSinks (openFile : String → Except FileFault Unit) (l : LoggingSettings) :
    Except SettingsFault Unit :=
  if l.toFile then
    match l.filePath with
    | none => .error .noLogPath
    | some path => (openFile path).mapError .unopenableLog
  else if l.toConsole then .ok ()
  else .error .noLogSink

end GraphRpc
