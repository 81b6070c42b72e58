import GraphRpc.Text.Blank
import GraphRpc.Text.Letters

/-!
# Patterns

Regular expressions over characters, as far as it matters whether a text is one. Groups, brackets
and flags have to be well formed. What would need tables of the characters of Unicode is refused:
letters of either case, classes of letters, digits and blanks, edges of words. With the flag `u` off
these are of ASCII alone, and then what could match half a character is refused instead.

A pattern here holds no closing brace, because it stands in braces itself. So whatever needs one is
not well formed.
-/

namespace GraphRpc.Text

structure PatternMode where
  anyCase : Bool := false
  /-- What is matched are characters, and not bytes. -/
  unicode : Bool := true
  /-- Blanks do not count, nor does what follows a number sign on its line. -/
  spaced : Bool := false
deriving DecidableEq, Repr, Inhabited

structure PatternLiteral where
  char : Char
  /-- Whether it is written as a byte, by two hexadecimal digits. -/
  byte : Bool := false
deriving DecidableEq, Repr, Inhabited

namespace PatternMode

def allows (mode : PatternMode) (l : PatternLiteral) : Bool :=
  if mode.unicode then !mode.anyCase else !(l.byte && 127 < l.char.toNat)

def allowsInBrackets (mode : PatternMode) (l : PatternLiteral) : Bool :=
  if mode.unicode then !mode.anyCase else l.char.toNat ≤ 127

def allowsNamed (mode : PatternMode) (negated : Bool) : Bool :=
  if mode.unicode then !mode.anyCase else !negated

def allowsShorthand (mode : PatternMode) (negated : Bool) : Bool := !mode.unicode && !negated

def skipBlanks (inComment : Bool) : List Char → List Char
  | [] => []
  | c :: cs =>
    if inComment then skipBlanks (c ≠ '\n') cs
    else if isBlank c then skipBlanks false cs
    else if c = '#' then skipBlanks true cs
    else c :: cs

def skip (mode : PatternMode) (cs : List Char) : List Char :=
  if mode.spaced then skipBlanks false cs else cs

end PatternMode

namespace Pattern

def maxDepth : Nat := 250

/-- How deep a list of parts is nested, which counts as a part of its own unless there is one. -/
def depthOfAll : List Nat → Nat
  | [] => 0
  | [depth] => depth
  | depths => 1 + depths.foldl max 0

/-! ## Escapes -/

inductive Escape where
  | literal (l : PatternLiteral)
  | shorthand (negated : Bool)
  | textEdge
  | wordEdge

def hexValue? (c : Char) : Option Nat :=
  if c.isDigit then some (c.toNat - 48)
  else if 'a' ≤ c ∧ c ≤ 'f' ∨ 'A' ≤ c ∧ c ≤ 'F' then some (c.toLower.toNat - 87)
  else none

def hexDigits? (mode : PatternMode) : (count : Nat) → (value : Nat) → List Char →
    Option (Nat × List Char)
  | 0, value, cs => some (value, cs)
  | count + 1, value, cs =>
    match mode.skip cs with
    | [] => none
    | c :: cs => (hexValue? c).bind fun d => hexDigits? mode count (value * 16 + d) cs

def codePoint? (mode : PatternMode) (count : Nat) (cs : List Char) :
    Option (Escape × List Char) := do
  let (n, cs) ← hexDigits? mode count 0 cs
  guard (decide n.isValidChar)
  return (.literal ⟨Char.ofNat n, count = 2⟩, cs)

def control? : Char → Option Char
  | 'a' => some '\x07'
  | 't' => some '\t'
  | 'n' => some '\n'
  | 'v' => some '\x0b'
  | 'f' => some '\x0c'
  | 'r' => some '\r'
  | _ => none

def escape? (mode : PatternMode) : List Char → Option (Escape × List Char)
  | [] => none
  | 'x' :: cs => codePoint? mode 2 cs
  | 'u' :: cs => codePoint? mode 4 cs
  | 'U' :: cs => codePoint? mode 8 cs
  | 'b' :: '{' :: _ => none
  | c :: cs =>
    if c ∈ ['d', 's', 'w'] then some (.shorthand false, cs)
    else if c ∈ ['D', 'S', 'W'] then some (.shorthand true, cs)
    else if c ∈ ['A', 'z'] then some (.textEdge, cs)
    else if c ∈ ['b', 'B', '<', '>'] then some (.wordEdge, cs)
    else if c.toNat ≤ 127 && !c.isAlphanum then some (.literal ⟨c, false⟩, cs)
    else (control? c).map fun control => (.literal ⟨control, false⟩, cs)

def Escape.fits (mode : PatternMode) : Escape → Bool
  | literal l => mode.allows l
  | shorthand negated => mode.allowsShorthand negated
  | textEdge => true
  | wordEdge => !mode.unicode

/-! ## Brackets -/

structure Bracket where
  /-- How deep that is nested which the next items are combined with, if they are. -/
  left : Option Nat := none
  items : List Nat := []

def Bracket.depth (b : Bracket) : Nat :=
  match b.left with
  | none => depthOfAll b.items
  | some left => 1 + max left (depthOfAll b.items)

def Bracket.push (b : Bracket) (depth : Nat) : Bracket := { b with items := depth :: b.items }

def asciiClasses : List String :=
  ["alnum", "alpha", "ascii", "blank", "cntrl", "digit", "graph", "lower", "print", "punct",
    "space", "upper", "word", "xdigit"]

/-- The name of a class between colons, which may be negated, and the closing bracket. -/
def asciiClass? : List Char → Option (Bool × List Char)
  | ':' :: cs =>
    let negated := cs.head? = some '^'
    let cs := if negated then cs.tail else cs
    match cs.dropWhile (· ≠ ':') with
    | ':' :: ']' :: rest =>
      if String.ofList (cs.takeWhile (· ≠ ':')) ∈ asciiClasses then some (negated, rest) else none
    | _ => none
  | _ => none

/-- The hyphens at the front, which stand for themselves. -/
def leadingHyphens (mode : PatternMode) : (fuel : Nat) → Bracket → List Char → Bracket × List Char
  | 0, b, cs => (b, cs)
  | fuel + 1, b, cs =>
    match mode.skip cs with
    | '-' :: cs => leadingHyphens mode fuel (b.push 0) cs
    | cs => (b, cs)

/-- Open a bracket. What is in it may be negated, and begins with hyphens or a closing bracket if
these are to stand for themselves. -/
def openBracket? (mode : PatternMode) (cs : List Char) : Option (Bracket × List Char) := do
  let cs := mode.skip cs
  let negated := cs.head? = some '^'
  let cs := if negated then cs.tail else cs
  guard (mode.unicode || !negated)
  let (b, cs) := leadingHyphens mode cs.length {} cs
  guard (b.items.isEmpty || mode.allowsInBrackets ⟨'-', false⟩)
  match cs with
  | [] => none
  | ']' :: cs =>
    if b.items.isEmpty then
      guard (mode.allowsInBrackets ⟨']', false⟩)
      return (b.push 0, cs)
    else return (b, ']' :: cs)
  | cs => return (b, cs)

def bracketItem? (mode : PatternMode) : List Char → Option (Escape × List Char)
  | [] => none
  | '\\' :: cs => escape? mode cs
  | c :: cs => some (.literal ⟨c, false⟩, cs)

def bracketRange? (mode : PatternMode) (cs : List Char) : Option (List Char) := do
  let (first, cs) ← bracketItem? mode cs
  let cs := mode.skip cs
  let isRange := cs.head? = some '-' && !((mode.skip cs.tail).head?.any fun c => c = ']' || c = '-')
  match first with
  | .literal first =>
    guard (mode.allowsInBrackets first)
    if isRange then
      let (last, cs) ← bracketItem? mode (mode.skip cs.tail)
      match last with
      | .literal last =>
        guard (mode.allowsInBrackets last && first.char ≤ last.char)
        return cs
      | _ => none
    else return cs
  | .shorthand negated =>
    guard (!isRange && mode.allowsShorthand negated)
    return cs
  | _ => none

/-- Read on to where all brackets are closed. The result says how deep they are nested. -/
def brackets? (mode : PatternMode) : (fuel : Nat) → Bracket → (outer : List Bracket) →
    List Char → Option (Nat × List Char)
  | 0, _, _, _ => none
  | fuel + 1, b, outer, cs =>
    let combine := fun cs => brackets? mode fuel { left := some b.depth } outer cs
    match mode.skip cs with
    | [] => none
    | '[' :: cs =>
      match asciiClass? cs with
      | some (negated, cs) =>
        if mode.allowsNamed negated then brackets? mode fuel (b.push 0) outer cs else none
      | none =>
        match openBracket? mode cs with
        | some (inner, cs) => brackets? mode fuel inner (b :: outer) cs
        | none => none
    | ']' :: cs =>
      match outer with
      | [] => some (1 + b.depth, cs)
      | parent :: outer => brackets? mode fuel (parent.push (1 + b.depth)) outer cs
    | '&' :: '&' :: cs => combine cs
    | '-' :: '-' :: cs => combine cs
    | '~' :: '~' :: cs => combine cs
    | cs =>
      match bracketRange? mode cs with
      | some cs => brackets? mode fuel (b.push 0) outer cs
      | none => none

/-! ## Groups -/

structure Part where
  depth : Nat := 0
  /-- Whether there is something that can be repeated. -/
  solid : Bool := true

/-- A group as far as it is read: alternatives, and the parts of the last one. -/
structure Level where
  mode : PatternMode
  alternatives : List Nat := []
  parts : List Part := []

namespace Level

def push (level : Level) (part : Part) : Level := { level with parts := part :: level.parts }

def branch (level : Level) : Level :=
  { level with
    alternatives := depthOfAll (level.parts.map (·.depth)) :: level.alternatives
    parts := [] }

def depth (level : Level) : Nat := depthOfAll level.branch.alternatives

def repeat? (level : Level) : Option Level :=
  match level.parts with
  | last :: parts =>
    if last.solid then some { level with parts := ⟨1 + last.depth, true⟩ :: parts } else none
  | [] => none

end Level

structure FlagList where
  seen : List Char := []
  negated : Bool := false
  /-- Whether a minus sign is still without a flag. -/
  dangling : Bool := false
  mode : PatternMode

/-- Read flags up to a colon or a closing parenthesis, which is a part of the result. -/
def flags? (flags : FlagList) : List Char → Option (FlagList × Char × List Char)
  | [] => none
  | c :: cs =>
    if c = ':' ∨ c = ')' then if flags.dangling then none else some (flags, c, cs)
    else if c ∈ flags.seen ∨ c ∉ ['-', 'i', 'm', 's', 'U', 'u', 'R', 'x'] then none
    else
      let on := !flags.negated
      let mode := match c with
        | 'i' => { flags.mode with anyCase := on }
        | 'u' => { flags.mode with unicode := on }
        | 'x' => { flags.mode with spaced := on }
        | _ => flags.mode
      flags? ⟨c :: flags.seen, flags.negated || c = '-', c = '-', mode⟩ cs

def groupName? (cs : List Char) : Option (String × List Char) :=
  let name := cs.takeWhile (· ≠ '>')
  let isFirst := fun c => c = '_' || isLetter c
  let isNext := fun c => c ∈ ['_', '.', '[', ']'] || isAlphanumeric c
  match name, cs.dropWhile (· ≠ '>') with
  | first :: next, _ :: rest =>
    if isFirst first && next.all isNext then some (String.ofList name, rest) else none
  | _, _ => none

inductive Opening where
  | flags (mode : PatternMode)
  | group (name : Option String) (mode : PatternMode)

def opening? (mode : PatternMode) (cs : List Char) : Option (Opening × List Char) :=
  let named := fun cs => (groupName? cs).map fun (name, cs) => (Opening.group (some name) mode, cs)
  match mode.skip cs with
  | '?' :: 'P' :: '<' :: cs => named cs
  | '?' :: '<' :: cs => named cs
  | '?' :: cs =>
    match flags? { mode } cs with
    | some (flags, ':', cs) => some (.group none flags.mode, cs)
    | some (flags, _, cs) => if flags.seen.isEmpty then none else some (.flags flags.mode, cs)
    | none => none
  | cs => some (.group none mode, cs)

def primitive? (mode : PatternMode) : List Char → Option (List Char)
  | [] => none
  | '\\' :: cs => do
    let (escape, cs) ← escape? mode cs
    guard (escape.fits mode)
    return cs
  | c :: cs =>
    let fits := if c = '.' then mode.unicode
      else c = '^' || c = '$' || mode.allows ⟨c, false⟩
    if fits then some cs else none

/-- Read a pattern to its end. The result says how deep it is nested. -/
def read? : (fuel : Nat) → (names : List String) → (outer : List Level) → Level → List Char →
    Option Nat
  | 0, _, _, _, _ => none
  | fuel + 1, names, outer, level, cs =>
    let goOn := fun (level : Level) cs => read? fuel names outer level cs
    let repeated := fun cs => match level.repeat? with
      | none => none
      | some level => goOn level (if cs.head? = some '?' then cs.tail else cs)
    match level.mode.skip cs with
    | [] => if outer.isEmpty then some level.depth else none
    | '(' :: cs =>
      match opening? level.mode cs with
      | none => none
      | some (.flags mode, cs) => goOn { level.push ⟨0, false⟩ with mode } cs
      | some (.group name mode, cs) =>
        if name.any (· ∈ names) then none
        else read? fuel (name.toList ++ names) (level :: outer) { mode } cs
    | ')' :: cs =>
      match outer with
      | [] => none
      | parent :: outer => read? fuel names outer (parent.push ⟨1 + level.depth, true⟩) cs
    | '|' :: cs => goOn level.branch cs
    | '[' :: cs =>
      match openBracket? level.mode cs with
      | none => none
      | some (b, cs) =>
        match brackets? level.mode (cs.length + 1) b [] cs with
        | some (depth, cs) => goOn (level.push ⟨depth, true⟩) cs
        | none => none
    | '?' :: cs => repeated cs
    | '*' :: cs => repeated cs
    | '+' :: cs => repeated cs
    | '{' :: _ => none
    | cs =>
      match primitive? level.mode cs with
      | some cs => goOn (level.push {}) cs
      | none => none

end Pattern

def isPattern (s : String) : Bool :=
  (Pattern.read? (s.length + 1) [] [] { mode := {} } s.toList).any (· ≤ Pattern.maxDepth)

end GraphRpc.Text
