import GraphRpc.Text.CodePoints

/-!
# Blanks

The characters with the property White_Space of Unicode: tab to carriage return, the next line
control, and all kinds of spaces and separators.
-/

namespace GraphRpc.Text

def blanks : CodePoints := ⟨
  [0x9, 0xe, 0x20, 0x21, 0x85, 0x86, 0xa0, 0xa1, 0x1680, 0x1681, 0x2000, 0x200b, 0x2028, 0x202a,
    0x202f, 0x2030, 0x205f, 0x2060, 0x3000, 0x3001]⟩

def isBlank (c : Char) : Bool := blanks.contains c

def trimBlanks (cs : List Char) : List Char :=
  ((cs.dropWhile isBlank).reverse.dropWhile isBlank).reverse

end GraphRpc.Text
