import GraphRpc.Text.Hidden

/-!
# Quoted text

A text between double quotes. A double quote and a backslash are escaped by a backslash, the common
controls have letters, and every other character that would not show by itself is written by its
code point.
-/

namespace GraphRpc.Text

def quoteChar (c : Char) : String :=
  if c = '"' then "\\\""
  else if c = '\\' then "\\\\"
  else if c = '\n' then "\\n"
  else if c = '\r' then "\\r"
  else if c = '\t' then "\\t"
  else if c.toNat = 0 then "\\0"
  else if isHidden c then "\\u\x7b" ++ String.ofList (Nat.toDigits 16 c.toNat) ++ "\x7d"
  else String.singleton c

def quoted (s : String) : String := "\"" ++ String.join (s.toList.map quoteChar) ++ "\""

end GraphRpc.Text
