/-!
# Limits

Upper bounds on everything of variable size in a message. They are checked before anything is
allocated for the element in question.
-/

namespace GraphRpc

structure Limits where
  /-- Length of a frame's payload in bytes. -/
  maxFrameSize : Nat := 16777216
  /-- Length in bytes of a string, a type name, a field name or a method name. -/
  maxStringLen : Nat := 1048576
  maxBytesLen : Nat := 8388608
  maxCollectionLen : Nat := 65536
  maxFields : Nat := 1024
  maxDepth : Nat := 64
deriving DecidableEq, Repr, Inhabited

end GraphRpc
