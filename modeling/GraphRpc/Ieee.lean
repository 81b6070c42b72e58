/-!
# Floating-point bit patterns

A float is the bit pattern that travels on the wire, so that the payload of a NaN survives.
Equality in the sense of IEEE 754 is a separate relation: a NaN equals nothing, and the two
zeros are equal.
-/

namespace GraphRpc

structure Binary32 where
  bits : UInt32
deriving DecidableEq, Repr, Inhabited

structure Binary64 where
  bits : UInt64
deriving DecidableEq, Repr, Inhabited

namespace Binary32

def isNaN (x : Binary32) : Bool := x.bits &&& 0x7fffffff > 0x7f800000

def isZero (x : Binary32) : Bool := x.bits &&& 0x7fffffff == 0

def ieeeEq (x y : Binary32) : Bool :=
  !x.isNaN && !y.isNaN && (x.bits == y.bits || x.isZero && y.isZero)

end Binary32

namespace Binary64

def isNaN (x : Binary64) : Bool := x.bits &&& 0x7fffffffffffffff > 0x7ff0000000000000

def isZero (x : Binary64) : Bool := x.bits &&& 0x7fffffffffffffff == 0

def ieeeEq (x y : Binary64) : Bool :=
  !x.isNaN && !y.isNaN && (x.bits == y.bits || x.isZero && y.isZero)

end Binary64

def Binary64.ofParts (sign exponent fraction : Nat) : Binary64 :=
  ⟨UInt64.ofNat (sign <<< 63 + exponent <<< 52 + fraction)⟩

/-- The same number at twice the width. A subnormal becomes normal, and a NaN keeps its sign and
payload and becomes quiet. -/
def Binary32.widen (x : Binary32) : Binary64 :=
  let sign := x.bits.toNat >>> 31
  let exponent := x.bits.toNat >>> 23 % 0x100
  let fraction := x.bits.toNat % 0x800000
  if exponent = 255 then
    let quiet := if fraction = 0 ∨ 0x400000 ≤ fraction then 0 else 0x8000000000000
    .ofParts sign 2047 (fraction <<< 29 + quiet)
  else if exponent = 0 then
    if fraction = 0 then .ofParts sign 0 0
    else
      let top := fraction.log2
      .ofParts sign (top + 874) ((fraction - 1 <<< top) <<< (52 - top))
  else
    .ofParts sign (exponent + 896) (fraction <<< 29)

end GraphRpc
