import GraphRpc.Binary
import GraphRpc.Failure

/-!
# Frames

A frame on the wire is a 32-bit length followed by that many bytes of payload. The length is
checked against a maximum as soon as it is there, before any of the payload is looked at.
-/

namespace GraphRpc

structure Frame where
  payload : ByteArray
deriving Inhabited

namespace Frame

def headerSize : Nat := 4

def size (f : Frame) : Nat := f.payload.size

/-- The payload length of the frame at the front of `bytes`, all of which must be there. -/
def payloadLength (bytes : List UInt8) (max : Nat) : Except FrameFault Nat :=
  let header := bytes.take headerSize
  if header.length < headerSize then
    .error (.incomplete (headerSize - header.length))
  else
    let len := Binary.value header
    if len > max then
      .error (.tooLarge len max)
    else
      let present := ((bytes.drop headerSize).take len).length
      if present < len then .error (.incomplete (len - present)) else .ok len

/-- The frame at the front of `bytes` and the number of bytes that it occupies. -/
def parse (bytes : List UInt8) (max : Nat) : Except FrameFault (Frame × Nat) := do
  let len ← payloadLength bytes max
  return (⟨((bytes.drop headerSize).take len).toByteArray⟩, headerSize + len)

def build (payload : ByteArray) (max : Nat) : Except FrameFault ByteArray :=
  if payload.size > max ∨ payload.size > maxWord then
    .error (.tooLarge payload.size max)
  else
    .ok ((Binary.bigEndian headerSize payload.size).toByteArray ++ payload)

/-- Take the frame at the front of a receive buffer: first its length, then its payload. The buffer
stays as it is until the frame is complete. -/
def next (max : Nat) (buffer : List UInt8) : Except FrameFault (Option (Frame × List UInt8)) :=
  match payloadLength buffer max with
  | .ok len =>
    let buffer := buffer.drop headerSize
    .ok (some (⟨(buffer.take len).toByteArray⟩, buffer.drop len))
  | .error (.incomplete _) => .ok none
  | .error fault => .error fault

/-- Like `next` when no more bytes will come, so that an unfinished frame is a failure. -/
def nextAtEnd (max : Nat) (buffer : List UInt8) : Except Failure (Option (Frame × List UInt8)) :=
  match next max buffer with
  | .ok (some found) => .ok (some found)
  | .ok none => if buffer.isEmpty then .ok none else .error (.stream .leftover)
  | .error fault => .error (.frame fault)

theorem headerSize_le_of_payloadLength {bytes : List UInt8} {max len : Nat}
    (h : payloadLength bytes max = .ok len) : headerSize ≤ bytes.length := by
  unfold payloadLength at h
  dsimp only at h
  split at h
  · cases h
  · rename_i hs
    simp only [List.length_take] at hs
    omega

theorem headerSize_le_of_parse {bytes : List UInt8} {max used : Nat} {frame : Frame}
    (h : parse bytes max = .ok (frame, used)) :
    headerSize ≤ used ∧ headerSize ≤ bytes.length := by
  unfold parse at h
  simp only [bind, Except.bind, pure, Except.pure] at h
  split at h
  · cases h
  · rename_i hl
    simp only [Except.ok.injEq, Prod.mk.injEq] at h
    exact ⟨by omega, headerSize_le_of_payloadLength hl⟩

/-- A receive buffer gives the frame that its bytes parse to, and loses as many bytes. -/
theorem next_eq_parse (max : Nat) (buffer : List UInt8) : next max buffer =
    match parse buffer max with
    | .ok (frame, used) => .ok (some (frame, buffer.drop used))
    | .error (.incomplete _) => .ok none
    | .error fault => .error fault := by
  rw [next, parse]
  cases payloadLength buffer max with
  | ok len => simp only [bind, Except.bind, pure, Except.pure, List.drop_drop]
  | error fault => cases fault <;> rfl

theorem length_lt_of_next {max : Nat} {buffer rest : List UInt8} {frame : Frame}
    (h : next max buffer = .ok (some (frame, rest))) : rest.length < buffer.length := by
  rw [next_eq_parse] at h
  split at h
  · rename_i hp
    simp only [Except.ok.injEq, Option.some.injEq, Prod.mk.injEq] at h
    obtain ⟨_, rfl⟩ := h
    have := headerSize_le_of_parse hp
    simp only [List.length_drop, headerSize] at *
    omega
  · cases h
  · cases h

/-- All complete frames at the front of a receive buffer, the rest, and the fault that ended it, if
there is one. -/
def drain (max : Nat) (buffer : List UInt8) : List Frame × List UInt8 × Option FrameFault :=
  match h : next max buffer with
  | .ok none => ([], buffer, none)
  | .ok (some (frame, rest)) =>
    have := length_lt_of_next h
    let (frames, found) := drain max rest
    (frame :: frames, found)
  | .error fault => ([], buffer, some fault)
termination_by buffer.length

end Frame
end GraphRpc
