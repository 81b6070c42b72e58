import Mathlib
import GraphRpc.Proofs.Wire.Chunks
import GraphRpc.Transport.Inbound

/-!
# What a stream brings

The messages that a stream carries, up to a fault or to bytes that are no complete frame, and how it
ends. A reader that looks at the front of what it has received finds them one after another, and bytes
that follow change nothing about what was found.
-/

namespace GraphRpc

variable {α : Type}

-- ---------------------------------------------------------------------------
-- Reading a whole stream
-- ---------------------------------------------------------------------------

inductive Stop where
  | undecodable (size : Nat) (why : Failure)
  | unframed (why : FrameFault)
  | leftover
  | ended

def Stop.fault? : Stop → Option Failure
  | undecodable _ why => some why
  | unframed why => some (.frame why)
  | leftover => some (.stream .leftover)
  | ended => none

/-- The messages that frames carry, with the sizes of the frames, up to a frame that carries none. -/
def decodeAll (codec : Codec α) : List Frame → List (Nat × Message α) × Option Stop
  | [] => ([], none)
  | frame :: frames =>
    match Message.decode codec frame.payload.data.toList with
    | .error why => ([], some (.undecodable frame.size why))
    | .ok message =>
      let (messages, stop) := decodeAll codec frames
      ((frame.size, message) :: messages, stop)

/-- How a stream ends in which there is no fault before `rest`, and no complete frame in it. -/
def endOf (rest : List UInt8) (ends : Bool) : Except Stop (List UInt8) :=
  if ends then .error (if rest.isEmpty then .ended else .leftover) else .ok rest

/-- The messages that a stream carries, and what ends it or else is left of it. -/
def readOut (codec : Codec α) (bytes : List UInt8) (ends : Bool) :
    List (Nat × Message α) × Except Stop (List UInt8) :=
  let (frames, ending) := Frame.parseAll codec.limits.maxFrameSize bytes
  match decodeAll codec frames with
  | (messages, some stop) => (messages, .error stop)
  | (messages, none) =>
    match ending with
    | .error why => (messages, .error (.unframed why))
    | .ok rest => (messages, endOf rest ends)

section
variable {codec : Codec α} {bytes rest a b : List UInt8} {ends : Bool} {size missing : Nat}
  {message : Message α} {why : Failure} {fault : FrameFault} {stop : Stop}
  {messages : List (Nat × Message α)}

-- ---------------------------------------------------------------------------
-- Looking at the front
-- ---------------------------------------------------------------------------

namespace Arrival

theorem next_message (h : next codec bytes = .message size message rest) :
    ∃ frame used, Frame.parse bytes codec.limits.maxFrameSize = .ok (frame, used) ∧
      Message.decode codec frame.payload.data.toList = .ok message ∧ size = frame.size ∧
      rest = bytes.drop used := by
  unfold next at h
  split at h
  · cases h
  · cases h
  · next frame used hparse =>
    split at h
    · next hdecode =>
      cases h
      exact ⟨frame, used, hparse, hdecode, rfl, rfl⟩
    · cases h

theorem next_undecodable (h : next codec bytes = .undecodable size why) :
    ∃ frame used, Frame.parse bytes codec.limits.maxFrameSize = .ok (frame, used) ∧
      Message.decode codec frame.payload.data.toList = .error why ∧ size = frame.size := by
  unfold next at h
  split at h
  · cases h
  · cases h
  · next frame used hparse =>
    split at h
    · cases h
    · next hdecode =>
      cases h
      exact ⟨frame, used, hparse, hdecode, rfl⟩

theorem next_unframed (h : next codec bytes = .unframed fault) :
    ∃ len bound, fault = .tooLarge len bound ∧
      Frame.parse bytes codec.limits.maxFrameSize = .error (.tooLarge len bound) := by
  unfold next at h
  split at h
  · cases h
  · next hincomplete hparse =>
    cases h
    cases fault with
    | incomplete missing => exact (hincomplete missing rfl).elim
    | tooLarge len bound => exact ⟨len, bound, rfl, hparse⟩
  · split at h <;> cases h

theorem next_unfinished (h : next codec bytes = .unfinished missing) :
    Frame.parse bytes codec.limits.maxFrameSize = .error (.incomplete missing) := by
  unfold next at h
  split at h
  · next hparse =>
    cases h
    exact hparse
  · cases h
  · split at h <;> cases h

end Arrival

theorem readOut_message (h : Arrival.next codec a = .message size message rest) (b : List UInt8)
    (ends : Bool) : readOut codec (a ++ b) ends =
      ((size, message) :: (readOut codec (rest ++ b) ends).1, (readOut codec (rest ++ b) ends).2) := by
  obtain ⟨frame, used, hparse, hdecode, rfl, rfl⟩ := Arrival.next_message h
  have hdrop : (a ++ b).drop used = a.drop used ++ b :=
    List.drop_append_of_le_length (Frame.used_le_of_parse hparse).2
  simp only [readOut, Frame.parseAll_ok (Frame.parse_append hparse b), hdrop, decodeAll, hdecode]
  generalize Frame.parseAll codec.limits.maxFrameSize (a.drop used ++ b) = parsed
  obtain ⟨frames, ending⟩ := parsed
  dsimp only
  generalize decodeAll codec frames = decoded
  obtain ⟨messages, stop⟩ := decoded
  cases stop with
  | some stop => rfl
  | none => cases ending <;> rfl

theorem readOut_undecodable (h : Arrival.next codec a = .undecodable size why) (b : List UInt8)
    (ends : Bool) : readOut codec (a ++ b) ends = ([], .error (.undecodable size why)) := by
  obtain ⟨frame, used, hparse, hdecode, rfl⟩ := Arrival.next_undecodable h
  simp only [readOut, Frame.parseAll_ok (Frame.parse_append hparse b), decodeAll, hdecode]

theorem readOut_unframed (h : Arrival.next codec a = .unframed fault) (b : List UInt8)
    (ends : Bool) : readOut codec (a ++ b) ends = ([], .error (.unframed fault)) := by
  obtain ⟨len, bound, rfl, hparse⟩ := Arrival.next_unframed h
  simp only [readOut, Frame.parseAll_tooLarge (Frame.parse_append_tooLarge hparse b), decodeAll]

theorem readOut_unfinished (h : Arrival.next codec bytes = .unfinished missing) (ends : Bool) :
    readOut codec bytes ends = ([], endOf bytes ends) := by
  simp only [readOut, Frame.parseAll_incomplete (Arrival.next_unfinished h), decodeAll]

theorem readOut_nil (codec : Codec α) : readOut codec [] false = ([], .ok []) := by
  have hnext : Arrival.next codec [] = .unfinished Frame.headerSize := rfl
  rw [readOut_unfinished hnext]
  rfl

theorem readOut_ended (h : readOut codec bytes true = (messages, .ok rest)) : False := by
  unfold readOut at h
  dsimp only at h
  split at h
  · cases h
  · split at h <;> cases h

theorem length_lt_of_message (h : Arrival.next codec bytes = .message size message rest) :
    rest.length < bytes.length := by
  obtain ⟨frame, used, hparse, -, -, rfl⟩ := Arrival.next_message h
  have hused := Frame.used_le_of_parse hparse
  rw [List.length_drop]
  omega

-- ---------------------------------------------------------------------------
-- The longest run of messages
-- ---------------------------------------------------------------------------

/-- At the front of `bytes` are complete frames that carry `messages`, and after them `rest`. -/
inductive Carries (codec : Codec α) : List UInt8 → List (Nat × Message α) → List UInt8 → Prop
  | nil {bytes : List UInt8} : Carries codec bytes [] bytes
  | cons {bytes rest : List UInt8} {frame : Frame} {used : Nat} {message : Message α}
      {messages : List (Nat × Message α)}
      (hparse : Frame.parse bytes codec.limits.maxFrameSize = .ok (frame, used))
      (hdecode : Message.decode codec frame.payload.data.toList = .ok message)
      (h : Carries codec (bytes.drop used) messages rest) :
      Carries codec bytes ((frame.size, message) :: messages) rest

theorem carries_readOut (codec : Codec α) (bytes : List UInt8) (ends : Bool) :
    ∃ rest, Carries codec bytes (readOut codec bytes ends).1 rest := by
  induction hlength : bytes.length using Nat.strong_induction_on generalizing bytes with
  | _ n ih =>
    rw [← List.append_nil bytes]
    cases hnext : Arrival.next codec bytes with
    | message size message rest =>
      obtain ⟨left, hleft⟩ := ih rest.length (hlength ▸ length_lt_of_message hnext) rest rfl
      obtain ⟨frame, used, hparse, hdecode, rfl, rfl⟩ := Arrival.next_message hnext
      rw [readOut_message hnext, List.append_nil, List.append_nil]
      exact ⟨left, .cons hparse hdecode hleft⟩
    | undecodable size why =>
      rw [readOut_undecodable hnext]
      exact ⟨_, .nil⟩
    | unframed fault =>
      rw [readOut_unframed hnext]
      exact ⟨_, .nil⟩
    | unfinished missing =>
      rw [List.append_nil, readOut_unfinished hnext]
      exact ⟨_, .nil⟩

/-- No run of messages at the front goes on for longer than what is read out. -/
theorem Carries.isPrefix_readOut (h : Carries codec bytes messages rest) (ends : Bool) :
    messages <+: (readOut codec bytes ends).1 := by
  induction h with
  | nil => exact List.nil_prefix
  | @cons bytes rest frame used message messages hparse hdecode _ ih =>
    have hnext : Arrival.next codec bytes = .message frame.size message (bytes.drop used) := by
      simp only [Arrival.next, hparse, hdecode]
    have hread := readOut_message hnext [] ends
    rw [List.append_nil, List.append_nil] at hread
    rw [hread]
    exact List.cons_prefix_cons.2 ⟨rfl, ih⟩

-- ---------------------------------------------------------------------------
-- A stream that goes on
-- ---------------------------------------------------------------------------

/-- What comes after a fault changes nothing, and what comes otherwise is read after what was left. -/
theorem readOut_append (codec : Codec α) (a b : List UInt8) (ends : Bool) :
    readOut codec (a ++ b) ends =
      match readOut codec a false with
      | (messages, .error stop) => (messages, .error stop)
      | (messages, .ok rest) =>
        (messages ++ (readOut codec (rest ++ b) ends).1, (readOut codec (rest ++ b) ends).2) := by
  induction hlength : a.length using Nat.strong_induction_on generalizing a with
  | _ n ih =>
    have hall (ends : Bool) : readOut codec a ends = readOut codec (a ++ []) ends := by
      rw [List.append_nil]
    cases hnext : Arrival.next codec a with
    | message size message rest =>
      have hrest := ih rest.length (hlength ▸ length_lt_of_message hnext) rest rfl
      rw [readOut_message hnext, hall, readOut_message hnext, List.append_nil, hrest]
      generalize readOut codec rest false = found
      obtain ⟨messages, stop | left⟩ := found <;> rfl
    | undecodable size why =>
      rw [readOut_undecodable hnext, hall, readOut_undecodable hnext]
    | unframed fault => rw [readOut_unframed hnext, hall, readOut_unframed hnext]
    | unfinished missing =>
      rw [readOut_unfinished hnext]
      rfl

theorem readOut_rest (h : readOut codec bytes ends = (messages, .ok rest)) :
    readOut codec rest false = ([], .ok rest) := by
  cases ends with
  | true => exact (readOut_ended h).elim
  | false =>
    unfold readOut at h
    dsimp only at h
    split at h
    · cases h
    · split at h
      · cases h
      · next left hending =>
        cases h
        have hparse : Frame.parseAll codec.limits.maxFrameSize bytes = (_, .ok rest) :=
          Prod.ext rfl hending
        simp only [readOut, Frame.parseAll_rest hparse, decodeAll, endOf, Bool.false_eq_true,
          if_false]

end
end GraphRpc
