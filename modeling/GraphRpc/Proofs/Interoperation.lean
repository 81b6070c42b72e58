import Mathlib
import GraphRpc.Proofs.Wire.Narrow

/-!
# Peers with different limits

Limits decide what is refused, never what is meant. Whatever a codec accepts, one with wider limits
takes for the same; whatever it makes of its input, one with narrower limits makes the same of it or
says that a limit is exceeded.
-/

namespace GraphRpc

open Wire

variable {α β ε : Type} {registry : Registry α} {l l' : Limits}

def Limited (refused : ε → Prop) (narrow wide : Except ε β) : Prop :=
  narrow = wide ∨ ∃ e, narrow = .error e ∧ refused e

/-- The same operation on the same input under narrower limits and under wider ones. -/
structure SameMeaning (refused : ε → Prop) (narrow wide : Except ε β) : Prop where
  widened : ∀ b, narrow = .ok b → wide = .ok b
  narrowed : ∀ b, wide = .ok b → narrow = .ok b ∨ ∃ e, narrow = .error e ∧ refused e

theorem Limited.sameMeaning {refused : ε → Prop} {narrow wide : Except ε β}
    (h : Limited refused narrow wide) : SameMeaning refused narrow wide := by
  constructor
  case widened =>
    rintro b hb
    obtain heq | ⟨e, he, -⟩ := h
    · rw [← heq, hb]
    · rw [he] at hb
      cases hb
  case narrowed =>
    rintro b hb
    exact h.imp_left (·.trans hb)

/-- Something in a message is larger than a limit allows. -/
def Failure.IsSizeLimit (failure : Failure) : Prop := ∃ fault, failure = .codec fault ∧ fault.IsSizeLimit

def Failure.IsTooLarge (failure : Failure) : Prop := ∃ len bound, failure = .frame (.tooLarge len bound)

namespace Codec

theorem decodeAll_limited {narrow wide : DecodeM α β} (h : Narrows narrow wide) (input : List UInt8) :
    Limited (·.IsSizeLimit) (decodeAll narrow input) (decodeAll wide input) := by
  obtain heq | ⟨fault, d, hfault, hlimit⟩ := h ⟨input, .empty⟩
  · exact .inl (by rw [decodeAll, decodeAll, heq])
  · exact .inr ⟨fault, by rw [decodeAll, hfault], hlimit⟩

theorem bytesOf_limited {narrow wide : EncodeM Unit} (h : Narrows narrow wide) :
    Limited (·.IsSizeLimit) (bytesOf narrow) (bytesOf wide) := by
  obtain heq | ⟨fault, e, hfault, hlimit⟩ := h .start
  · exact .inl (by rw [bytesOf, bytesOf, EStateM.run, EStateM.run, heq])
  · exact .inr ⟨fault, by rw [bytesOf, EStateM.run, hfault], hlimit⟩

theorem decodeParams_limited (h : l ≤ l') (input : List UInt8) : Limited (·.IsSizeLimit)
    ((Codec.mk l registry).decodeParams input) ((Codec.mk l' registry).decodeParams input) := by
  refine decodeAll_limited ?_ input
  exact (DecodeM.read_narrows (ReadM.length_narrows _ h.maxCollectionLen)).bind fun count =>
    DecodeM.repeated_narrows (decode_narrows h) count []

end Codec

namespace Message

theorem decode_limited (h : l ≤ l') (input : List UInt8) :
    Limited (·.IsSizeLimit) (decode ⟨l, registry⟩ input) (decode ⟨l', registry⟩ input) := by
  have hheader : Narrows (header ⟨l, registry⟩) (header ⟨l', registry⟩) := header_narrows h
  unfold decode
  cases ReadM.byte input with
  | error fault left => exact .inl rfl
  | ok version rest =>
    dsimp only
    split
    · exact .inl rfl
    obtain heq | ⟨fault, left, hfault, hlimit⟩ := hheader rest
    · rw [← heq]
      cases header ⟨l, registry⟩ rest with
      | error fault left => exact .inl rfl
      | ok fields params =>
        have hparams : Limited (·.IsSizeLimit) ((Codec.mk l registry).decodeParams params) _ :=
          Codec.decodeParams_limited h params
        obtain heq | ⟨fault, hfault, hlimit⟩ := hparams
        · dsimp only
          rw [← heq]
          exact .inl rfl
        · exact .inr ⟨.codec fault, by dsimp only; rw [hfault], fault, rfl, hlimit⟩
    · exact .inr ⟨.codec fault, by rw [hfault], fault, rfl, hlimit⟩

theorem encode_limited (h : l ≤ l') (m : Message α) :
    Limited (fun failure => failure.IsSizeLimit ∨ failure.IsTooLarge) (m.encode ⟨l, registry⟩)
      (m.encode ⟨l', registry⟩) := by
  have hnarrows : Narrows (Codec.encodeParams ⟨l, registry⟩ m.payload.values m.payload.heap) _ :=
    Codec.encodeParams_narrows h m.payload.values m.payload.heap
  have hparams := Codec.bytesOf_limited (.after m.putHeader fun _ => hnarrows)
  unfold encode
  split
  · exact .inl rfl
  by_cases hname : m.method.utf8ByteSize > l.maxStringLen
  · rw [if_pos hname]
    exact .inr ⟨_, rfl, .inl ⟨_, rfl, CodecFault.isSizeLimit_sizeLimit _ _ _⟩⟩
  have hname' : ¬ m.method.utf8ByteSize > l'.maxStringLen := fun h' =>
    hname (h.maxStringLen.trans_lt h')
  rw [if_neg hname, if_neg hname']
  obtain heq | ⟨fault, hfault, hlimit⟩ := hparams
  · rw [← heq]
    cases Codec.bytesOf (do
      m.putHeader
      Codec.encodeParams ⟨l, registry⟩ m.payload.values m.payload.heap) with
    | error fault => exact .inl rfl
    | ok bytes =>
      by_cases hsize : bytes.size > l.maxFrameSize
      · dsimp only
        rw [if_pos hsize]
        exact .inr ⟨_, rfl, .inr ⟨_, _, rfl⟩⟩
      · have hsize' : ¬ bytes.size > l'.maxFrameSize := fun h' =>
          hsize (h.maxFrameSize.trans_lt h')
        dsimp only
        rw [if_neg hsize, if_neg hsize']
        exact .inl rfl
  · exact .inr ⟨.codec fault, by rw [hfault], .inl ⟨fault, rfl, hlimit⟩⟩

end Message

/-- Two codecs mean the same by all that both of them accept, and the first one, which accepts less,
refuses the rest for its size. -/
structure Codec.NarrowerThan (narrow wide : Codec α) : Prop where
  decodeValue : ∀ input,
    SameMeaning (·.IsSizeLimit) (narrow.decodeValue input) (wide.decodeValue input)
  decodeParams : ∀ input,
    SameMeaning (·.IsSizeLimit) (narrow.decodeParams input) (wide.decodeParams input)
  decodeMessage : ∀ input,
    SameMeaning (·.IsSizeLimit) (Message.decode narrow input) (Message.decode wide input)
  encodeValue : ∀ v heap,
    SameMeaning (·.IsSizeLimit) (narrow.encodeValue v heap) (wide.encodeValue v heap)
  encodeParams : ∀ values heap,
    SameMeaning (·.IsSizeLimit) (bytesOf (narrow.encodeParams values heap))
      (bytesOf (wide.encodeParams values heap))
  encodeMessage : ∀ m : Message α,
    SameMeaning (fun failure => failure.IsSizeLimit ∨ failure.IsTooLarge) (m.encode narrow)
      (m.encode wide)

/-- Changing limits never changes meaning. What a peer with narrower limits writes and can read back
is, for one with wider limits, the same graph. -/
theorem Codec.narrowerThan_of_le (registry : Registry α) (h : l ≤ l') :
    (Codec.mk l registry).NarrowerThan ⟨l', registry⟩ ∧
    ∀ v heap bytes graph, (Codec.mk l registry).encodeValue v heap = .ok bytes →
      (Codec.mk l registry).decodeValue bytes.data.toList = .ok graph →
      (Codec.mk l' registry).encodeValue v heap = .ok bytes ∧
        (Codec.mk l' registry).decodeValue bytes.data.toList = .ok graph := by
  have hnarrower : (Codec.mk l registry).NarrowerThan ⟨l', registry⟩ := {
    decodeValue := fun input => (decodeAll_limited (decode_narrows h) input).sameMeaning
    decodeParams := fun input => (decodeParams_limited h input).sameMeaning
    decodeMessage := fun input => (Message.decode_limited h input).sameMeaning
    encodeValue := fun v heap => (bytesOf_limited (encode_narrows h heap v)).sameMeaning
    encodeParams := fun values heap => (bytesOf_limited (encodeParams_narrows h values heap)).sameMeaning
    encodeMessage := fun m => (Message.encode_limited h m).sameMeaning }
  refine ⟨hnarrower, fun v heap bytes graph hencode hdecode => ⟨?_, ?_⟩⟩
  · exact (hnarrower.encodeValue v heap).widened bytes hencode
  · exact (hnarrower.decodeValue _).widened graph hdecode

def Limits.flat : Limits := { maxFrameSize := 32, maxDepth := 1 }

theorem Codec.narrowerThan_of_le_flat : Limits.flat ≤ {} ∧
    (Codec.mk .flat .generic : Codec Empty).NarrowerThan ⟨{}, .generic⟩ ∧
    (Codec.mk {} .generic : Codec Empty).decodeValue [0x0A, 0, 0, 0, 1, 0x0A, 0, 0, 0, 0] =
      .ok (.array [.array []], .empty) ∧
    (Codec.mk .flat .generic : Codec Empty).decodeValue [0x0A, 0, 0, 0, 1, 0x0A, 0, 0, 0, 0] =
      .error (.sizeLimit .nestingDepth 2 1) ∧
    (Codec.mk {} .generic : Codec Empty).decodeValue [0x0A, 0, 0, 0, 1, 0] =
      .ok (.array [.null], .empty) := by
  have hle : Limits.flat ≤ {} := by constructor <;> decide
  obtain ⟨hnarrower, -⟩ := Codec.narrowerThan_of_le (.generic : Registry Empty) hle
  refine ⟨hle, hnarrower, by cbv, by cbv, ?_⟩
  exact (hnarrower.decodeValue _).widened _ (by cbv)

end GraphRpc
