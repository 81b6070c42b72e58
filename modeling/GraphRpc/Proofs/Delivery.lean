import Mathlib
import GraphRpc.Proofs.Wire.Envelope
import GraphRpc.Proofs.Wire.Frames
import GraphRpc.Settings.Validation

/-!
# Delivery

Messages that were encoded with usable limits arrive, in order and each with its graph of objects,
however the stream of their frames is cut into pieces.
-/

namespace GraphRpc

open Wire

variable {α : Type} {limits : Limits}

theorem Limits.maxFrameSize_le_maxWord (h : limits.problems = []) : limits.maxFrameSize ≤ maxWord := by
  simp only [problems, List.append_eq_nil_iff] at h
  obtain ⟨⟨⟨hframe, -⟩, -⟩, -⟩ := h
  by_contra hlarge
  have hword : maxWord = 4294967295 := rfl
  rw [if_neg (by omega), problemIf, if_pos (by omega)] at hframe
  cases hframe

namespace Message

/-- The message is one of this protocol and is encoded as `payload`. -/
def EncodesTo (limits : Limits) (m : Message α) (payload : ByteArray) : Prop :=
  m.version = protocolVersion ∧ m.encode ⟨limits, .generic⟩ = .ok payload

def ArrivesIn (limits : Limits) (m : Message α) (frame : Frame) : Prop :=
  ∃ m', decode ⟨limits, .generic⟩ frame.payload.data.toList = .ok m' ∧ m.Arrives m'

variable {payload : ByteArray}

theorem EncodesTo.within {m : Message α} (h : m.EncodesTo limits payload)
    (hword : limits.maxFrameSize ≤ maxWord) : Within payload.size limits.maxFrameSize := by
  obtain ⟨-, -, hsize, -⟩ := encode_ok.1 h.2
  exact ⟨hsize, hsize.trans hword⟩

theorem EncodesTo.arrivesIn {m : Message α} (h : m.EncodesTo limits payload)
    (hword : limits.maxFrameSize ≤ maxWord) : m.ArrivesIn limits ⟨payload⟩ :=
  decode_of_encode h.1 ((method_le_of_encode h.2).trans hword) h.2

/-- The payloads can be framed, and any pieces of the stream of their frames give the messages back,
in order and with nothing left over. -/
def Delivered (limits : Limits) (messages : List (Message α)) (payloads : List ByteArray) : Prop :=
  ∃ framed, List.Forall₂ (fun payload bytes => Frame.build payload limits.maxFrameSize = .ok bytes)
      payloads framed ∧
    ∀ chunks : List (List UInt8), chunks.flatten = framed.flatMap (·.data.toList) →
      ∃ frames, Frame.drainEach limits.maxFrameSize [] chunks = (frames, [], none) ∧
        List.Forall₂ (ArrivesIn limits) messages frames

theorem delivered_of_encode (hlimits : limits.problems = []) {messages : List (Message α)}
    {payloads : List ByteArray} (h : List.Forall₂ (EncodesTo limits) messages payloads) :
    Delivered limits messages payloads := by
  have hword := Limits.maxFrameSize_le_maxWord hlimits
  have hwithin : ∀ payload ∈ payloads, Within payload.size limits.maxFrameSize := by
    clear hlimits
    induction h with
    | nil => simp
    | cons hm _ ih => exact List.forall_mem_cons.2 ⟨EncodesTo.within hm hword, ih⟩
  refine ⟨payloads.map fun payload => (Frame.spell payload).toByteArray, ?_, ?_⟩
  · rw [List.forall₂_map_right_iff, List.forall₂_same]
    intro payload hmem
    exact Frame.build_ok.2 ⟨hwithin payload hmem, rfl⟩
  · intro chunks hchunks
    have hstream : chunks.flatten = payloads.flatMap Frame.spell := by
      rw [hchunks, List.flatMap_map]
      simp only [List.data_toByteArray]
    refine ⟨payloads.map Frame.mk, Frame.drainEach_stream hwithin hstream, ?_⟩
    rw [List.forall₂_map_right_iff]
    refine h.imp ?_
    intro m payload hm
    exact EncodesTo.arrivesIn hm hword

def knotCall : List (Message Empty) :=
  [.request 7 "p" ⟨[.object (.ofSlot 0)], Codec.knot⟩,
    .responseTo (.request 7 "p" .empty) (.ofValues [.null])]

theorem delivered_of_encode_knotCall : Limits.problems {} = [] ∧
    ∃ payloads, List.Forall₂ (EncodesTo {}) knotCall payloads ∧ Delivered {} knotCall payloads := by
  have hlimits : Limits.problems {} = [] := by decide
  have hcall : List.Forall₂ (EncodesTo {}) knotCall
      [⟨#[1, 0, 0, 0, 0, 0, 0, 0, 0, 7, 0, 0, 0, 1, 112, 0, 0, 0, 1, 0x0D, 0, 0, 0, 1, 84, 0, 0, 0, 0, 0,
          0, 0, 1, 0, 0, 0, 2, 109, 101, 0x0C, 0, 0, 0, 0]⟩,
        ⟨#[1, 1, 0, 0, 0, 0, 0, 0, 0, 7, 0, 0, 0, 1, 112, 0, 0, 0, 1, 0]⟩] :=
    .cons ⟨rfl, by cbv⟩ (.cons ⟨rfl, by cbv⟩ .nil)
  exact ⟨hlimits, _, hcall, delivered_of_encode hlimits hcall⟩

end Message
end GraphRpc
