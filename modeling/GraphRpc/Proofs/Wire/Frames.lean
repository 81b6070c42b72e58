import Mathlib
import GraphRpc.Frame
import GraphRpc.Proofs.Wire.Steps

/-!
# Frames on a stream

A stream that carries frames gives them back one by one, in whatever pieces it arrives. What has
arrived of a stream either is too short for the next frame or starts with it.
-/

namespace GraphRpc.Frame

open Binary Wire

variable {payload : ByteArray} {payloads : List ByteArray} {buffer future tail rest : List UInt8} {max : Nat}

def spell (payload : ByteArray) : List UInt8 := bigEndian headerSize payload.size ++ payload.data.toList

theorem length_spell (payload : ByteArray) : (spell payload).length = headerSize + payload.size := by
  rw [spell, List.length_append, length_bigEndian, Array.length_toList]
  rfl

theorem build_ok : build payload max = .ok bytes ↔
    Within payload.size max ∧ bytes = (spell payload).toByteArray := by
  have hbytes : (bigEndian headerSize payload.size).toByteArray ++ payload =
      (spell payload).toByteArray := by
    rw [spell, List.toByteArray_append, toByteArray_toList]
  unfold build Within
  split
  · next hlong =>
    simp only [reduceCtorEq, false_iff, not_and]
    omega
  · next hshort =>
    rw [hbytes]
    simp only [Except.ok.injEq, eq_comm]
    exact ⟨fun h => ⟨by omega, h⟩, fun h => h.2⟩

-- ---------------------------------------------------------------------------
-- The front of a stream
-- ---------------------------------------------------------------------------

theorem payloadLength_eq (h : buffer.take headerSize = bigEndian headerSize n) (hn : Within n max) :
    payloadLength buffer max =
      if buffer.length < headerSize + n then .error (.incomplete (headerSize + n - buffer.length))
      else .ok n := by
  have hlen : (buffer.take headerSize).length = headerSize := by rw [h, length_bigEndian]
  have hvalue : value (bigEndian headerSize n) = n := value_bigEndian_of_lt (le_maxWord.1 hn.2)
  have hpresent : ((buffer.drop headerSize).take n).length = min n (buffer.length - headerSize) := by
    rw [List.length_take, List.length_drop]
  have hheader : headerSize ≤ buffer.length := by
    rw [List.length_take] at hlen
    omega
  rw [payloadLength]
  dsimp only
  rw [if_neg hlen.not_lt, h, hvalue, if_neg (Nat.not_lt.2 hn.1), hpresent]
  by_cases hshort : buffer.length < headerSize + n
  · rw [if_pos hshort, if_pos (by omega)]
    congr 2
    omega
  · rw [if_neg hshort, if_neg (by omega)]

theorem parse_spell (hp : Within payload.size max) (rest : List UInt8) :
    parse (spell payload ++ rest) max = .ok (⟨payload⟩, (spell payload).length) := by
  have hheader : (spell payload ++ rest).take headerSize = bigEndian headerSize payload.size := by
    rw [spell, List.append_assoc, List.take_left' (length_bigEndian ..)]
  have hpayload : ((spell payload ++ rest).drop headerSize).take payload.size = payload.data.toList := by
    rw [spell, List.append_assoc, List.drop_left' (length_bigEndian ..)]
    exact List.take_left' Array.length_toList
  have hlen : payloadLength (spell payload ++ rest) max = .ok payload.size := by
    rw [payloadLength_eq hheader hp, if_neg]
    rw [List.length_append, length_spell]
    omega
  rw [parse, hlen]
  simp only [bind, Except.bind, pure, Except.pure]
  rw [hpayload, toByteArray_toList, length_spell]

theorem parse_incomplete (hp : Within payload.size max) (h : buffer ++ tail = spell payload)
    (htail : tail ≠ []) : ∃ missing, parse buffer max = .error (.incomplete missing) := by
  have htail := List.length_pos_iff.2 htail
  have hlen : buffer.length + tail.length = headerSize + payload.size := by
    rw [← List.length_append, h, length_spell]
  suffices hmissing : ∃ missing, payloadLength buffer max = .error (.incomplete missing) by
    obtain ⟨missing, hmissing⟩ := hmissing
    exact ⟨missing, by rw [parse, hmissing]; rfl⟩
  by_cases hshort : buffer.length < headerSize
  · have htake : (buffer.take headerSize).length < headerSize := by
      rw [List.length_take]
      omega
    exact ⟨_, if_pos htake⟩
  · have hheader : buffer.take headerSize = bigEndian headerSize payload.size := by
      have htake : (buffer ++ tail).take headerSize = buffer.take headerSize :=
        List.take_append_of_le_length (by omega)
      rw [← htake, h, spell, List.take_left' (length_bigEndian ..)]
    rw [payloadLength_eq hheader hp, if_pos (by omega)]
    exact ⟨_, rfl⟩

/-- Of a stream of frames either too little has arrived for the next one, or it is there. -/
theorem parse_stream (hp : ∀ payload ∈ payloads, Within payload.size max)
    (h : buffer ++ future = payloads.flatMap spell) :
    (∃ missing, parse buffer max = .error (.incomplete missing)) ∨
    ∃ payload payloads' rest, payloads = payload :: payloads' ∧ buffer = spell payload ++ rest ∧
      rest ++ future = payloads'.flatMap spell ∧
      parse buffer max = .ok (⟨payload⟩, (spell payload).length) := by
  cases payloads with
  | nil =>
    obtain ⟨rfl, -⟩ := List.append_eq_nil_iff.1 h
    exact .inl ⟨headerSize, rfl⟩
  | cons payload payloads =>
    obtain ⟨hp, -⟩ := List.forall_mem_cons.1 hp
    rw [List.flatMap_cons] at h
    have hhere (rest : List UInt8) (hbuffer : buffer = spell payload ++ rest)
        (hrest : rest ++ future = payloads.flatMap spell) :
        ∃ payload' payloads' rest, payload :: payloads = payload' :: payloads' ∧
          buffer = spell payload' ++ rest ∧ rest ++ future = payloads'.flatMap spell ∧
          parse buffer max = .ok (⟨payload'⟩, (spell payload').length) :=
      ⟨payload, payloads, rest, rfl, hbuffer, hrest, hbuffer ▸ parse_spell hp rest⟩
    obtain ⟨tail, hspell, hfuture⟩ | ⟨rest, hbuffer, hrest⟩ := List.append_eq_append_iff.1 h
    · cases tail with
      | nil =>
        rw [List.append_nil] at hspell
        exact .inr (hhere [] (by rw [hspell, List.append_nil]) hfuture)
      | cons b tail => exact .inl (parse_incomplete hp hspell.symm nofun)
    · exact .inr (hhere rest hbuffer hrest.symm)

-- ---------------------------------------------------------------------------
-- Piece by piece
-- ---------------------------------------------------------------------------

theorem drain_of_none (h : next max buffer = .ok none) : drain max buffer = ([], buffer, none) := by
  rw [drain]
  split
  · rfl
  · next hsome => cases h.symm.trans hsome
  · next herror => cases h.symm.trans herror

theorem drain_of_some {frame : Frame} (h : next max buffer = .ok (some (frame, rest))) :
    drain max buffer = (frame :: (drain max rest).1, (drain max rest).2) := by
  rw [drain]
  split
  · next hnone => cases h.symm.trans hnone
  · next hsome =>
    cases h.symm.trans hsome
    rfl
  · next herror => cases h.symm.trans herror

theorem drain_of_error (h : next max buffer = .error fault) :
    drain max buffer = ([], buffer, some fault) := by
  rw [drain]
  split
  · next hnone => cases h.symm.trans hnone
  · next hsome => cases h.symm.trans hsome
  · next herror =>
    cases h.symm.trans herror
    rfl

theorem drain_stream (hp : ∀ payload ∈ payloads, Within payload.size max)
    (h : buffer ++ future = payloads.flatMap spell) :
    ∃ done todo rest, payloads = done ++ todo ∧ drain max buffer = (done.map mk, rest, none) ∧
      rest ++ future = todo.flatMap spell ∧ (future = [] → todo = []) := by
  induction payloads generalizing buffer with
  | nil =>
    obtain ⟨rfl, rfl⟩ := List.append_eq_nil_iff.1 h
    exact ⟨[], [], [], rfl, drain_of_none rfl, rfl, fun _ => rfl⟩
  | cons payload payloads ih =>
    obtain ⟨missing, hmissing⟩ | ⟨_, _, rest, ⟨⟩, rfl, hrest, hparse⟩ := parse_stream hp h
    · have hnone : next max buffer = .ok none := by rw [next_eq_parse, hmissing]
      refine ⟨[], _, buffer, rfl, drain_of_none hnone, h, fun hfuture => ?_⟩
      rw [hfuture, List.append_nil] at h
      rw [h, List.flatMap_cons, parse_spell (List.forall_mem_cons.1 hp).1] at hmissing
      cases hmissing
    · have hsome : next max (spell payload ++ rest) = .ok (some (⟨payload⟩, rest)) := by
        rw [next_eq_parse, hparse]
        dsimp only
        rw [List.drop_left]
      obtain ⟨done, todo, rest', rfl, hdrain, hrest', hdone⟩ :=
        ih (List.forall_mem_cons.1 hp).2 hrest
      exact ⟨payload :: done, todo, rest', rfl, by rw [drain_of_some hsome, hdrain]; rfl, hrest', hdone⟩

/-- All frames that are complete after each piece of a stream, what is left at the end, and the fault
that ended it, if there is one. -/
def drainEach (max : Nat) : (buffer : List UInt8) → (chunks : List (List UInt8)) →
    List Frame × List UInt8 × Option FrameFault
  | buffer, [] => ([], buffer, none)
  | buffer, chunk :: chunks =>
    match drain max (buffer ++ chunk) with
    | (frames, rest, none) =>
      let (more, found) := drainEach max rest chunks
      (frames ++ more, found)
    | (frames, rest, some fault) => (frames, rest, some fault)

theorem drainEach_rest {chunks : List (List UInt8)}
    (hp : ∀ payload ∈ payloads, Within payload.size max)
    (h : buffer ++ chunks.flatten = payloads.flatMap spell) (hend : chunks = [] → payloads = []) :
    drainEach max buffer chunks = (payloads.map mk, [], none) := by
  induction chunks generalizing buffer payloads with
  | nil =>
    obtain rfl := hend rfl
    obtain ⟨rfl, -⟩ := List.append_eq_nil_iff.1 h
    rfl
  | cons chunk chunks ih =>
    rw [List.flatten_cons, ← List.append_assoc] at h
    obtain ⟨done, todo, rest, rfl, hdrain, hrest, hdone⟩ := drain_stream hp h
    have hrest' : drainEach max rest chunks = (todo.map mk, [], none) :=
      ih (List.forall_mem_append.1 hp).2 hrest fun hchunks => hdone (by rw [hchunks, List.flatten_nil])
    rw [drainEach, hdrain]
    dsimp only
    rw [hrest', List.map_append]

/-- Whatever the pieces, all frames of a stream come out and nothing is left. -/
theorem drainEach_stream {chunks : List (List UInt8)}
    (hp : ∀ payload ∈ payloads, Within payload.size max)
    (h : chunks.flatten = payloads.flatMap spell) :
    drainEach max [] chunks = (payloads.map mk, [], none) := by
  refine drainEach_rest hp (by rwa [List.nil_append]) fun hchunks => ?_
  rw [hchunks, List.flatten_nil, eq_comm, List.flatMap_eq_nil_iff] at h
  refine List.eq_nil_iff_forall_not_mem.2 fun payload hmem => ?_
  have hlen := congrArg List.length (h payload hmem)
  rw [length_spell, headerSize, List.length_nil] at hlen
  omega

end GraphRpc.Frame
