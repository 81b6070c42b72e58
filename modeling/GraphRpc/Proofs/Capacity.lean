import Mathlib
import GraphRpc.Proofs.Delivery
import GraphRpc.Proofs.Replies
import GraphRpc.Proofs.Wire.Layout

/-!
# What an envelope can hold

Whatever the limits, all numbers that are written into an envelope are the true ones but for one: the
length of the method name is held against the limits only and not against the 32 bits of its field.
With usable limits no name is that long. They may leave less room in a frame than the shortest
message takes, though.
-/

namespace GraphRpc

open Binary Wire

variable {α : Type}

theorem Limits.maxStringLen_pos {limits : Limits} (h : limits.problems = []) :
    0 < limits.maxStringLen := by
  simp only [problems, List.append_eq_nil_iff] at h
  obtain ⟨⟨⟨-, hstring⟩, -⟩, -⟩ := h
  exact Nat.pos_of_ne_zero (problemIf_eq_nil.1 hstring)

namespace Message

-- ---------------------------------------------------------------------------
-- Numbers in 32 bits
-- ---------------------------------------------------------------------------

def headerPieces (m : Message α) : List Piece :=
  .raw (m.version :: m.kind.byte :: bigEndian 8 m.callId.toNat) :: Piece.text m.method

theorem spell_headerPieces (m : Message α) : m.headerPieces.flatMap Piece.spell = m.spellHeader := by
  rw [headerPieces, List.flatMap_cons, Piece.spell_text]
  simp [Piece.spell, spellHeader]

theorem exact_headerPieces {m : Message α} :
    (∀ p ∈ m.headerPieces, p.Exact) ↔ m.method.utf8ByteSize ≤ maxWord := by
  rw [headerPieces, List.forall_mem_cons, Piece.exact_text]
  exact and_iff_right trivial

def paramPieces (parts : List (List Piece)) : List Piece := .number parts.length :: parts.flatten

theorem spell_paramPieces {ts : List Tree} {parts : List (List Piece)}
    (h : List.Forall₂ Renders ts parts) :
    (paramPieces parts).flatMap Piece.spell = spellParams ts := by
  rw [paramPieces, List.flatMap_cons, spell_flatten h, spellParams, h.length_eq]
  rfl

theorem exact_paramPieces {ts : List Tree} {parts : List (List Piece)}
    (h : List.Forall₂ Renders ts parts) (hcount : ts.length ≤ maxWord) (hs : ∀ t ∈ ts, t.Sized) :
    ∀ p ∈ paramPieces parts, p.Exact :=
  List.forall_mem_cons.2 ⟨Piece.exact_number.2 (h.length_eq ▸ hcount), exact_flatten h hs⟩

/-- A message that arrives has a method name whose length fits its field. -/
theorem method_le_of_arrives {codec : Codec α} {m m' : Message α} (h : decode codec input = .ok m')
    (ha : m.Arrives m') : m.method.utf8ByteSize ≤ maxWord := by
  obtain ⟨-, -, hmethod, -⟩ := decode_ok.1 h
  exact ha.method ▸ hmethod.2

/-- Encoding writes true numbers only, except that the length of the method name has to fit 32 bits.
Just then the message is read back; and with usable limits it always does. -/
theorem encode_exact {limits : Limits} {m : Message α} (h : m.encode ⟨limits, .generic⟩ = .ok bytes) :
    ∃ parts order, Layout m.payload.heap.records [] m.payload.values parts order ∧
      bytes.data.toList = (m.headerPieces ++ paramPieces parts).flatMap Piece.spell ∧
      (∀ p ∈ paramPieces parts, p.Exact) ∧
      ((∀ p ∈ m.headerPieces, p.Exact) ↔ m.method.utf8ByteSize ≤ maxWord) ∧
      (m.version = protocolVersion →
        ((∃ m', decode ⟨limits, .generic⟩ bytes.data.toList = .ok m' ∧ m.Arrives m') ↔
          m.method.utf8ByteSize ≤ maxWord)) ∧
      (limits.problems = [] → m.method.utf8ByteSize ≤ maxWord) := by
  obtain ⟨-, -, -, ts, order, hcount, hfits, hbytes, hu⟩ := encode_ok.1 h
  rw [generic_view] at hu
  obtain ⟨parts, hlayout, hrenders⟩ := hu.layout List.nodup_nil
  refine ⟨parts, order, hlayout, ?_, ?_, exact_headerPieces, fun hversion => ⟨?_, ?_⟩, fun hlimits => ?_⟩
  · rw [List.flatMap_append, spell_headerPieces, spell_paramPieces hrenders, hbytes,
      List.data_toByteArray]
  · exact exact_paramPieces hrenders hcount.2 fun t ht => (hfits t ht).sized
  · rintro ⟨m', hdecode, harrives⟩
    exact method_le_of_arrives hdecode harrives
  · exact fun hword => decode_of_encode hversion hword h
  · exact (method_le_of_encode h).trans (Limits.maxFrameSize_le_maxWord hlimits)

theorem encode_exact_knot : ∃ bytes,
    (request 7 "p" ⟨[.object (.ofSlot 0)], Codec.knot⟩).encode ⟨{}, .generic⟩ = .ok bytes ∧
      ∃ m', decode ⟨{}, .generic⟩ bytes.data.toList = .ok m' ∧
        (request 7 "p" ⟨[.object (.ofSlot 0)], Codec.knot⟩).Arrives m' := by
  have h : (request 7 "p" ⟨[.object (.ofSlot 0)], Codec.knot⟩).encode ⟨{}, .generic⟩ =
      .ok ⟨#[1, 0, 0, 0, 0, 0, 0, 0, 0, 7, 0, 0, 0, 1, 112, 0, 0, 0, 1, 0x0D, 0, 0, 0, 1, 84, 0, 0, 0, 0,
        0, 0, 0, 1, 0, 0, 0, 2, 109, 101, 0x0C, 0, 0, 0, 0]⟩ := by
    cbv
  obtain ⟨_, _, -, -, -, -, harrives, husable⟩ := encode_exact h
  exact ⟨_, h, (harrives rfl).2 (husable (by decide))⟩

theorem decode_of_noName {codec : Codec α} {kind : MessageKind} {callId : UInt64} {rest : List UInt8} :
    decode codec (protocolVersion :: kind.byte :: (bigEndian 8 callId.toNat ++ (bigEndian 4 0 ++ rest))) =
      .error (.codec (.invalid .emptyMethod)) := by
  have htext : ReadM.text .methodName codec.limits.maxStringLen (bigEndian 4 0 ++ rest) = .ok "" rest :=
    text_ok.2 ⟨rfl, Nat.zero_le _, Nat.zero_le _⟩
  have hheader : header codec (kind.byte :: (bigEndian 8 callId.toNat ++ (bigEndian 4 0 ++ rest))) =
      .error (.invalid .emptyMethod) rest := by
    rw [header, run_bind_of_ok (byte_ok.2 rfl), run_bind_of_ok (lift_ok.2 ⟨ofByte_kind_ok.2 rfl, rfl⟩),
      run_bind_of_ok (nat_ok.2 ⟨rfl, callId.toNat_lt⟩), run_bind_of_ok htext]
    rfl
  rw [decode, byte_ok.2 rfl]
  dsimp only
  rw [if_neg (not_ne_iff.2 rfl), hheader]

def vast : Limits := { maxFrameSize := 8589934592, maxStringLen := 8589934592 }

/-- A name whose length is a multiple of what its field can hold gets no length at all, so the message
that was encoded is refused for having no method. -/
theorem encode_wraps {n : Nat} (hn : 0 < n) (hmul : n % 256 ^ 4 = 0) (hvast : n + 18 ≤ 8589934592) :
    ∃ bytes, (Routes.longCall n).encode ⟨vast, .generic⟩ = .ok bytes ∧
      ¬(Piece.number (Routes.longCall n).method.utf8ByteSize).Exact ∧
      decode (α := Empty) ⟨vast, .generic⟩ bytes.data.toList = .error (.codec (.invalid .emptyMethod)) := by
  have hsize := Routes.size_longCall n
  have hlength := length_spellHeader (Routes.longCall n)
  have hfield : bigEndian 4 n = bigEndian 4 0 := by rw [← bigEndian_mod, hmul]
  refine ⟨((Routes.longCall n).spellHeader ++ spellParams []).toByteArray, encode_ok.2 ⟨?_, ?_, ?_,
    [], [], ⟨Nat.zero_le _, Nat.zero_le _⟩, nofun, rfl, .nil⟩, ?_, ?_⟩
  · rw [String.isEmpty_eq_utf8ByteSize_beq_zero, hsize, beq_eq_false_iff_ne]
    omega
  · have hlimit : vast.maxStringLen = 8589934592 := rfl
    dsimp only
    omega
  · have hlimit : vast.maxFrameSize = 8589934592 := rfl
    have hparams : (spellParams []).length = 4 := rfl
    rw [List.size_toByteArray, List.length_append]
    dsimp only
    omega
  · rw [hsize, Piece.exact_number, le_maxWord]
    omega
  · rw [List.data_toByteArray, spellHeader, spellText, hsize, hfield]
    simp only [List.cons_append, List.append_assoc]
    exact decode_of_noName

theorem encode_wraps_longCall : ∃ bytes,
    (Routes.longCall 4294967296).encode ⟨vast, .generic⟩ = .ok bytes ∧
      ¬(Piece.number (Routes.longCall 4294967296).method.utf8ByteSize).Exact ∧
      decode (α := Empty) ⟨vast, .generic⟩ bytes.data.toList = .error (.codec (.invalid .emptyMethod)) :=
  encode_wraps (by decide) (by decide) (by decide)

-- ---------------------------------------------------------------------------
-- Room in a frame
-- ---------------------------------------------------------------------------

def bare (kind : MessageKind) (callId : UInt64) (method : String) : Message α :=
  { kind, callId, method, payload := .empty }

def spellBare (m : Message α) : List UInt8 := m.spellHeader ++ spellParams []

theorem length_spellBare (m : Message α) : m.spellBare.length = 18 + m.method.utf8ByteSize := by
  have hparams : (spellParams []).length = 4 := rfl
  rw [spellBare, List.length_append, length_spellHeader, hparams]
  omega

section
variable {codec : Codec α} {kind : MessageKind} {callId : UInt64} {method : String}

theorem bytesOf_bare : Codec.bytesOf (do
      (bare kind callId method : Message α).putHeader
      codec.encodeParams (bare kind callId method : Message α).payload.values
        (bare kind callId method : Message α).payload.heap) =
    .ok (bare kind callId method : Message α).spellBare.toByteArray :=
  bytesOf_header_ok.2 ⟨[], [], ⟨Nat.zero_le _, Nat.zero_le _⟩, nofun, rfl, .nil⟩

/-- A message without parameters takes its name and 18 bytes. -/
theorem encode_bare (hname : method.isEmpty = false)
    (hlen : method.utf8ByteSize ≤ codec.limits.maxStringLen) :
    (bare kind callId method : Message α).encode codec =
      if 18 + method.utf8ByteSize ≤ codec.limits.maxFrameSize then
        .ok (bare kind callId method : Message α).spellBare.toByteArray
      else .error (.frame (.tooLarge (18 + method.utf8ByteSize) codec.limits.maxFrameSize)) := by
  have hsize : (bare kind callId method : Message α).spellBare.toByteArray.size =
      18 + method.utf8ByteSize := by
    rw [List.size_toByteArray, length_spellBare]
    rfl
  rw [encode, bytesOf_bare]
  have hname' : (bare kind callId method : Message α).method.isEmpty = false := hname
  have hlen' : ¬(bare kind callId method : Message α).method.utf8ByteSize > codec.limits.maxStringLen :=
    Nat.not_lt.2 hlen
  rw [hname', if_neg Bool.false_ne_true, if_neg hlen']
  dsimp only
  rw [hsize]
  split <;> split <;> first | rfl | omega

theorem decode_bare (hname : method.isEmpty = false)
    (hlen : Within method.utf8ByteSize codec.limits.maxStringLen) :
    decode codec (bare kind callId method : Message α).spellBare = .ok (bare kind callId method) :=
  decode_ok.2 ⟨rfl, hname, hlen, [], ⟨Nat.zero_le _, Nat.zero_le _⟩, nofun, rfl, grows_nil.2 rfl, rfl⟩

/-- With usable limits the shortest messages are encoded, and read back as they were, just when a frame
can hold 19 bytes. -/
theorem bare_passes (hlimits : codec.limits.problems = []) (hone : method.utf8ByteSize = 1) :
    (19 ≤ codec.limits.maxFrameSize → ∃ bytes,
      (bare kind callId method : Message α).encode codec = .ok bytes ∧
        decode codec bytes.data.toList = .ok (bare kind callId method)) ∧
    (codec.limits.maxFrameSize < 19 → (bare kind callId method : Message α).encode codec =
      .error (.frame (.tooLarge 19 codec.limits.maxFrameSize))) := by
  have hname : method.isEmpty = false := by
    rw [String.isEmpty_eq_utf8ByteSize_beq_zero, hone]
    rfl
  have hlen : method.utf8ByteSize ≤ codec.limits.maxStringLen :=
    hone ▸ Limits.maxStringLen_pos hlimits
  have hbytes : (bare kind callId method : Message α).encode codec = _ := encode_bare hname hlen
  rw [hone] at hbytes
  constructor
  · intro hroom
    rw [if_pos hroom] at hbytes
    refine ⟨_, hbytes, ?_⟩
    rw [List.data_toByteArray]
    exact decode_bare hname ⟨hlen, hone ▸ by decide⟩
  · intro hnarrow
    rw [hbytes, if_neg (by omega)]

theorem bare_passes_ping : Limits.problems {} = [] ∧ "m".utf8ByteSize = 1 ∧ ∃ bytes,
    (bare .error 18446744073709551615 "m" : Message Empty).encode ⟨{}, .generic⟩ = .ok bytes ∧
      decode ⟨{}, .generic⟩ bytes.data.toList =
        .ok (bare .error 18446744073709551615 "m" : Message Empty) := by
  have hlimits : Limits.problems {} = [] := by decide
  exact ⟨hlimits, rfl, (@bare_passes Empty ⟨{}, .generic⟩ _ _ _ hlimits rfl).1 (by decide)⟩

end

def tight : Limits := { maxFrameSize := 16 }

theorem encode_bare_tight : tight.problems = [] ∧
    (bare .request 1 "m" : Message Empty).encode ⟨tight, .generic⟩ =
      .error (.frame (.tooLarge 19 16)) := by
  refine ⟨by decide, (encode_bare rfl ?_).trans rfl⟩
  decide

end Message
end GraphRpc
