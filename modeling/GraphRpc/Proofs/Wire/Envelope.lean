import Mathlib
import GraphRpc.Message
import GraphRpc.Proofs.RoundTrip

/-!
# Envelopes

Which bytes a message has, and which bytes are read as which message. A message that was encoded is
read as the same message with the same graph of objects, numbered by first encounter.
-/

namespace GraphRpc

open Binary Wire

variable {α : Type}

/-- Both payloads hold the same parameters and lead to the same objects, which the second one has
numbered by first encounter. -/
def Payload.SameGraph (p p' : Payload α) : Prop :=
  ∃ number, Renumbering p.heap p'.heap p.values p'.values number

namespace Message

structure Arrives (m m' : Message α) : Prop where
  version : m'.version = m.version
  kind : m'.kind = m.kind
  callId : m'.callId = m.callId
  method : m'.method = m.method
  payload : m.payload.SameGraph m'.payload

def spellHeader (m : Message α) : List UInt8 :=
  m.version :: m.kind.byte :: (bigEndian 8 m.callId.toNat ++ spellText m.method)

theorem length_spellHeader (m : Message α) :
    m.spellHeader.length = 14 + m.method.utf8ByteSize := by
  simp only [spellHeader, spellText, List.length_cons, List.length_append, length_bigEndian,
    length_toUTF8]
  omega

end Message

namespace Wire

-- ---------------------------------------------------------------------------
-- Writing
-- ---------------------------------------------------------------------------

theorem putHeader_ok {m : Message α} :
    m.putHeader e = .ok u e' ↔ e' = append e m.spellHeader := by
  simp only [Message.putHeader, bind_ok, putByte_ok, putNat_ok, putBytes_ok, Message.spellHeader,
    spellText]
  constructor
  · rintro ⟨_, _, rfl, _, _, rfl, _, _, rfl, _, _, rfl, rfl⟩
    simp
  · rintro rfl
    exact ⟨(), _, rfl, (), _, rfl, (), _, rfl, (), _, rfl, by simp⟩

theorem bytesOf_header_ok {codec : Codec α} {m : Message α} :
    Codec.bytesOf (do m.putHeader; codec.encodeParams m.payload.values m.payload.heap) = .ok bytes ↔
      ∃ ts order, Within ts.length codec.limits.maxCollectionLen ∧
        (∀ t ∈ ts, t.Fits codec.limits codec.room) ∧
        bytes = (m.spellHeader ++ spellParams ts).toByteArray ∧
        Unfolds (codec.registry.view m.payload.heap) [] m.payload.values ts order := by
  simp only [bytesOf_ok, bind_ok, putHeader_ok, encodeParams_ok]
  constructor
  · rintro ⟨e, ⟨_, _, rfl, hlen, ts, hu, hf, hout⟩, rfl⟩
    rw [← hu.length] at hlen hout
    rw [append_append, append_append, append_start] at hout
    rw [← List.append_assoc] at hout
    exact ⟨ts, _, hlen, hf, by rw [hout, spellParams, List.append_assoc], hu⟩
  · rintro ⟨ts, order, hlen, hf, rfl, hu⟩
    refine ⟨⟨(m.spellHeader ++ spellParams ts).toByteArray, order.toArray⟩,
      ⟨(), _, rfl, ?_, ts, hu, hf, ?_⟩, rfl⟩
    · rwa [← hu.length]
    · rw [← hu.length, append_append, append_append, append_start, spellParams]

theorem encode_ok {codec : Codec α} {m : Message α} :
    m.encode codec = .ok bytes ↔ m.method.isEmpty = false ∧
      m.method.utf8ByteSize ≤ codec.limits.maxStringLen ∧ bytes.size ≤ codec.limits.maxFrameSize ∧
      ∃ ts order, Within ts.length codec.limits.maxCollectionLen ∧
        (∀ t ∈ ts, t.Fits codec.limits codec.room) ∧
        bytes = (m.spellHeader ++ spellParams ts).toByteArray ∧
        Unfolds (codec.registry.view m.payload.heap) [] m.payload.values ts order := by
  rw [← bytesOf_header_ok, Message.encode]
  cases m.method.isEmpty with
  | true => simp
  | false =>
    cases Codec.bytesOf (do m.putHeader; codec.encodeParams m.payload.values m.payload.heap) with
    | error fault =>
      simp only [Bool.false_eq_true, if_false]
      split <;> simp
    | ok out =>
      simp only [Bool.false_eq_true, if_false]
      split
      · next hlong => simp [Nat.not_le.2 hlong]
      · next hshort =>
        split
        · next hbig =>
          simp only [reduceCtorEq, Except.ok.injEq, true_and, false_iff, not_and]
          rintro - hsize rfl
          omega
        · next hfits =>
          simp only [Except.ok.injEq, true_and]
          constructor
          · rintro rfl
            exact ⟨by omega, by omega, rfl⟩
          · exact fun h => h.2.2

-- ---------------------------------------------------------------------------
-- Reading
-- ---------------------------------------------------------------------------

theorem ofByte_kind_ok : MessageKind.ofByte b = .ok kind ↔ b = kind.byte := by
  constructor
  · intro h
    unfold MessageKind.ofByte at h
    split at h <;> cases h <;> rfl
  · rintro rfl
    cases kind <;> rfl

theorem header_ok {codec : Codec α} {bytes rest : List UInt8} :
    Message.header codec bytes = .ok (kind, callId, method) rest ↔
      bytes = kind.byte :: (bigEndian 8 callId.toNat ++ spellText method) ++ rest ∧
        method.isEmpty = false ∧ Within method.utf8ByteSize codec.limits.maxStringLen := by
  simp only [Message.header, bind_ok, byte_ok, lift_ok, ofByte_kind_ok, nat_ok, text_ok]
  constructor
  · rintro ⟨_, _, rfl, _, _, ⟨rfl, rfl⟩, n, _, ⟨rfl, hn⟩, name, _, ⟨rfl, hlen⟩, h⟩
    split at h
    · exact (throw_ok.1 h).elim
    · next hname =>
      obtain ⟨⟨⟩, rfl⟩ := pure_ok.1 h
      have hid : (UInt64.ofNat n).toNat = n := UInt64.toNat_ofNat_of_lt' hn
      rw [hid]
      exact ⟨by simp, by simpa using hname, hlen⟩
  · rintro ⟨rfl, hname, hlen⟩
    refine ⟨_, _, rfl, kind, _, ⟨rfl, rfl⟩, callId.toNat, _,
      ⟨List.append_assoc .., callId.toNat_lt⟩, method, rest, ⟨rfl, hlen⟩, ?_⟩
    rw [if_neg (by simp [hname])]
    refine pure_ok.2 ⟨?_, rfl⟩
    simp

theorem decode_ok {codec : Codec α} {m : Message α} :
    Message.decode codec input = .ok m ↔ m.version = protocolVersion ∧ m.method.isEmpty = false ∧
      Within m.method.utf8ByteSize codec.limits.maxStringLen ∧
      ∃ ts, Within ts.length codec.limits.maxCollectionLen ∧
        (∀ t ∈ ts, t.Fits codec.limits codec.room) ∧ input = m.spellHeader ++ spellParams ts ∧
        Grows codec.registry ts .empty m.payload.heap ∧ ts.map Tree.value = m.payload.values := by
  unfold Message.decode
  constructor
  · intro h
    split at h
    · cases h
    next version rest hbyte =>
    obtain rfl := byte_ok.1 hbyte
    split at h
    · cases h
    next hversion =>
    split at h
    · cases h
    next kind callId method params hheader =>
    obtain ⟨rfl, hname, hlen⟩ := header_ok.1 hheader
    split at h
    · cases h
    next values heap hparams =>
    cases h
    obtain ⟨ts, hcount, hfits, rfl, hgrows, hvalues⟩ := decodeParams_ok.1 hparams
    exact ⟨not_ne_iff.1 hversion, hname, hlen, ts, hcount, hfits, rfl, hgrows, hvalues⟩
  · rintro ⟨hversion, hname, hlen, ts, hcount, hfits, rfl, hgrows, hvalues⟩
    have hparams := decodeParams_ok.2 ⟨ts, hcount, hfits, rfl, hgrows, hvalues⟩
    have hheader : Message.header codec (m.kind.byte :: (bigEndian 8 m.callId.toNat ++
        spellText m.method) ++ spellParams ts) = .ok (m.kind, m.callId, m.method) (spellParams ts) :=
      header_ok.2 ⟨rfl, hname, hlen⟩
    rw [Message.spellHeader, List.cons_append, byte_ok.2 rfl]
    dsimp only
    rw [if_neg (not_ne_iff.2 hversion), hheader]
    dsimp only
    rw [hparams]

end Wire

namespace Message

/-- What was encoded is read as the same message. -/
theorem decode_of_encode {limits : Limits} {m : Message α} (hversion : m.version = protocolVersion)
    (hword : m.method.utf8ByteSize ≤ maxWord) (h : m.encode ⟨limits, .generic⟩ = .ok bytes) :
    ∃ m', decode ⟨limits, .generic⟩ bytes.data.toList = .ok m' ∧ m.Arrives m' := by
  obtain ⟨hname, hlen, -, ts, order, hcount, hfits, rfl, hu⟩ := encode_ok.1 h
  rw [generic_view] at hu
  refine ⟨{ m with payload := ⟨ts.map Tree.value, _⟩ }, decode_ok.2 ⟨hversion, hname, ⟨hlen, hword⟩, ts,
    hcount, hfits, ?_, grows_generic.2 ⟨hu.numbered List.nodup_nil, rfl⟩, rfl⟩, rfl, rfl, rfl, rfl,
    order.idxOf, renumbering_of_unfolds hu⟩
  rw [List.data_toByteArray]
  rfl

/-- The length of a method name that was encoded fits into 32 bits if that of a frame does. -/
theorem method_le_of_encode {codec : Codec α} {m : Message α} (h : m.encode codec = .ok bytes) :
    m.method.utf8ByteSize ≤ codec.limits.maxFrameSize := by
  obtain ⟨-, -, hsize, ts, order, -, -, rfl, -⟩ := encode_ok.1 h
  have hlen : (m.spellHeader ++ spellParams ts).toByteArray.size =
      14 + m.method.utf8ByteSize + (spellParams ts).length := by
    rw [List.size_toByteArray, List.length_append, length_spellHeader]
  omega

end Message
end GraphRpc
