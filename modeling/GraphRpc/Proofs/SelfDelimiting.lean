import Mathlib
import GraphRpc.Proofs.Wire.Envelope
import GraphRpc.Proofs.Wire.Exact

/-!
# Self-delimiting inputs

An input that is read as a value, a parameter list or a message is complete, and says so itself: with
bytes missing at its end it is rejected as truncated, and with bytes added for these bytes, whatever
they are. No other reason for a rejection comes first.
-/

namespace GraphRpc

open Wire ByteSource

variable {α β : Type}

/-- With bytes missing or added the input is rejected, and for just that reason. -/
structure SelfDelimiting {ε : Type} (decode : List UInt8 → Except ε β) (invalid : Malformation → ε)
    (input : List UInt8) : Prop where
  cut : ∀ p, p <+: input → p ≠ input → decode p = .error (invalid .truncated)
  extended : ∀ more, more ≠ [] → decode (input ++ more) = .error (invalid (.trailing more.length))

theorem SelfDelimiting.cut_append {ε : Type} {decode : List UInt8 → Except ε β}
    {invalid : Malformation → ε} {p q : List UInt8} (h : SelfDelimiting decode invalid (p ++ q))
    (hq : q ≠ []) : decode p = .error (invalid .truncated) := by
  refine h.cut p (List.prefix_append p q) fun heq => hq ?_
  simpa using heq

namespace Codec

theorem selfDelimiting_decodeAll {action : DecodeM α β} (h : Exact action)
    (hok : decodeAll action input = .ok r) : SelfDelimiting (decodeAll action) .invalid input := by
  obtain ⟨b, heap⟩ := r
  rw [decodeAll_ok] at hok
  obtain ⟨used, hrest, hwhole, hcut⟩ := h _ _ _ hok
  change input = used ++ [] at hrest
  rw [List.append_nil] at hrest
  subst hrest
  constructor
  case cut =>
    rintro p ⟨q, heq⟩ hne
    have hq : q ≠ [] := by
      rintro rfl
      exact hne (by simpa using heq)
    obtain ⟨d, hd⟩ := hcut p q heq.symm hq
    change action ⟨p, .empty⟩ = _ at hd
    rw [decodeAll, hd]
  case extended =>
    intro more hmore
    have hd := hwhole more
    change action ⟨input ++ more, .empty⟩ = .ok b ⟨more, heap⟩ at hd
    rw [decodeAll, hd]
    dsimp only [finish]
    rw [if_neg (by simpa using hmore)]
    rfl

theorem selfDelimiting_decodeValue {codec : Codec α} (h : codec.decodeValue input = .ok r) :
    SelfDelimiting codec.decodeValue .invalid input :=
  selfDelimiting_decodeAll (codec.exact_decodeAt _) h

theorem selfDelimiting_decodeParams {codec : Codec α} (h : codec.decodeParams input = .ok r) :
    SelfDelimiting codec.decodeParams .invalid input := by
  refine selfDelimiting_decodeAll ?_ h
  exact .bind (DecodeM.exact_read (ReadM.exact_length _ _)) fun count =>
    DecodeM.exact_repeated (codec.exact_decodeAt _) count []

end Codec

namespace Message

theorem decode_version (codec : Codec α) (bytes : List UInt8) :
    decode codec (protocolVersion :: bytes) = match header codec bytes with
      | .error fault _ => .error (.codec fault)
      | .ok (kind, callId, method) rest =>
        match codec.decodeParams rest with
        | .error fault => .error (.codec fault)
        | .ok (values, heap) =>
          .ok { version := protocolVersion, kind, callId, method, payload := ⟨values, heap⟩ } := by
  rw [decode, byte_ok.2 rfl]
  exact if_neg (not_not.2 rfl)

theorem selfDelimiting_decode {codec : Codec α} (h : decode codec input = .ok m) :
    SelfDelimiting (decode codec) (fun why => .codec (.invalid why)) input := by
  obtain ⟨hversion, hname, hlen, ts, hcount, hfits, rfl, hgrows, hvalues⟩ := decode_ok.1 h
  have hparams := Codec.selfDelimiting_decodeParams
    (decodeParams_ok.2 ⟨ts, hcount, hfits, rfl, hgrows, hvalues⟩)
  have hheader : header codec ((m.kind.byte :: (Binary.bigEndian 8 m.callId.toNat ++
      spellText m.method)) ++ spellParams ts) = .ok (m.kind, m.callId, m.method) (spellParams ts) :=
    header_ok.2 ⟨rfl, hname, hlen⟩
  rw [spellHeader, hversion, List.cons_append]
  obtain ⟨used, hrest, hwhole, hcut⟩ := ReadM.takes (exact_header codec) hheader
  rw [hrest]
  constructor
  case cut =>
    rintro p ⟨q, heq⟩ hne
    have hq : q ≠ [] := by
      rintro rfl
      exact hne (by simpa using heq)
    cases p with
    | nil => rfl
    | cons version p =>
      rw [List.cons_append, List.cons.injEq] at heq
      obtain ⟨rfl, heq⟩ := heq
      rw [decode_version]
      obtain ⟨a, hused, rfl⟩ | ⟨a, rfl, hts⟩ := List.append_eq_append_iff.1 heq
      -- The cut is within the header, or just behind it.
      · by_cases ha : a = []
        · subst ha
          rw [List.append_nil] at hused
          have hnil := hwhole []
          rw [List.append_nil, hused] at hnil
          rw [hnil]
          dsimp only
          rw [hparams.cut_append (p := []) hq]
        · obtain ⟨left, hleft⟩ := hcut p a hused ha
          rw [hleft]
      · rw [hwhole a]
        dsimp only
        rw [hts] at hparams
        rw [hparams.cut_append hq]
  case extended =>
    intro more hmore
    rw [List.cons_append, List.append_assoc, decode_version, hwhole]
    dsimp only
    rw [hparams.extended more hmore]

end Message

/-- Whatever is accepted is rejected with any bytes missing at its end, or with any added, and the
text says which it is. -/
theorem accepted_selfDelimiting (codec : Codec α) (input : List UInt8) :
    (∀ r, codec.decodeValue input = .ok r → SelfDelimiting codec.decodeValue .invalid input) ∧
    (∀ r, codec.decodeParams input = .ok r → SelfDelimiting codec.decodeParams .invalid input) ∧
    (∀ m, Message.decode codec input = .ok m →
      SelfDelimiting (Message.decode codec) (fun why => .codec (.invalid why)) input) ∧
    Malformation.truncated.message = "Input ended before the value was complete" ∧
    ∀ count, (Malformation.trailing count).message =
      s!"Trailing bytes after the last parameter ({count} bytes)" :=
  ⟨fun _ => Codec.selfDelimiting_decodeValue, fun _ => Codec.selfDelimiting_decodeParams,
    fun _ => Message.selfDelimiting_decode, rfl, fun _ => rfl⟩

private def plain : Codec Empty := ⟨{}, .generic⟩

theorem accepted_selfDelimiting_knot :
    SelfDelimiting plain.decodeValue .invalid
      [0x0D, 0, 0, 0, 1, 84, 0, 0, 0, 0, 0, 0, 0, 1, 0, 0, 0, 2, 109, 101, 0x0C, 0, 0, 0, 0] ∧
    SelfDelimiting plain.decodeParams .invalid
      [0, 0, 0, 1, 0x0D, 0, 0, 0, 1, 84, 0, 0, 0, 0, 0, 0, 0, 1, 0, 0, 0, 2, 109, 101, 0x0C, 0, 0, 0, 0] ∧
    SelfDelimiting (Message.decode plain) (fun why => .codec (.invalid why))
      [1, 0, 0, 0, 0, 0, 0, 0, 0, 7, 0, 0, 0, 1, 112, 0, 0, 0, 1, 0x0D, 0, 0, 0, 1, 84, 0, 0, 0, 0, 0, 0,
        0, 1, 0, 0, 0, 2, 109, 101, 0x0C, 0, 0, 0, 0] :=
  ⟨(accepted_selfDelimiting plain _).1 (.object (.ofSlot 0), Codec.knot) (by cbv),
    (accepted_selfDelimiting plain _).2.1 ([.object (.ofSlot 0)], Codec.knot) (by cbv),
    (accepted_selfDelimiting plain _).2.2.1 (.request 7 "p" ⟨[.object (.ofSlot 0)], Codec.knot⟩)
      (by cbv)⟩

end GraphRpc
