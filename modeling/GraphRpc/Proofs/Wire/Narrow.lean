import Mathlib
import GraphRpc.Message
import GraphRpc.Proofs.Wire.Steps

/-!
# Narrower limits

Each limit is checked where it applies, and a check that fails ends the work there and then. So two
codecs that differ in their limits go the same way, step by step, until the narrower one stops.
-/

namespace GraphRpc

open Wire DecodeM

-- ---------------------------------------------------------------------------
-- Limits
-- ---------------------------------------------------------------------------

structure Limits.Le (l l' : Limits) : Prop where
  maxFrameSize : l.maxFrameSize ≤ l'.maxFrameSize
  maxStringLen : l.maxStringLen ≤ l'.maxStringLen
  maxBytesLen : l.maxBytesLen ≤ l'.maxBytesLen
  maxCollectionLen : l.maxCollectionLen ≤ l'.maxCollectionLen
  maxFields : l.maxFields ≤ l'.maxFields
  maxDepth : l.maxDepth ≤ l'.maxDepth

instance : LE Limits := ⟨Limits.Le⟩

def CodecFault.IsSizeLimit (fault : CodecFault) : Prop :=
  ∃ what len bound, fault = .sizeLimit what len bound

theorem CodecFault.isSizeLimit_sizeLimit (what : Measure) (len bound : Nat) :
    (sizeLimit what len bound).IsSizeLimit := ⟨what, len, bound, rfl⟩

variable {α β γ σ : Type} {registry : Registry α} {l l' : Limits}

theorem Codec.room_le (h : l ≤ l') : (Codec.mk l registry).room ≤ (Codec.mk l' registry).room :=
  min_le_min h.maxDepth le_rfl

-- ---------------------------------------------------------------------------
-- Two runs
-- ---------------------------------------------------------------------------

/-- From every state `narrow` does what `wide` does, or it stops at a limit. -/
def Narrows (narrow wide : EStateM CodecFault σ β) : Prop :=
  ∀ s, narrow s = wide s ∨ ∃ fault s', narrow s = .error fault s' ∧ fault.IsSizeLimit

namespace Narrows

theorem refl (action : EStateM CodecFault σ β) : Narrows action action := fun _ => .inl rfl

theorem limit (what : Measure) (len bound : Nat) (wide : EStateM CodecFault σ β) :
    Narrows (throw (.sizeLimit what len bound)) wide :=
  fun s => .inr ⟨_, s, rfl, CodecFault.isSizeLimit_sizeLimit what len bound⟩

theorem bind {x x' : EStateM CodecFault σ β} {f f' : β → EStateM CodecFault σ γ}
    (hx : Narrows x x') (hf : ∀ b, Narrows (f b) (f' b)) : Narrows (x >>= f) (x' >>= f') := by
  intro s
  obtain heq | ⟨fault, s', hfault, hlimit⟩ := hx s
  · cases hrun : x s with
    | ok b m =>
      rw [run_bind_of_ok hrun, run_bind_of_ok (heq ▸ hrun)]
      exact hf b m
    | error fault m => exact .inl (by rw [run_bind_of_error hrun, run_bind_of_error (heq ▸ hrun)])
  · exact .inr ⟨fault, s', run_bind_of_error hfault, hlimit⟩

theorem after (x : EStateM CodecFault σ β) {f f' : β → EStateM CodecFault σ γ}
    (hf : ∀ b, Narrows (f b) (f' b)) : Narrows (x >>= f) (x >>= f') := (refl x).bind hf

theorem throw_bind (fault : CodecFault) (f f' : β → EStateM CodecFault σ γ) :
    Narrows (throw fault >>= f) (throw fault >>= f') := fun _ => .inl rfl

theorem forM {f f' : β → EStateM CodecFault σ PUnit} (h : ∀ b, Narrows (f b) (f' b)) :
    ∀ bs : List β, Narrows (bs.forM f) (bs.forM f')
  | [] => refl _
  | b :: bs => (h b).bind fun _ => forM h bs

end Narrows

-- ---------------------------------------------------------------------------
-- Reading
-- ---------------------------------------------------------------------------

theorem ReadM.length_narrows (what : Measure) (h : bound ≤ bound') :
    Narrows (length what bound) (length what bound') := by
  refine .after _ fun len => ?_
  by_cases hlen : len > bound
  · rw [if_pos hlen]
    exact .limit _ _ _ _
  · rw [if_neg hlen, if_neg (by omega)]
    exact .refl _

theorem ReadM.text_narrows (what : Measure) (h : bound ≤ bound') :
    Narrows (text what bound) (text what bound') :=
  (length_narrows what h).bind fun _ => .refl _

theorem Message.header_narrows (h : l ≤ l') :
    Narrows (header ⟨l, registry⟩) (header ⟨l', registry⟩) :=
  .after _ fun _ => .after _ fun _ => .after _ fun _ =>
    (ReadM.text_narrows .methodName h.maxStringLen).bind fun _ => .refl _

namespace DecodeM

theorem read_narrows {reader reader' : ReadM β} (h : Narrows reader reader') :
    Narrows (read reader : DecodeM α β) (read reader') := by
  intro d
  obtain heq | ⟨fault, left, hfault, hlimit⟩ := h d.rest
  · exact .inl (by rw [read, read, heq])
  · exact .inr ⟨fault, { d with rest := left }, by rw [read, hfault], hlimit⟩

theorem repeated_narrows {action action' : DecodeM α β} (h : Narrows action action') (n : Nat)
    (done : List β) : Narrows (repeated action n done) (repeated action' n done) := by
  induction n generalizing done with
  | zero => exact .refl _
  | succ n ih => exact h.bind fun b => ih (b :: done)

end DecodeM

/-- Reading a value with narrower limits and no more room. -/
theorem Codec.decodeAt_narrows (h : l ≤ l') {room room' : Nat} (hroom : room ≤ room') :
    Narrows (decodeAt ⟨l, registry⟩ room) (decodeAt ⟨l', registry⟩ room') := by
  induction room using Nat.strong_induction_on generalizing room' with
  | _ room ih =>
    have hinner : ∀ r, room = r + 1 → ∃ r', room' = r' + 1 ∧
        Narrows (decodeAt ⟨l, registry⟩ r) (decodeAt ⟨l', registry⟩ r') := by
      rintro r rfl
      obtain ⟨r', rfl⟩ : ∃ r', room' = r' + 1 := Nat.exists_eq_succ_of_ne_zero (by omega)
      exact ⟨r', rfl, ih r (by omega) (by omega)⟩
    rw [decodeAt.eq_def, decodeAt.eq_def]
    refine .after _ fun b => .after _ fun tag => ?_
    cases tag with
    | null | bool | i8 | i16 | i32 | i64 | f32 | f64 | objectRef => exact .refl _
    | str => exact (read_narrows (ReadM.text_narrows _ h.maxStringLen)).bind fun _ => .refl _
    | bytes => exact (read_narrows (ReadM.length_narrows _ h.maxBytesLen)).bind fun _ => .refl _
    | array =>
      cases room with
      | zero => exact .limit _ _ _ _
      | succ r =>
        obtain ⟨r', rfl, hr⟩ := hinner r rfl
        exact (read_narrows (ReadM.length_narrows _ h.maxCollectionLen)).bind fun count =>
          (repeated_narrows hr count []).bind fun _ => .refl _
    | map =>
      cases room with
      | zero => exact .limit _ _ _ _
      | succ r =>
        obtain ⟨r', rfl, hr⟩ := hinner r rfl
        refine (read_narrows (ReadM.length_narrows _ h.maxCollectionLen)).bind fun count =>
          (repeated_narrows ?_ count []).bind fun _ => .refl _
        exact hr.bind fun k => hr.bind fun v => .refl _
    | object =>
      cases room with
      | zero => exact .limit _ _ _ _
      | succ r =>
        obtain ⟨r', rfl, hr⟩ := hinner r rfl
        refine (read_narrows (ReadM.text_narrows _ h.maxStringLen)).bind fun typeName =>
          .after _ fun number => .after _ fun d => ?_
        dsimp only
        split
        · exact .throw_bind _ _ _
        refine .after _ fun access => .after _ fun o => .after _ fun handle =>
          (read_narrows (ReadM.length_narrows _ h.maxFields)).bind fun count =>
          (repeated_narrows ?_ count []).bind fun _ => .refl _
        exact (read_narrows (ReadM.text_narrows _ h.maxStringLen)).bind fun name =>
          hr.bind fun v => .refl _

theorem Codec.decode_narrows (h : l ≤ l') :
    Narrows (decode ⟨l, registry⟩) (decode ⟨l', registry⟩) := decodeAt_narrows h (room_le h)

-- ---------------------------------------------------------------------------
-- Writing
-- ---------------------------------------------------------------------------

namespace EncodeM

theorem checkLimit_narrows (what : Measure) (len : Nat) (h : bound ≤ bound') :
    Narrows (checkLimit what len bound) (checkLimit what len bound') := by
  unfold checkLimit
  by_cases hlen : len > bound ∨ len > maxWord
  · rw [if_pos hlen]
    exact .limit _ _ _ _
  · rw [if_neg hlen, if_neg (by omega)]
    exact .refl _

theorem putText_narrows (what : Measure) (s : String) (h : bound ≤ bound') :
    Narrows (putText what s bound) (putText what s bound') :=
  (checkLimit_narrows what _ h).bind fun _ => .refl _

end EncodeM

open EncodeM

/-- Writing a value with narrower limits and no more room. -/
theorem Codec.encodeAt_narrows (h : l ≤ l') (heap : Heap α) {room room' : Nat}
    (hroom : room ≤ room') (v : Value) :
    Narrows (encodeAt ⟨l, registry⟩ heap room v) (encodeAt ⟨l', registry⟩ heap room' v) := by
  induction room using Nat.strong_induction_on generalizing room' v with
  | _ room ih =>
    have hinner : ∀ r, room = r + 1 → ∃ r', room' = r' + 1 ∧ ∀ v,
        Narrows (encodeAt ⟨l, registry⟩ heap r v) (encodeAt ⟨l', registry⟩ heap r' v) := by
      rintro r rfl
      obtain ⟨r', rfl⟩ : ∃ r', room' = r' + 1 := Nat.exists_eq_succ_of_ne_zero (by omega)
      exact ⟨r', rfl, ih r (by omega) (by omega)⟩
    rw [encodeAt.eq_def, encodeAt.eq_def]
    cases v with
    | null | bool | i8 | i16 | i32 | i64 | f32 | f64 => exact .refl _
    | str s => exact .after _ fun _ => putText_narrows _ s h.maxStringLen
    | bytes data => exact (checkLimit_narrows _ _ h.maxBytesLen).bind fun _ => .refl _
    | array items =>
      cases room with
      | zero => exact .limit _ _ _ _
      | succ r =>
        obtain ⟨r', rfl, hr⟩ := hinner r rfl
        exact (checkLimit_narrows _ _ h.maxCollectionLen).bind fun _ => .after _ fun _ =>
          .after _ fun _ => .forM hr items
    | map entries =>
      cases room with
      | zero => exact .limit _ _ _ _
      | succ r =>
        obtain ⟨r', rfl, hr⟩ := hinner r rfl
        exact (checkLimit_narrows _ _ h.maxCollectionLen).bind fun _ => .after _ fun _ =>
          .after _ fun _ => .forM (fun (k, v) => (hr k).bind fun _ => hr v) entries
    | object handle =>
      refine .after _ fun e => ?_
      dsimp only
      cases e.met.idxOf? handle with
      | some number => exact .refl _
      | none =>
        cases room with
        | zero => exact .limit _ _ _ _
        | succ r =>
          obtain ⟨r', rfl, hr⟩ := hinner r rfl
          dsimp only
          cases heap.slot? handle with
          | none => exact .refl _
          | some slot =>
            refine .after _ fun number => .after _ fun access => .after _ fun fields =>
              (checkLimit_narrows _ _ h.maxFields).bind fun _ => .after _ fun _ =>
              (putText_narrows _ _ h.maxStringLen).bind fun _ => .after _ fun _ =>
              .after _ fun _ => .forM (fun field => ?_) fields
            exact (putText_narrows _ _ h.maxStringLen).bind fun _ => .after _ fun v => hr v

theorem Codec.encode_narrows (h : l ≤ l') (heap : Heap α) (v : Value) :
    Narrows (encode ⟨l, registry⟩ heap v) (encode ⟨l', registry⟩ heap v) :=
  encodeAt_narrows h heap (room_le h) v

theorem Codec.encodeParams_narrows (h : l ≤ l') (values : List Value) (heap : Heap α) :
    Narrows (encodeParams ⟨l, registry⟩ values heap) (encodeParams ⟨l', registry⟩ values heap) :=
  (checkLimit_narrows _ _ h.maxCollectionLen).bind fun _ => .after _ fun _ =>
    .forM (encode_narrows h heap) values

end GraphRpc
