import Mathlib
import GraphRpc.Message
import GraphRpc.Proofs.Wire.Steps

/-!
# Exact reading

Reading takes just the bytes that it needs. What follows them has no part in it, and an input that
ends within them is reported as such before anything else can be wrong with it. An input that was
accepted therefore tells where it ends: nothing is missing from it, and nothing can be added.
-/

namespace GraphRpc

open Wire DecodeM

-- ---------------------------------------------------------------------------
-- Actions that read
-- ---------------------------------------------------------------------------

/-- A state that holds the bytes still to be read. -/
class ByteSource (σ : Type) where
  rest : σ → List UInt8
  put : σ → List UInt8 → σ
  rest_put : ∀ s bytes, rest (put s bytes) = bytes
  put_put : ∀ s bytes more, put (put s bytes) more = put s more
  put_rest : ∀ s, put s (rest s) = s

open ByteSource

instance : ByteSource (List UInt8) where
  rest s := s
  put _ bytes := bytes
  rest_put _ _ := rfl
  put_put _ _ _ := rfl
  put_rest _ := rfl

instance {α : Type} : ByteSource (Decoder α) where
  rest := Decoder.rest
  put d bytes := { d with rest := bytes }
  rest_put _ _ := rfl
  put_put _ _ _ := rfl
  put_rest _ := rfl

variable {α β γ σ : Type} [ByteSource σ] {s s' : σ}

/-- The run from `s` to `s'` depends on the bytes `used` and on no others: with more after them it goes
the same way, and with fewer it ends for want of bytes. -/
structure Takes (action : EStateM CodecFault σ β) (s : σ) (b : β) (s' : σ) (used : List UInt8) :
    Prop where
  rest_eq : rest s = used ++ rest s'
  whole : ∀ more, action (put s (used ++ more)) = .ok b (put s' more)
  cut : ∀ p q, used = p ++ q → q ≠ [] → ∃ s'', action (put s p) = .error (.invalid .truncated) s''

/-- Whenever the action succeeds it has taken just what it needs. -/
def Exact (action : EStateM CodecFault σ β) : Prop :=
  ∀ s b s', action s = .ok b s' → ∃ used, Takes action s b s' used

section
variable {x : EStateM CodecFault σ β} {f : β → EStateM CodecFault σ γ}

/-- What one action takes and then another. -/
theorem Takes.bind {m : σ} (hx : Takes x s b m used) (hf : Takes (f b) m c s' used') :
    Takes (x >>= f) s c s' (used ++ used') where
  rest_eq := by rw [hx.rest_eq, hf.rest_eq, List.append_assoc]
  whole more := by rw [List.append_assoc, run_bind_of_ok (hx.whole _), hf.whole]
  cut p q heq hq := by
    obtain ⟨a, rfl, hused'⟩ | ⟨a, hused, rfl⟩ := List.append_eq_append_iff.1 heq
    · obtain ⟨s'', hcut⟩ := hf.cut a q hused' hq
      exact ⟨s'', by rw [run_bind_of_ok (hx.whole a), hcut]⟩
    -- The cut is within what the first action takes, or just behind it.
    · by_cases ha : a = []
      · subst ha
        obtain ⟨s'', hcut⟩ := hf.cut [] used' rfl (by simpa using hq)
        rw [List.append_nil] at hused
        subst hused
        have hwhole := hx.whole []
        rw [List.append_nil] at hwhole
        exact ⟨s'', by rw [run_bind_of_ok hwhole, hcut]⟩
      · obtain ⟨s'', hcut⟩ := hx.cut p a hused ha
        exact ⟨s'', run_bind_of_error hcut⟩

namespace Exact

theorem bind (hx : Exact x) (hf : ∀ b, Exact (f b)) : Exact (x >>= f) := by
  intro s c s' h
  obtain ⟨b, m, hb, hc⟩ := bind_ok.1 h
  obtain ⟨used, htakes⟩ := hx s b m hb
  obtain ⟨used', htakes'⟩ := hf b m c s' hc
  exact ⟨used ++ used', htakes.bind htakes'⟩

theorem of_still {action : EStateM CodecFault σ β}
    (h : ∀ s b s', action s = .ok b s' →
      rest s' = rest s ∧ ∀ bytes, action (put s bytes) = .ok b (put s' bytes)) : Exact action := by
  intro s b s' hok
  obtain ⟨hrest, hput⟩ := h s b s' hok
  refine ⟨[], hrest.symm, hput, fun p q hnil hq => ?_⟩
  exact (hq (List.append_eq_nil_iff.1 hnil.symm).2).elim

theorem pure (b : β) : Exact (pure b : EStateM CodecFault σ β) := by
  refine of_still fun s c s' h => ?_
  obtain ⟨rfl, rfl⟩ := pure_ok.1 h
  exact ⟨rfl, fun _ => rfl⟩

theorem throw (fault : CodecFault) : Exact (throw fault : EStateM CodecFault σ β) :=
  fun _ _ _ h => (throw_ok.1 h).elim

theorem throw_bind (fault : CodecFault) (f : β → EStateM CodecFault σ γ) :
    Exact (MonadExcept.throw fault >>= f) := by
  intro s c s' h
  obtain ⟨_, _, hthrow, -⟩ := bind_ok.1 h
  exact (throw_ok.1 hthrow).elim

theorem lift (x : Except CodecFault β) : Exact (liftM x : EStateM CodecFault σ β) := by
  cases x with
  | ok b => exact .pure b
  | error fault => exact .throw fault

/-- Looking at the state is exact if what follows does not depend on the bytes in it. -/
theorem get {g : σ → EStateM CodecFault σ β} (hput : ∀ s bytes, g (put s bytes) = g s)
    (hg : ∀ s, Exact (g s)) : Exact (get >>= g) := by
  intro s b s' h
  obtain ⟨_, _, hget, h⟩ := bind_ok.1 h
  obtain ⟨rfl, rfl⟩ := get_ok.1 hget
  obtain ⟨used, hrest, hwhole, hcut⟩ := hg s s b s' h
  have hrun (bytes : List UInt8) : (MonadState.get >>= g) (put s bytes) = g s (put s bytes) := by
    rw [← hput s bytes]
    rfl
  refine ⟨used, hrest, fun more => (hrun _).trans (hwhole more), fun p q heq hq => ?_⟩
  obtain ⟨s'', hs''⟩ := hcut p q heq hq
  exact ⟨s'', (hrun p).trans hs''⟩

end Exact
end

-- ---------------------------------------------------------------------------
-- Reading from bytes
-- ---------------------------------------------------------------------------

namespace ReadM

theorem takes {reader : ReadM β} {bytes left : List UInt8} (h : Exact reader)
    (hok : reader bytes = .ok b left) : ∃ used, bytes = used ++ left ∧
      (∀ more, reader (used ++ more) = .ok b more) ∧
      ∀ p q, used = p ++ q → q ≠ [] → ∃ r, reader p = .error (.invalid .truncated) r := by
  obtain ⟨used, hrest, hwhole, hcut⟩ := h bytes b left hok
  exact ⟨used, hrest, hwhole, hcut⟩

theorem exact_take (n : Nat) : Exact (take n) := by
  intro s taken s' h
  obtain ⟨rfl, rfl⟩ := take_ok.1 h
  refine ⟨taken, rfl, fun more => take_ok.2 ⟨rfl, rfl⟩, fun p q heq hq => ⟨p, ?_⟩⟩
  have hlen := List.length_pos_iff.2 hq
  change take taken.length p = _
  rw [heq, List.length_append]
  refine if_pos ?_
  rw [List.length_take]
  omega

theorem exact_byte : Exact byte := .bind (exact_take 1) fun _ => .pure _

theorem exact_nat (width : Nat) : Exact (nat width) := .bind (exact_take width) fun _ => .pure _

theorem exact_length (what : Measure) (bound : Nat) : Exact (length what bound) := by
  refine .bind (exact_nat 4) fun len => ?_
  split
  · exact .throw _
  · exact .pure len

theorem exact_text (what : Measure) (bound : Nat) : Exact (text what bound) := by
  refine .bind (exact_length what bound) fun len => .bind (exact_take len) fun raw => ?_
  cases String.fromUTF8? raw.toByteArray with
  | some s => exact .pure s
  | none => exact .throw _

end ReadM

theorem Message.exact_header (codec : Codec α) : Exact (header codec) := by
  refine .bind ReadM.exact_byte fun b => .bind (.lift _) fun kind =>
    .bind (ReadM.exact_nat 8) fun callId => .bind (ReadM.exact_text _ _) fun method => ?_
  split
  · exact .throw_bind _ _
  · exact .pure _

-- ---------------------------------------------------------------------------
-- Decoding
-- ---------------------------------------------------------------------------

namespace DecodeM

theorem exact_read {reader : ReadM β} (h : Exact reader) : Exact (read reader : DecodeM α β) := by
  intro d b d' hok
  obtain ⟨hreader, hheap⟩ := read_ok.1 hok
  obtain ⟨used, hrest, hwhole, hcut⟩ := ReadM.takes h hreader
  refine ⟨used, hrest, fun more => read_ok.2 ⟨hwhole more, hheap⟩, fun p q heq hq => ?_⟩
  obtain ⟨left, hleft⟩ := hcut p q heq hq
  refine ⟨{ d with rest := left }, ?_⟩
  change read reader { d with rest := p } = _
  rw [read, hleft]

theorem exact_repeated {action : DecodeM α β} (h : Exact action) (n : Nat) (done : List β) :
    Exact (repeated action n done) := by
  induction n generalizing done with
  | zero => exact .pure _
  | succ n ih => exact .bind h fun b => ih (b :: done)

theorem exact_insert (typeName : String) (o : Object α) : Exact (insert typeName o) := by
  refine .of_still fun d h d' hok => ?_
  cases hok
  exact ⟨rfl, fun _ => rfl⟩

theorem exact_setField (access : FieldAccess α) (h : Handle) (field : String) (v : Value) :
    Exact (setField access h field v) := by
  refine .get (fun _ _ => rfl) fun d => ?_
  cases d.heap.object? h with
  | none => exact .throw _
  | some o =>
    refine .bind (.lift _) fun o' => .of_still fun d b d' hok => ?_
    cases hok
    exact ⟨rfl, fun _ => rfl⟩

end DecodeM

namespace Codec

/-- Reading a value is exact, whatever the registry does with its fields. -/
theorem exact_decodeAt (codec : Codec α) (room : Nat) : Exact (codec.decodeAt room) := by
  -- Most tags do not care about the room, so the cases on it come last and the induction around them.
  have hstep : ∀ room, (∀ r, room = r + 1 → Exact (codec.decodeAt r)) →
      Exact (codec.decodeAt room) := by
    intro room ih
    rw [decodeAt.eq_def]
    refine .bind (exact_read ReadM.exact_byte) fun b => .bind (.lift _) fun tag => ?_
    cases tag with
    | null => exact .pure _
    | bool =>
      refine .bind (exact_read ReadM.exact_byte) fun b => ?_
      split
      · exact .pure _
      · exact .pure _
      · exact .throw _
    | i8 | i16 | i32 | i64 | f32 | f64 =>
      exact .bind (exact_read (ReadM.exact_nat _)) fun _ => .pure _
    | str => exact .bind (exact_read (ReadM.exact_text _ _)) fun _ => .pure _
    | bytes =>
      exact .bind (exact_read (ReadM.exact_length _ _)) fun len =>
        .bind (exact_read (ReadM.exact_take len)) fun _ => .pure _
    | array =>
      cases room with
      | zero => exact .throw _
      | succ r =>
        exact .bind (exact_read (ReadM.exact_length _ _)) fun count =>
          .bind (exact_repeated (ih r rfl) count []) fun _ => .pure _
    | map =>
      cases room with
      | zero => exact .throw _
      | succ r =>
        refine .bind (exact_read (ReadM.exact_length _ _)) fun count =>
          .bind (exact_repeated ?_ count []) fun _ => .pure _
        exact .bind (ih r rfl) fun k => .bind (ih r rfl) fun v => .pure _
    | objectRef =>
      refine .bind (exact_read (ReadM.exact_nat 4)) fun number => .get (fun _ _ => rfl) fun d => ?_
      split
      · exact .pure _
      · exact .throw _
    | object =>
      cases room with
      | zero => exact .throw _
      | succ r =>
        refine .bind (exact_read (ReadM.exact_text _ _)) fun typeName =>
          .bind (exact_read (ReadM.exact_nat 4)) fun number => .get (fun _ _ => rfl) fun d => ?_
        dsimp only
        split
        · exact .throw_bind _ _
        refine .bind (.lift _) fun access => .bind (.lift _) fun o =>
          .bind (exact_insert _ _) fun h => .bind (exact_read (ReadM.exact_length _ _)) fun count =>
          .bind (exact_repeated ?_ count []) fun _ => .pure _
        exact .bind (exact_read (ReadM.exact_text _ _)) fun name => .bind (ih r rfl) fun v =>
          exact_setField _ _ _ _
  induction room with
  | zero => exact hstep 0 fun r hr => (Nat.succ_ne_zero r hr.symm).elim
  | succ room ih => exact hstep (room + 1) fun r hr => Nat.succ.inj hr ▸ ih

end Codec
end GraphRpc
