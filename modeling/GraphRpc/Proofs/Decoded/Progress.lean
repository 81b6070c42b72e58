import Mathlib
import GraphRpc.Proofs.Wire.Exact
import GraphRpc.Proofs.Wire.Reading
import GraphRpc.Proofs.Wire.Spelling

/-!
# Progress of the decoder

Every value that is read takes its tag at least, so the bytes that are left bound what a decoder can
still do. Neither the room for nesting nor a count that is read adds to that: with as many levels as
there are bytes a decoder does what it does with more, and a count beyond the bytes left ends for want
of bytes, whatever it is.
-/

namespace GraphRpc

open Wire DecodeM

variable {α β γ : Type}

-- ---------------------------------------------------------------------------
-- Bytes that are left
-- ---------------------------------------------------------------------------

theorem Exact.length_le {action : DecodeM α β} {d d' : Decoder α} (h : Exact action)
    (hok : action d = .ok b d') : d'.rest.length ≤ d.rest.length := by
  obtain ⟨used, htakes⟩ := h d b d' hok
  have hrest : d.rest = used ++ d'.rest := htakes.rest_eq
  rw [hrest, List.length_append]
  exact Nat.le_add_left _ _

/-- Whenever the action succeeds there are fewer bytes left than there were. -/
def Advances (action : DecodeM α β) : Prop :=
  ∀ d b d', action d = .ok b d' → d'.rest.length < d.rest.length

theorem Advances.bind {x : DecodeM α β} {f : β → DecodeM α γ} (hx : Advances x)
    (hf : ∀ b, Exact (f b)) : Advances (x >>= f) := by
  intro d c d' h
  obtain ⟨b, m, hb, hc⟩ := bind_ok.1 h
  exact ((hf b).length_le hc).trans_lt (hx d b m hb)

theorem Exact.bind_advances {x : DecodeM α β} {f : β → DecodeM α γ} (hx : Exact x)
    (hf : ∀ b, Advances (f b)) : Advances (x >>= f) := by
  intro d c d' h
  obtain ⟨b, m, hb, hc⟩ := bind_ok.1 h
  exact (hf b m c d' hc).trans_le (hx.length_le hb)

/-- A value takes its tag at least. -/
theorem advances_decodeAt (codec : Codec α) (room : Nat) : Advances (codec.decodeAt room) := by
  intro d v d' h
  obtain ⟨t, hreads, -⟩ := (decodeAt_ok codec room).1 h
  obtain ⟨-, hrest, -⟩ := reads_singleton.1 hreads
  obtain ⟨content, hspell⟩ := t.spell_eq_tag
  rw [hrest, hspell, List.length_append, List.length_cons]
  omega

theorem exact_entry (codec : Codec α) (room : Nat) : Exact (entry codec room) :=
  .bind (codec.exact_decodeAt room) fun _ => .bind (codec.exact_decodeAt room) fun _ => .pure _

theorem exact_field (codec : Codec α) (room : Nat) (access : FieldAccess α) (h : Handle) :
    Exact (field codec room access h) :=
  .bind (exact_read (ReadM.exact_text _ _)) fun _ =>
    .bind (codec.exact_decodeAt room) fun _ => exact_setField _ _ _ _

theorem advances_entry (codec : Codec α) (room : Nat) : Advances (entry codec room) :=
  (advances_decodeAt codec room).bind fun _ => .bind (codec.exact_decodeAt room) fun _ => .pure _

theorem advances_field (codec : Codec α) (room : Nat) (access : FieldAccess α) (h : Handle) :
    Advances (field codec room access h) :=
  (exact_read (ReadM.exact_text _ _)).bind_advances fun _ =>
    (advances_decodeAt codec room).bind fun _ => exact_setField _ _ _ _

-- ---------------------------------------------------------------------------
-- Counts
-- ---------------------------------------------------------------------------

/-- However often it is to be done, if that is more often than there are bytes left it fails, and
always in the same way. -/
def RunsOut (action : DecodeM α β) : Prop :=
  ∀ d, ∃ fault d', ∀ n > d.rest.length, repeated action n [] d = .error fault d'

theorem Advances.repeated_error {action : DecodeM α β} (h : Advances action) (d : Decoder α) :
    ∃ fault d', ∀ n > d.rest.length, ∀ done, repeated action n done d = .error fault d' := by
  induction hlen : d.rest.length using Nat.strong_induction_on generalizing d with
  | _ len ih =>
    subst hlen
    cases hrun : action d with
    | error fault d' =>
      refine ⟨fault, d', fun n hn done => ?_⟩
      obtain ⟨m, rfl⟩ := Nat.exists_eq_succ_of_ne_zero (Nat.ne_zero_of_lt hn)
      exact run_bind_of_error hrun
    | ok b next =>
      have hlt := h d b next hrun
      obtain ⟨fault, d', hfault⟩ := ih _ hlt next rfl
      refine ⟨fault, d', fun n hn done => ?_⟩
      obtain ⟨m, rfl⟩ := Nat.exists_eq_succ_of_ne_zero (Nat.ne_zero_of_lt hn)
      rw [repeated, run_bind_of_ok hrun]
      exact hfault m (by omega) (b :: done)

theorem Advances.runsOut {action : DecodeM α β} (h : Advances action) : RunsOut action := by
  intro d
  obtain ⟨fault, d', hfault⟩ := h.repeated_error d
  exact ⟨fault, d', fun n hn => hfault n hn []⟩

-- ---------------------------------------------------------------------------
-- Room
-- ---------------------------------------------------------------------------

def SameUpTo (n : Nat) (x y : DecodeM α β) : Prop := ∀ d, d.rest.length ≤ n → x d = y d

namespace SameUpTo

variable {n : Nat} {x y : DecodeM α β} {f g : β → DecodeM α γ}

theorem refl (n : Nat) (x : DecodeM α β) : SameUpTo n x x := fun _ _ => rfl

theorem bind (h : SameUpTo n x y) (hx : Exact x) (hf : ∀ b, SameUpTo n (f b) (g b)) :
    SameUpTo n (x >>= f) (y >>= g) := by
  intro d hd
  have heq := h d hd
  cases hrun : x d with
  | ok b m =>
    rw [run_bind_of_ok hrun, run_bind_of_ok (heq ▸ hrun)]
    exact hf b m ((hx.length_le hrun).trans hd)
  | error fault m => rw [run_bind_of_error hrun, run_bind_of_error (heq ▸ hrun)]

theorem after (hx : Exact x) (hf : ∀ b, SameUpTo n (f b) (g b)) :
    SameUpTo n (x >>= f) (x >>= g) := (refl n x).bind hx hf

theorem get {f g : Decoder α → DecodeM α γ} (h : ∀ d, SameUpTo n (f d) (g d)) :
    SameUpTo n (get >>= f) (get >>= g) := fun d hd => h d d hd

theorem byte {f g : UInt8 → DecodeM α γ} (h : ∀ b m, n = m + 1 → SameUpTo m (f b) (g b)) :
    SameUpTo n (read .byte >>= f) (read .byte >>= g) := by
  intro d hd
  cases hrun : (read .byte : DecodeM α UInt8) d with
  | ok b next =>
    obtain ⟨hbyte, -⟩ := read_ok.1 hrun
    rw [byte_ok.1 hbyte, List.length_cons] at hd
    obtain ⟨m, rfl⟩ := Nat.exists_eq_succ_of_ne_zero (Nat.ne_zero_of_lt hd)
    rw [run_bind_of_ok hrun, run_bind_of_ok hrun]
    exact h b m rfl next (Nat.le_of_succ_le_succ hd)
  | error fault next => rw [run_bind_of_error hrun, run_bind_of_error hrun]

theorem repeated (h : SameUpTo n x y) (hx : Exact x) (k : Nat) (done : List β) :
    SameUpTo n (DecodeM.repeated x k done) (DecodeM.repeated y k done) := by
  induction k generalizing done with
  | zero => exact refl n _
  | succ k ih => exact h.bind hx fun b => ih (b :: done)

end SameUpTo

/-- The room does not matter if there are no fewer levels than bytes. -/
theorem Codec.decodeAt_sameUpTo (codec : Codec α) (hr : n ≤ r) (hr' : n ≤ r') :
    SameUpTo n (codec.decodeAt r) (codec.decodeAt r') := by
  induction n using Nat.strong_induction_on generalizing r r' with
  | _ n ih =>
    rw [decodeAt.eq_def, decodeAt.eq_def]
    refine .byte fun b m hm => .after (.lift _) fun tag => ?_
    -- The tag is what makes up for the level that a container or an object takes.
    subst hm
    obtain ⟨s, rfl⟩ : ∃ s, r = s + 1 := Nat.exists_eq_succ_of_ne_zero (by omega)
    obtain ⟨s', rfl⟩ : ∃ s', r' = s' + 1 := Nat.exists_eq_succ_of_ne_zero (by omega)
    have hinner : SameUpTo m (codec.decodeAt s) (codec.decodeAt s') :=
      ih m (by omega) (by omega) (by omega)
    have hexact := codec.exact_decodeAt s
    cases tag with
    | null | bool | i8 | i16 | i32 | i64 | f32 | f64 | str | bytes | objectRef => exact .refl _ _
    | array =>
      exact .after (exact_read (ReadM.exact_length _ _)) fun count =>
        (hinner.repeated hexact count []).bind (exact_repeated hexact count []) fun _ => .refl _ _
    | map =>
      have hentry : SameUpTo m (entry codec s) (entry codec s') :=
        hinner.bind hexact fun _ => hinner.bind hexact fun _ => .refl _ _
      have hexact := exact_entry codec s
      exact .after (exact_read (ReadM.exact_length _ _)) fun count =>
        (hentry.repeated hexact count []).bind (exact_repeated hexact count []) fun _ => .refl _ _
    | object =>
      have hfield (access : FieldAccess α) (h : Handle) :
          SameUpTo m (field codec s access h) (field codec s' access h) :=
        .after (exact_read (ReadM.exact_text _ _)) fun _ => hinner.bind hexact fun _ => .refl _ _
      refine .after (exact_read (ReadM.exact_text _ _)) fun typeName =>
        .after (exact_read (ReadM.exact_nat 4)) fun number => .get fun d => ?_
      dsimp only
      split
      · exact fun _ _ => rfl
      refine .after (.lift _) fun access => .after (.lift _) fun o =>
        .after (exact_insert _ _) fun h => .after (exact_read (ReadM.exact_length _ _)) fun count => ?_
      have hexact := exact_field codec s access h
      exact ((hfield access h).repeated hexact count []).bind (exact_repeated hexact count [])
        fun _ => .refl _ _

/-- Whatever the limits are, the bytes end every run: levels beyond their number make no difference, and
no loop takes more turns than there are bytes. -/
structure Codec.EndsWithBytes (codec : Codec α) : Prop where
  levels : ∀ room d, d.rest.length ≤ room → codec.decodeAt room d = codec.decodeAt d.rest.length d
  items : ∀ room, RunsOut (codec.decodeAt room)
  entries : ∀ room, RunsOut (entry codec room)
  fields : ∀ room access h, RunsOut (field codec room access h)

theorem Codec.endsWithBytes (codec : Codec α) : codec.EndsWithBytes where
  levels _ d hroom := codec.decodeAt_sameUpTo hroom le_rfl d le_rfl
  items room := (advances_decodeAt codec room).runsOut
  entries room := (advances_entry codec room).runsOut
  fields room access h := (advances_field codec room access h).runsOut

end GraphRpc
