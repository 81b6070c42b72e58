import Mathlib
import GraphRpc.Codec.Decode
import GraphRpc.Proofs.Wire.Steps

/-!
# Checked steps

Reading as a machine with 64-bit words performs it: a cursor moves over an input that stays where it
is, and every sum, difference, index, slice and allocation is a step of its own that traps where the
machine would. A trap is no failure of the reader. The reader of the library works on the bytes that
are left and has nothing to trap on, so the two are compared run by run: the checked run follows the
other one and never traps.
-/

namespace GraphRpc.Checked

open Wire

-- ---------------------------------------------------------------------------
-- Traps
-- ---------------------------------------------------------------------------

/-- What the machine cannot carry out. -/
inductive Trap where
  | overflow
  | underflow
  | outOfRange
  | lengthMismatch
  | pastEnd
  | capacity
  | vanished
deriving DecidableEq, Repr

inductive Stop (ε : Type) where
  | trap (why : Trap)
  | fault (why : ε)
deriving DecidableEq, Repr

def add (a b : Nat) : Except Trap Nat :=
  if a + b < UInt64.size then .ok (a + b) else .error .overflow

def sub (a b : Nat) : Except Trap Nat :=
  if b ≤ a then .ok (a - b) else .error .underflow

def slice (bytes : List UInt8) (start stop : Nat) : Except Trap (List UInt8) :=
  if start ≤ stop ∧ stop ≤ bytes.length then .ok ((bytes.drop start).take (stop - start))
  else .error .outOfRange

def index (bytes : List UInt8) (i : Nat) : Except Trap UInt8 :=
  match bytes[i]? with
  | some b => .ok b
  | none => .error .outOfRange

def copy (width : Nat) (bytes : List UInt8) : Except Trap (List UInt8) :=
  if bytes.length = width then .ok bytes else .error .lengthMismatch

/-- Room for `count` elements of `size` bytes each, which half the address space has to hold. -/
def allot (count size : Nat) : Except Trap Unit :=
  if count * size < 2 ^ 63 then .ok () else .error .capacity

def narrow (n : Nat) : Except Trap Unit :=
  if n ≤ maxWord then .ok () else .error .overflow

theorem add_of_lt (h : a + b < UInt64.size) : add a b = .ok (a + b) := if_pos h

theorem eq_of_add (h : add a b = .ok c) : c = a + b := by
  unfold add at h
  split at h
  · cases h
    rfl
  · cases h

theorem sub_of_le (h : b ≤ a) : sub a b = .ok (a - b) := if_pos h

theorem slice_of_le {bytes : List UInt8} (h : start ≤ stop) (h' : stop ≤ bytes.length) :
    slice bytes start stop = .ok ((bytes.drop start).take (stop - start)) := if_pos ⟨h, h'⟩

theorem copy_of_length {bytes : List UInt8} (h : bytes.length = width) :
    copy width bytes = .ok bytes := if_pos h

theorem allot_of_lt (h : count * size < 2 ^ 63) : allot count size = .ok () := if_pos h

theorem narrow_of_le (h : n ≤ maxWord) : narrow n = .ok () := if_pos h

example : sub 1 2 = .error .underflow := rfl
example : slice [1, 2] 1 3 = .error .outOfRange := rfl

-- ---------------------------------------------------------------------------
-- Following
-- ---------------------------------------------------------------------------

abbrev CheckedM (ε σ : Type) := EStateM (Stop ε) σ

instance instMonadLiftTrap {ε : Type} : MonadLift (Except Trap) (Except (Stop ε)) where
  monadLift x := x.mapError .trap

instance instMonadLiftFault {ε : Type} : MonadLift (Except ε) (Except (Stop ε)) where
  monadLift x := x.mapError .fault

section
variable {ε σ τ β γ : Type} {R R' : σ → τ → Prop}

/-- The same outcome, with related states if there is a result; a trap agrees with nothing. -/
inductive Agree (R : σ → τ → Prop) :
    EStateM.Result (Stop ε) σ β → EStateM.Result ε τ β → Prop
  | ok (b : β) {s : σ} {t : τ} (related : R s t) : Agree R (.ok b s) (.ok b t)
  | fault (why : ε) (s : σ) (t : τ) : Agree R (.error (.fault why) s) (.error why t)

/-- From related states, the checked run agrees with the other one. -/
def Follows (R : σ → τ → Prop) (x : CheckedM ε σ β) (y : EStateM ε τ β) : Prop :=
  ∀ s t, R s t → Agree R (x s) (y t)

theorem Agree.weaken {r : EStateM.Result (Stop ε) σ β} {r' : EStateM.Result ε τ β}
    (h : Agree R r r') (hR : ∀ s t, R s t → R' s t) : Agree R' r r' := by
  cases h with
  | ok b related => exact .ok b (hR _ _ related)
  | fault why s t => exact .fault why s t

theorem Agree.bind {x : CheckedM ε σ β} {y : EStateM ε τ β} {f : β → CheckedM ε σ γ}
    {g : β → EStateM ε τ γ} (h : Agree R (x s) (y t))
    (hf : ∀ b s' t', y t = .ok b t' → R s' t' → Agree R' (f b s') (g b t')) :
    Agree R' ((x >>= f) s) ((y >>= g) t) := by
  generalize hx : x s = r at h
  generalize hy : y t = r' at h
  cases h with
  | ok b related =>
    rw [run_bind_of_ok hx, run_bind_of_ok hy]
    exact hf b _ _ hy related
  | fault why s' t' =>
    rw [run_bind_of_error hx, run_bind_of_error hy]
    exact .fault why s' t'

namespace Follows

theorem lift (x : Except ε β) : Follows R (liftM x : CheckedM ε σ β) (liftM x : EStateM ε τ β) := by
  intro s t related
  cases x with
  | ok b => exact .ok b related
  | error why => exact .fault why s t

theorem pure (b : β) : Follows (ε := ε) R (pure b) (pure b) := fun _ _ related => .ok b related

theorem throw (why : ε) : Follows (β := β) R (throw (.fault why)) (throw why) :=
  fun s t _ => .fault why s t

theorem bind {x : CheckedM ε σ β} {y : EStateM ε τ β} {f : β → CheckedM ε σ γ}
    {g : β → EStateM ε τ γ} (h : Follows R x y) (hf : ∀ b, Follows R (f b) (g b)) :
    Follows R (x >>= f) (y >>= g) :=
  fun s t related => (h s t related).bind fun b s' t' _ related' => hf b s' t' related'

end Follows

theorem run_checked {x : Except Trap β} (h : x = .ok b) (f : β → CheckedM ε σ γ) :
    ((liftM x : CheckedM ε σ β) >>= f) s = f b s := by
  cases h
  rfl

end

-- ---------------------------------------------------------------------------
-- The cursor
-- ---------------------------------------------------------------------------

structure Cursor where
  input : List UInt8
  pos : Nat
deriving DecidableEq

namespace Cursor

def remaining (c : Cursor) : Except Trap Nat := sub c.input.length c.pos

def rest (c : Cursor) : Except Trap (List UInt8) := slice c.input c.pos c.input.length

/-- A cursor within an input that fits the address space, with `rest` from its position on. -/
structure Shows (c : Cursor) (rest : List UInt8) : Prop where
  pos_le : c.pos ≤ c.input.length
  length_lt : c.input.length < UInt64.size
  drop_pos : c.input.drop c.pos = rest

theorem shows_start {bytes : List UInt8} (h : bytes.length < UInt64.size) :
    Shows ⟨bytes, 0⟩ bytes := ⟨Nat.zero_le _, h, rfl⟩

section
variable {c : Cursor} {bytes : List UInt8}

theorem Shows.length_eq (h : c.Shows bytes) : bytes.length = c.input.length - c.pos := by
  rw [← h.drop_pos, List.length_drop]

theorem Shows.remaining (h : c.Shows bytes) :
    c.remaining = .ok bytes.length := by
  rw [h.length_eq]
  exact sub_of_le h.pos_le

theorem Shows.rest (h : c.Shows bytes) : c.rest = .ok bytes := by
  have all : (c.input.drop c.pos).take (c.input.length - c.pos) = bytes := by
    rw [h.drop_pos, ← h.length_eq, List.take_length]
  rw [Cursor.rest, slice_of_le h.pos_le le_rfl, all]

end

end Cursor

abbrev CursorM := CheckedM CodecFault Cursor

namespace CursorM

/-- Move to `pos`, which may be the end of the input but nothing behind it. -/
def seek (pos : Nat) : CursorM Unit := fun c =>
  if pos ≤ c.input.length then .ok () { c with pos } else .error (.trap .pastEnd) c

def take (n : Nat) : CursorM (List UInt8) := do
  let c ← get
  let left ← c.remaining
  if left < n then throw (.fault (.invalid .truncated)) else do
    let stop ← add c.pos n
    let taken ← slice c.input c.pos stop
    seek stop
    return taken

def byte : CursorM UInt8 := do
  index (← take 1) 0

def nat (width : Nat) : CursorM Nat := do
  return Binary.value (← copy width (← take width))

def length (what : Measure) (max : Nat) : CursorM Nat := do
  let len ← nat 4
  if len > max then throw (.fault (.sizeLimit what len max)) else pure len

def text (what : Measure) (max : Nat) : CursorM String := do
  let len ← length what max
  let raw ← take len
  match String.fromUTF8? raw.toByteArray with
  | some s => pure s
  | none => throw (.fault (.invalid .notUtf8))

open Cursor (Shows)

theorem take_follows (n : Nat) : Follows Shows (take n) (ReadM.take n) := by
  intro c bytes h
  have hlen := h.length_eq
  have hsize := h.length_lt
  have hpos := h.pos_le
  unfold take
  rw [run_bind_of_ok (get_ok.2 ⟨rfl, rfl⟩), run_checked h.remaining]
  unfold ReadM.take
  simp only [List.length_take]
  by_cases short : bytes.length < n
  · rw [if_pos short, if_pos (by omega)]
    exact .fault _ _ _
  · have hsum : c.pos + n < UInt64.size := by omega
    have hin : c.pos + n ≤ c.input.length := by omega
    have hpart : (c.input.drop c.pos).take (c.pos + n - c.pos) = bytes.take n := by
      rw [h.drop_pos, Nat.add_sub_cancel_left]
    have hseek : seek (c.pos + n) c = .ok () { c with pos := c.pos + n } := if_pos hin
    rw [if_neg short, if_neg (by omega), run_checked (add_of_lt hsum),
      run_checked (slice_of_le (Nat.le_add_right ..) hin), run_bind_of_ok hseek, hpart]
    refine .ok _ ⟨hin, hsize, ?_⟩
    rw [← h.drop_pos, List.drop_drop]

theorem byte_follows : Follows Shows byte ReadM.byte := by
  intro c bytes h
  refine (take_follows 1 c bytes h).bind fun taken c' bytes' htaken h' => ?_
  obtain ⟨b, rfl⟩ := List.length_eq_one_iff.1 (take_ok.1 htaken).2
  exact .ok b h'

theorem nat_follows (width : Nat) : Follows Shows (nat width) (ReadM.nat width) := by
  intro c bytes h
  refine (take_follows width c bytes h).bind fun taken c' bytes' htaken h' => ?_
  rw [run_checked (copy_of_length (take_ok.1 htaken).2)]
  exact .ok _ h'

theorem length_follows (what : Measure) (max : Nat) :
    Follows Shows (length what max) (ReadM.length what max) := by
  apply (nat_follows 4).bind
  intro len
  split
  · exact .throw _
  · exact .pure _

theorem text_follows (what : Measure) (max : Nat) :
    Follows Shows (text what max) (ReadM.text what max) := by
  apply (length_follows what max).bind
  intro len
  apply (take_follows len).bind
  intro raw
  cases String.fromUTF8? raw.toByteArray with
  | some s => exact .pure s
  | none => exact .throw _

end CursorM
end GraphRpc.Checked
