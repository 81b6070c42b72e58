import Mathlib
import GraphRpc.Calls

/-!
# The fate of a call

A call is entered, may be given a deadline, and waits until something meets it: an outcome, a
failure of all calls, a cancellation, or its deadline. The first of these decides it, and whatever
comes later finds it decided. This is the whole story of a call, told without a table and without
timers; the timeline beside it is what the table does in the same time.
-/

namespace GraphRpc.Race

variable {α : Type}

inductive Op (α : Type) where
  | insert (id : UInt64) (timeout : Option Millis)
  | arm (id : UInt64) (after : Millis)
  | resolve (id : UInt64) (outcome : Except Failure (Payload α))
  | cancel (id : UInt64)
  | failAll (failure : Failure)
  | advance (ms : Millis)
  | wake (id : UInt64)

def Op.lapse : Op α → Millis
  | advance ms => ms
  | _ => 0

/-- The one call that an operation is about. -/
def Op.target? : Op α → Option UInt64
  | insert id _ | arm id _ | resolve id _ | cancel id | wake id => some id
  | failAll _ | advance _ => none

def Op.Quiet : Op α → Prop
  | insert .. | arm .. | cancel _ => True
  | resolve .. | failAll _ | advance _ | wake _ => False

-- ---------------------------------------------------------------------------
-- The story
-- ---------------------------------------------------------------------------

inductive Fate (α : Type) where
  | unknown
  | waiting (due : Option Millis)
  | told (time : Millis) (outcome : Except Failure (Payload α))
  | dropped

namespace Fate

/-- What an operation means for the call with `id`. -/
def meet (id : UInt64) (now : Millis) : Op α → Fate α → Fate α
  | .insert other _, unknown => if other = id then waiting none else unknown
  | .arm other after, waiting none => waiting (if other = id then some (now + after) else none)
  | .resolve other outcome, waiting due => if other = id then told now outcome else waiting due
  | .cancel other, waiting due => if other = id then dropped else waiting due
  | .failAll failure, waiting _ => told now (.error failure)
  | .advance ms, waiting (some due) =>
    if due ≤ now + ms then told due (.error (.call .timedOut)) else waiting (some due)
  | .wake other, waiting (some due) =>
    if other = id ∧ due ≤ now then told due (.error (.call .timedOut)) else waiting (some due)
  | _, fate => fate

def waiting? : Fate α → Option (Option Millis)
  | waiting due => some due
  | _ => none

def told? : Fate α → Option (Millis × Except Failure (Payload α))
  | told time outcome => some (time, outcome)
  | _ => none

def Decided : Fate α → Prop
  | told .. | dropped => True
  | unknown | waiting _ => False

variable {fate : Fate α} {id other : UInt64} {now : Millis} {op : Op α}

/-- Nothing that comes later meets a call that is decided. -/
theorem Decided.meet_eq (h : fate.Decided) (id : UInt64) (now : Millis) (op : Op α) :
    fate.meet id now op = fate := by
  cases fate with
  | told | dropped => cases op <;> rfl
  | unknown | waiting => exact h.elim

theorem Decided.waiting?_eq (h : fate.Decided) : fate.waiting? = none := by
  cases fate with
  | told | dropped => rfl
  | unknown | waiting => exact h.elim

theorem meet_other (htarget : op.target? = some other) (hne : other ≠ id) :
    fate.meet id now op = fate := by
  cases op <;> cases htarget <;> cases fate with
  | waiting due => cases due <;> simp [meet, hne]
  | _ => simp [meet, hne]

theorem waiting?_eq_some {due : Option Millis} : fate.waiting? = some due ↔ fate = waiting due := by
  cases fate <;> simp [waiting?]

theorem told?_meet (hop : op.Quiet) : (fate.meet id now op).told? = fate.told? := by
  cases op with
  | insert | arm | cancel => cases fate with
    | waiting due => cases due <;> simp only [meet] <;> (try split) <;> rfl
    | _ => simp only [meet] <;> (try split) <;> rfl
  | _ => exact hop.elim

theorem meet_eq_of_not_waiting (h : fate.waiting? = none)
    (hop : ∀ other timeout, op ≠ .insert other timeout) : fate.meet id now op = fate := by
  cases fate with
  | waiting due => cases h
  | unknown => cases op with
    | insert other timeout => exact (hop other timeout rfl).elim
    | _ => rfl
  | told | dropped => cases op <;> rfl

theorem meet_eq_of_not_due (hop : op = .advance 0 ∨ op = .wake id)
    (h : ∀ due, fate = waiting (some due) → ¬ due ≤ now) : fate.meet id now op = fate := by
  cases fate with
  | waiting due =>
    cases due with
    | none => rcases hop with rfl | rfl <;> rfl
    | some due => rcases hop with rfl | rfl <;> simp [meet, h due rfl]
  | _ => rcases hop with rfl | rfl <;> rfl

/-- A call that waits for a time was waiting for it before, or has just been given it. -/
theorem waiting_of_meet {due : Millis} (h : fate.meet id now op = waiting (some due)) :
    (fate = waiting (some due) ∧ ∀ ms, op = .advance ms → now + ms < due) ∨
      ∃ after, op = .arm id after ∧ due = now + after := by
  cases op with
  | arm other after =>
    cases fate with
    | waiting before =>
      cases before with
      | some before => exact .inl ⟨h, nofun⟩
      | none =>
        by_cases hid : other = id
        · subst hid
          exact .inr ⟨after, rfl, by simpa [meet, eq_comm] using h⟩
        · simp [meet, hid] at h
    | _ => cases h
  | _ =>
    unfold meet at h
    split at h <;> grind

end Fate

structure Story (α : Type) where
  now : Millis := 0
  fate : UInt64 → Fate α := fun _ => .unknown

namespace Story

def step (s : Story α) (op : Op α) : Story α where
  now := s.now + op.lapse
  fate id := (s.fate id).meet id s.now op

def run (s : Story α) (ops : List (Op α)) : Story α := ops.foldl step s

/-- An id is entered once, and a call that has a deadline is not given another one. -/
def Allows (s : Story α) : Op α → Prop
  | .insert id _ => s.fate id = .unknown
  | .arm id _ => (s.fate id).waiting?.join = none
  | _ => True

def Lawful (s : Story α) : List (Op α) → Prop
  | [] => True
  | op :: ops => s.Allows op ∧ (s.step op).Lawful ops

variable {s : Story α} {id : UInt64} {op : Op α}

theorem run_decided (h : (s.fate id).Decided) (ops : List (Op α)) :
    (s.run ops).fate id = s.fate id := by
  induction ops generalizing s with
  | nil => rfl
  | cons op ops ih =>
    have hstep : (s.step op).fate id = s.fate id := h.meet_eq id s.now op
    exact (ih (hstep ▸ h)).trans hstep

/-- A call that still waits when its time comes is told so. -/
theorem run_expired {due ms : Millis} (h : s.fate id = .waiting (some due)) (hle : due ≤ s.now + ms)
    (ops : List (Op α)) :
    (s.run (.advance ms :: ops)).fate id = .told due (.error (.call .timedOut)) := by
  have htold : (s.step (.advance ms)).fate id = .told due (.error (.call .timedOut)) := by
    simp [step, h, Fate.meet, hle]
  have hdecided : ((s.step (.advance ms)).fate id).Decided := by
    rw [htold]
    trivial
  exact (run_decided hdecided ops).trans htold

theorem step_eq_self (htarget : op.target? = some id) (hlapse : op.lapse = 0)
    (h : (s.fate id).meet id s.now op = s.fate id) : s.step op = s := by
  have hmeet : ∀ other, (s.fate other).meet other s.now op = s.fate other := by
    intro other
    by_cases hid : id = other
    · exact hid ▸ h
    · exact Fate.meet_other htarget hid
  simp only [step, hlapse, Nat.add_zero, hmeet]

theorem fate_step_other {other : UInt64} (htarget : op.target? = some id) (hne : id ≠ other) :
    (s.step op).fate other = s.fate other :=
  Fate.meet_other htarget hne

def Ahead (s : Story α) : Prop := ∀ id due, s.fate id = .waiting (some due) → s.now ≤ due

theorem Ahead.step (h : s.Ahead) (op : Op α) : (s.step op).Ahead := by
  intro id due hdue
  rcases Fate.waiting_of_meet hdue with ⟨hbefore, hlate⟩ | ⟨after, rfl, rfl⟩
  · cases op with
    | advance ms => exact Nat.le_of_lt (hlate ms rfl)
    | _ => exact h id due hbefore
  · exact Nat.le_add_right ..

def tick (s : Story α) : Story α := { s with now := s.now + 1 }

theorem step_advance_succ (s : Story α) (ms : Millis) :
    s.step (.advance (ms + 1)) = ((s.step (.advance 0)).tick).step (.advance ms) := by
  -- A deadline that has not passed after the first look is met by the others or by none.
  have hnow : s.now + 1 + ms = s.now + (ms + 1) := by rw [Nat.add_assoc, Nat.add_comm 1]
  simp only [step, tick, Op.lapse, Nat.add_zero, hnow, Story.mk.injEq, true_and]
  funext id
  cases s.fate id with
  | waiting due =>
    cases due with
    | none => rfl
    | some due =>
      simp only [Fate.meet]
      by_cases hdue : due ≤ s.now
      · simp [hdue, Nat.le_add_right_of_le hdue]
      · simp [hdue, hnow]
  | unknown => rfl
  | told time outcome => rfl
  | dropped => rfl

/-- What is due now is decided before the clock goes on. -/
theorem ahead_tick (s : Story α) : ((s.step (.advance 0)).tick).Ahead := by
  intro id due hdue
  rcases Fate.waiting_of_meet hdue with ⟨-, hlate⟩ | ⟨after, harm, -⟩
  · exact hlate 0 rfl
  · cases harm

end Story

-- ---------------------------------------------------------------------------
-- The timeline
-- ---------------------------------------------------------------------------

/-- The callback of a call has the number of its id. -/
def callbackOf (id : UInt64) : Callback := { number := id.toNat }

/-- The table, and what has happened until now with its time. -/
structure Timeline (α : Type) where
  calls : Calls := {}
  trace : Trace α := {}
  log : List (Millis × Effect α) := []

namespace Timeline

def record (l : Timeline α) (calls : Calls) (t : Trace α) : Timeline α where
  calls := calls
  trace := { t with effects := [] }
  log := l.log ++ t.effects.map (t.now, ·)

def step (l : Timeline α) : Op α → Timeline α
  | .insert id timeout =>
    l.record (l.calls.insert ⟨id, callbackOf id, timeout.map (l.trace.now + ·), none⟩) l.trace
  | .arm id after => l.record (l.calls.arm id (l.trace.now + after)).2 l.trace
  | .resolve id outcome =>
    let (_, calls, t) := l.calls.resolve l.trace id outcome
    l.record calls t
  | .cancel id =>
    match l.calls.take? id with
    | some (_, calls) => l.record calls l.trace
    | none => l
  | .failAll failure =>
    let (_, calls, t) := l.calls.failAll l.trace failure
    l.record calls t
  | .advance ms =>
    let (calls, t, log) := l.calls.pass l.trace ms
    { calls, trace := { t with effects := [] }, log := l.log ++ log }
  | .wake id =>
    match l.calls.timers.find? fun timer => timer.callId = id ∧ timer.due ≤ l.trace.now with
    | some timer =>
      let (call, calls) := l.calls.fire timer
      l.record calls
        (call.toList.foldl (fun t call => Calls.deliverTimeout t call.callback) l.trace)
    | none => l

def run (l : Timeline α) (ops : List (Op α)) : Timeline α := ops.foldl step l

def tick (l : Timeline α) : Timeline α :=
  { l with trace := { l.trace with now := l.trace.now + 1 } }

theorem step_advance_succ (l : Timeline α) (ms : Millis) :
    l.step (.advance (ms + 1)) = ((l.step (.advance 0)).tick).step (.advance ms) := by
  simp [step, tick, Calls.pass]

def tellings (number : Nat) (log : List (Millis × Effect α)) :
    List (Millis × Except Failure (Payload α)) :=
  log.filterMap fun
    | (time, .resolved callback outcome) =>
      if callback.number = number then some (time, outcome) else none
    | _ => none

@[simp] theorem tellings_cons (number : Nat) (time : Millis) (callback : Callback)
    (outcome : Except Failure (Payload α)) (log : List (Millis × Effect α)) :
    tellings number ((time, .resolved callback outcome) :: log) =
      if callback.number = number then (time, outcome) :: tellings number log
      else tellings number log := by
  by_cases h : callback.number = number <;> simp [tellings, h]

@[simp] theorem tellings_append (number : Nat) (a b : List (Millis × Effect α)) :
    tellings number (a ++ b) = tellings number a ++ tellings number b :=
  List.filterMap_append

end Timeline
end GraphRpc.Race
