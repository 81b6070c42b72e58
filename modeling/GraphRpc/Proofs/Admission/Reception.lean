import Mathlib
import GraphRpc.Proofs.Interleaving
import GraphRpc.Session.Shutdown

/-!
# Streams at a server

Calls that accept a stream, the tasks that serve the accepted ones and calls that shut the server
down, each taking its own atomic steps in any order between those of the others. Letting one of them
take all its steps at once gives what a session does.
-/

namespace GraphRpc

-- ---------------------------------------------------------------------------
-- One stream
-- ---------------------------------------------------------------------------

/-- The next step of the task that serves a stream, if it has one. -/
inductive TaskPhase where
  | running
  | closing
  | leaving
  | releasing
  | gone
deriving DecidableEq, Repr

namespace TaskPhase

def entered : TaskPhase → Bool
  | running | closing | leaving => true
  | releasing | gone => false

def holds : TaskPhase → Bool
  | running | closing | leaving | releasing => true
  | gone => false

end TaskPhase

/-- The next step of an accept call, if it has one. The task has steps of its own once there is one. -/
inductive VisitPhase where
  | checking
  | reserving
  | entering
  | spawning
  | served (returned : Bool) (task : TaskPhase)
  | refused (why : Failure)
deriving DecidableEq, Repr

/-- A stream that the server was asked to accept. -/
structure Visit where
  phase : VisitPhase := .checking
  closed : Bool := false
deriving DecidableEq, Repr

namespace Visit

def entered (v : Visit) : Bool :=
  match v.phase with
  | .spawning => true
  | .served _ task => task.entered
  | .checking | .reserving | .entering | .refused _ => false

/-- Whether the stream has a slot that was not released yet. -/
def holds (v : Visit) : Bool :=
  match v.phase with
  | .entering | .spawning => true
  | .served _ task => task.holds
  | .checking | .reserving | .refused _ => false

def shared (v : Visit) : Bool :=
  match v.phase with
  | .spawning | .served .. => true
  | .checking | .reserving | .entering | .refused _ => false

def close (v : Visit) : Visit := { v with closed := v.closed || v.shared }

/-- A step of the accept call of stream `i`. -/
def accept (v : Visit) (i : Nat) (stopped : Bool) (a : Admission) : Visit × Admission :=
  match v.phase with
  | .checking => ({ v with phase := if stopped then .refused .closed else .reserving }, a)
  | .reserving =>
    match a.reserve? with
    | none => ({ v with phase := .refused (.link (.connect (.limitReached a.max))) }, a)
    | some a => ({ v with phase := .entering }, a)
  | .entering => ({ v with phase := .spawning }, a.enter i)
  | .spawning => ({ v with phase := .served false .running }, a)
  | .served _ task => ({ v with phase := .served true task }, a)
  | .refused _ => (v, a)

/-- A step of the task of stream `i`. -/
def serve (v : Visit) (i : Nat) (a : Admission) : Visit × Admission :=
  match v.phase with
  | .served returned task =>
    match task with
    | .running => ({ v with phase := .served returned .closing }, a)
    | .closing => ({ phase := .served returned .leaving, closed := true }, a)
    | .leaving => ({ v with phase := .served returned .releasing }, a.leave i)
    | .releasing => ({ v with phase := .served returned .gone }, a.release)
    | .gone => (v, a)
  | .checking | .reserving | .entering | .spawning | .refused _ => (v, a)

end Visit

-- ---------------------------------------------------------------------------
-- All of them
-- ---------------------------------------------------------------------------

/-- The next step of a shutdown call, if it has one. -/
inductive DrainPhase where
  | polling
  | listing
  | closing (rest : List Nat)
  | stopping
  | returned
deriving DecidableEq, Repr

structure Reception where
  admission : Admission
  stopped : Bool := false
  /-- In the order in which the streams came. The connection of a stream has its number. -/
  visits : List Visit := []
  drains : List DrainPhase := []
deriving DecidableEq, Repr

inductive ReceptionAction where
  | offer
  | accept (i : Nat)
  | serve (i : Nat)
  | close (i : Nat)
  | shutdown
  | drain (j : Nat)
  | giveUp (j : Nat)
deriving DecidableEq, Repr

namespace Reception

def ofLimit (max : Nat) : Reception := { admission := { max } }

def atVisit (s : Reception) (i : Nat) (f : Visit → Visit × Admission) : Reception :=
  match s.visits[i]? with
  | none => s
  | some visit => { s with admission := (f visit).2, visits := s.visits.set i (f visit).1 }

def stepAccept (s : Reception) (i : Nat) : Reception :=
  s.atVisit i (·.accept i s.stopped s.admission)

def stepServe (s : Reception) (i : Nat) : Reception := s.atVisit i (·.serve i s.admission)

def closeVisit (s : Reception) (i : Nat) : Reception := s.atVisit i (·.close, s.admission)

def enterDrain (s : Reception) (j : Nat) (phase : DrainPhase) : Reception :=
  { s with drains := s.drains.set j phase }

def stepDrain (s : Reception) (j : Nat) : Reception :=
  match s.drains[j]? with
  | some .polling => if s.admission.isEmpty then s.enterDrain j .stopping else s
  | some .listing => s.enterDrain j (.closing s.admission.active)
  | some (.closing []) => s.enterDrain j .stopping
  | some (.closing (i :: rest)) => (s.closeVisit i).enterDrain j (.closing rest)
  | some .stopping => { s with stopped := true }.enterDrain j .returned
  | some .returned | none => s

def stepGiveUp (s : Reception) (j : Nat) : Reception :=
  match s.drains[j]? with
  | some .polling => s.enterDrain j .listing
  | _ => s

def step (s : Reception) : ReceptionAction → Reception
  | .offer => { s with visits := s.visits ++ [{}] }
  | .accept i => s.stepAccept i
  | .serve i => s.stepServe i
  | .close i => s.closeVisit i
  | .shutdown => { s with drains := s.drains ++ [.polling] }
  | .drain j => s.stepDrain j
  | .giveUp j => s.stepGiveUp j

def run (s : Reception) (actions : List ReceptionAction) : Reception := actions.foldl step s

-- ---------------------------------------------------------------------------
-- A step at one stream
-- ---------------------------------------------------------------------------

variable {s : Reception} {i j : Nat} {visit : Visit} {f : Visit → Visit × Admission}

@[simp] theorem drains_atVisit : (s.atVisit i f).drains = s.drains := by
  unfold atVisit
  split <;> rfl

theorem drains_enterDrain {phase : DrainPhase} (h : s.drains[j]? = some phase)
    {phase' : DrainPhase} : (s.enterDrain j phase').drains[j]? = some phase' :=
  List.getElem?_set_self (List.getElem?_eq_some_iff.1 h).1

theorem visits_atVisit : (s.atVisit i f).visits[j]? =
    if i = j then s.visits[j]?.map fun visit => (f visit).1 else s.visits[j]? := by
  unfold atVisit
  split
  · next h =>
    split
    · next hj => rw [← hj, h, Option.map_none]
    · rfl
  · next visit h =>
    rw [List.getElem?_set]
    split
    · next hj =>
      subst hj
      rw [if_pos (List.getElem?_eq_some_iff.1 h).1, h, Option.map_some]
    · rfl

theorem atVisit_of (h : s.visits[i]? = some visit) :
    s.atVisit i f =
      { s with admission := (f visit).2, visits := s.visits.set i (f visit).1 } := by
  simp only [atVisit, h]

/-- All that a step can do to stream `i`. -/
inductive VisitStep (s : Reception) (i : Nat) (visit : Visit) : ReceptionAction → Visit → Prop
  | still {action : ReceptionAction} : VisitStep s i visit action visit
  | accept : VisitStep s i visit (.accept i) (visit.accept i s.stopped s.admission).1
  | serve : VisitStep s i visit (.serve i) (visit.serve i s.admission).1
  | close {action : ReceptionAction} : VisitStep s i visit action visit.close

theorem visit_step (h : s.visits[i]? = some visit) (action : ReceptionAction) :
    ∃ visit', (s.step action).visits[i]? = some visit' ∧ VisitStep s i visit action visit' := by
  -- Steps at other streams and steps that only concern shutdown calls.
  have hat {k : Nat} {g : Visit → Visit × Admission}
      (hg : k = i → VisitStep s i visit action (g visit).1) :
      ∃ visit', (s.atVisit k g).visits[i]? = some visit' ∧ VisitStep s i visit action visit' := by
    rw [visits_atVisit, h]
    split
    · next hk => exact ⟨_, rfl, hg hk⟩
    · exact ⟨visit, rfl, .still⟩
  cases action with
  | offer =>
    refine ⟨visit, ?_, .still⟩
    rw [step, List.getElem?_append_left (List.getElem?_eq_some_iff.1 h).1, h]
  | accept k => exact hat fun hk => hk ▸ .accept
  | serve k => exact hat fun hk => hk ▸ .serve
  | close k => exact hat fun _ => .close
  | shutdown => exact ⟨visit, h, .still⟩
  | drain j =>
    rw [step, stepDrain]
    split
    · split <;> exact ⟨visit, h, .still⟩
    · exact ⟨visit, h, .still⟩
    · exact ⟨visit, h, .still⟩
    · exact hat fun _ => .close
    · exact ⟨visit, h, .still⟩
    · exact ⟨visit, h, .still⟩
    · exact ⟨visit, h, .still⟩
  | giveUp j =>
    rw [step, stepGiveUp]
    split <;> exact ⟨visit, h, .still⟩

theorem visit_run {p : Visit → Prop} (h : s.visits[i]? = some visit) (hvisit : p visit)
    (hstep : ∀ (s : Reception) (action : ReceptionAction) (visit visit' : Visit),
      VisitStep s i visit action visit' → p visit → p visit') (actions : List ReceptionAction) :
    ∃ visit', (s.run actions).visits[i]? = some visit' ∧ p visit' := by
  induction actions generalizing s visit with
  | nil => exact ⟨visit, h, hvisit⟩
  | cons action actions ih =>
    obtain ⟨visit', hnext, hvisitStep⟩ := visit_step h action
    exact ih hnext (hstep s action visit visit' hvisitStep hvisit)

/-- The steps of one stream in a row leave the others alone. -/
theorem run_replicate {f : Bool → Visit → Admission → Visit × Admission} {action : ReceptionAction}
    (hstep : ∀ s : Reception, s.step action = s.atVisit i (f s.stopped · s.admission))
    (h : s.visits[i]? = some visit) (n : Nat) :
    s.run (List.replicate n action) =
      let last := (fun x : Visit × Admission => f s.stopped x.1 x.2)^[n] (visit, s.admission)
      { s with admission := last.2, visits := s.visits.set i last.1 } := by
  obtain ⟨hi, hvisit⟩ := List.getElem?_eq_some_iff.1 h
  induction n generalizing s visit with
  | zero => simp [run, ← hvisit]
  | succ n ih =>
    have hnext : s.step action = _ := (hstep s).trans (atVisit_of h)
    rw [List.replicate_succ, run, List.foldl_cons, ← run, hnext,
      ih (List.getElem?_set_self hi) (by simpa using hi) (List.getElem_set_self _)]
    simp only [List.set_set, Function.iterate_succ_apply]

end Reception
end GraphRpc
