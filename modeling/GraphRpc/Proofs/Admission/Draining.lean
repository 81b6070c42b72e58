import Mathlib
import GraphRpc.Proofs.Admission.Limit

/-!
# What a shutdown leaves open

A shutdown call looks for the last time when it finds nobody there, or when it lists what is left. What
is entered by then is over when the call returns. But streams are turned away only once the strategy is
stopped, which comes last: a stream whose accept call has passed its check before, and that is entered
after the last look, stays open.
-/

namespace GraphRpc

namespace DrainPhase

/-- Whether the call has looked for the last time. -/
def looked : DrainPhase → Bool
  | closing _ | stopping | returned => true
  | polling | listing => false

def rest : DrainPhase → List Nat
  | closing rest => rest
  | polling | listing | stopping | returned => []

end DrainPhase

namespace Visit

def accepted (v : Visit) : Bool :=
  match v.phase with
  | .served returned _ => returned
  | _ => false

def returned (v : Visit) : Bool :=
  match v.phase with
  | .served returned _ => returned
  | .refused _ => true
  | .checking | .reserving | .entering | .spawning => false

def ended (v : Visit) : Bool :=
  match v.phase with
  | .served _ task => task != .running
  | .checking | .reserving | .entering | .spawning | .refused _ => false

def isOver (v : Visit) : Bool := v.closed || v.ended

section
variable {v : Visit} {i : Nat} {stopped : Bool} {a : Admission}

theorem shared_of_accepted (h : v.accepted) : v.shared := by
  obtain ⟨phase, closed⟩ := v
  cases phase with
  | served returned task => rfl
  | checking | reserving | entering | spawning | refused why => cases h

theorem isOver_of_left (hshared : v.shared) (h : v.entered = false) : v.isOver := by
  obtain ⟨phase, closed⟩ := v
  cases phase with
  | served returned task =>
    cases task with
    | running | closing | leaving => cases h
    | releasing | gone => exact Bool.or_true _
  | spawning => cases h
  | checking | reserving | entering | refused why => cases hshared

theorem isOver_close (h : v.shared) : v.close.isOver := by
  rw [isOver, close, h, Bool.or_true, Bool.true_or]

theorem isOver_close_of_isOver (h : v.isOver) : v.close.isOver := by
  rw [isOver, Bool.or_eq_true] at h ⊢
  exact h.imp_left fun hclosed => by rw [close, hclosed, Bool.true_or]

theorem isOver_accept : (v.accept i stopped a).1.isOver = v.isOver := by
  obtain ⟨phase, closed⟩ := v
  cases phase with
  | checking => cases stopped <;> rfl
  | reserving =>
    simp only [accept]
    split <;> rfl
  | entering | spawning | served returned task | refused why => rfl

/-- Only a stream that is to be entered becomes known to others by a step of its accept call. -/
theorem shared_accept (h : v.phase ≠ .entering) : (v.accept i stopped a).1.shared = v.shared := by
  obtain ⟨phase, closed⟩ := v
  cases phase with
  | checking => cases stopped <;> rfl
  | reserving =>
    simp only [accept]
    split <;> rfl
  | entering => exact absurd rfl h
  | spawning | served returned task | refused why => rfl

theorem shared_serve : (v.serve i a).1.shared = v.shared := by
  obtain ⟨phase, closed⟩ := v
  cases phase with
  | served returned task => cases task <;> rfl
  | checking | reserving | entering | spawning | refused why => rfl

theorem isOver_serve (h : v.isOver) : (v.serve i a).1.isOver := by
  obtain ⟨phase, closed⟩ := v
  cases phase with
  | served returned task =>
    cases task with
    | running | leaving | releasing => exact Bool.or_true _
    | closing => rfl
    | gone => exact h
  | checking | reserving | entering | spawning | refused why => exact h

end

end Visit

namespace Reception

variable {s : Reception} {i j : Nat}

/-- The accept call of stream `i` is to enter its connection, but a shutdown call has looked for the
last time. -/
def Late (s : Reception) (i : Nat) : Prop :=
  (∃ visit, s.visits[i]? = some visit ∧ visit.phase = .entering) ∧ ∃ drain ∈ s.drains, drain.looked

/-- Whoever has looked for the last time is to close the connection of stream `i`, if there is one that
is not over. -/
def Watched (s : Reception) (i : Nat) : Prop :=
  ∀ drain ∈ s.drains, drain.looked → ∀ visit, s.visits[i]? = some visit → visit.shared →
    visit.isOver ∨ i ∈ drain.rest

namespace Watched

theorem atVisit (h : s.Watched i) {k : Nat} {f : Visit → Visit × Admission}
    (hf : ∀ visit, s.visits[i]? = some visit → k = i → (f visit).1.shared →
      visit.shared ∧ (visit.isOver → (f visit).1.isOver)) : (s.atVisit k f).Watched i := by
  intro drain hdrain hlooked visit hvisit hshared
  rw [drains_atVisit] at hdrain
  rw [visits_atVisit] at hvisit
  split at hvisit
  · next hk =>
    obtain ⟨before, hbefore, rfl⟩ := Option.map_eq_some_iff.1 hvisit
    obtain ⟨hknown, hover⟩ := hf before hbefore hk hshared
    exact (h drain hdrain hlooked before hbefore hknown).imp_left hover
  · exact h drain hdrain hlooked visit hvisit hshared

theorem closeVisit (h : s.Watched i) (k : Nat) : (s.closeVisit k).Watched i :=
  h.atVisit fun _ _ _ hshared => ⟨hshared, Visit.isOver_close_of_isOver⟩

theorem enterDrain (h : s.Watched i) {phase : DrainPhase}
    (hphase : phase.looked → ∀ visit, s.visits[i]? = some visit → visit.shared →
      visit.isOver ∨ i ∈ phase.rest) : (s.enterDrain j phase).Watched i := by
  intro drain hdrain
  obtain hold | rfl := List.mem_or_eq_of_mem_set hdrain
  · exact h drain hold
  · exact hphase

theorem stepAccept (h : s.Watched i) {k : Nat} (hlate : k = i → ¬s.Late i) :
    (s.stepAccept k).Watched i := by
  by_cases hlooked : ∃ drain ∈ s.drains, drain.looked
  · refine h.atVisit fun visit hvisit hk hshared => ?_
    have hphase : visit.phase ≠ .entering := fun hphase => hlate hk ⟨⟨visit, hvisit, hphase⟩, hlooked⟩
    exact ⟨Visit.shared_accept hphase ▸ hshared, Visit.isOver_accept.trans⟩
  · intro drain hdrain hlast
    rw [Reception.stepAccept, drains_atVisit] at hdrain
    exact absurd ⟨drain, hdrain, hlast⟩ hlooked

theorem stepServe (h : s.Watched i) (k : Nat) : (s.stepServe k).Watched i :=
  h.atVisit fun _ _ _ hshared => ⟨Visit.shared_serve ▸ hshared, Visit.isOver_serve⟩

theorem stepDrain {max : Nat} (h : s.Watched i) (hcounted : s.Counted max) (j : Nat) :
    (s.stepDrain j).Watched i := by
  unfold Reception.stepDrain
  split
  · -- Nobody is entered any more.
    split
    · next hempty =>
      refine h.enterDrain fun _ visit hvisit hshared => .inl (Visit.isOver_of_left hshared ?_)
      rw [Admission.isEmpty, List.isEmpty_iff] at hempty
      rw [Bool.eq_false_iff, ne_eq, ← hcounted.mem_iff hvisit, hempty]
      exact List.not_mem_nil
    · exact h
  · -- The connection is listed if it is entered.
    refine h.enterDrain fun _ visit hvisit hshared => ?_
    cases hentered : visit.entered with
    | true => exact .inr ((hcounted.mem_iff hvisit).2 hentered)
    | false => exact .inl (Visit.isOver_of_left hshared hentered)
  · next hdrain => exact h.enterDrain fun _ => h (.closing []) (List.mem_of_getElem? hdrain) rfl
  · next k rest hdrain =>
    refine (h.closeVisit k).enterDrain fun _ visit hvisit hshared => ?_
    have hmem : .closing (k :: rest) ∈ (s.closeVisit k).drains := by
      rw [Reception.closeVisit, drains_atVisit]
      exact List.mem_of_getElem? hdrain
    have hlisted := h.closeVisit k _ hmem rfl visit hvisit hshared
    by_cases hk : k = i
    · subst hk
      rw [Reception.closeVisit, visits_atVisit, if_pos rfl] at hvisit
      obtain ⟨before, -, rfl⟩ := Option.map_eq_some_iff.1 hvisit
      exact .inl (Visit.isOver_close hshared)
    · exact hlisted.imp_right fun hi => (List.mem_cons.1 hi).resolve_left (Ne.symm hk)
  · next hdrain =>
    have hstopped : ({ s with stopped := true } : Reception).Watched i := h
    exact hstopped.enterDrain fun _ => h .stopping (List.mem_of_getElem? hdrain) rfl
  · exact h
  · exact h

theorem step {max : Nat} (h : s.Watched i) (hcounted : s.Counted max) {action : ReceptionAction}
    (hlate : action = .accept i → ¬s.Late i) : (s.step action).Watched i := by
  cases action with
  | offer =>
    intro drain hdrain hlooked visit hvisit hshared
    rw [Reception.step] at hvisit
    by_cases hi : i < s.visits.length
    · rw [List.getElem?_append_left hi] at hvisit
      exact h drain hdrain hlooked visit hvisit hshared
    · rw [List.getElem?_append_right (Nat.le_of_not_lt hi)] at hvisit
      rw [List.mem_singleton.1 (List.mem_of_getElem? hvisit)] at hshared
      cases hshared
  | accept k => exact h.stepAccept fun hk => hlate (hk ▸ rfl)
  | serve k => exact h.stepServe k
  | close k => exact h.closeVisit k
  | shutdown =>
    intro drain hdrain hlooked
    obtain hold | hnew := List.mem_append.1 hdrain
    · exact h drain hold hlooked
    · rw [List.mem_singleton.1 hnew] at hlooked
      cases hlooked
  | drain j => exact h.stepDrain hcounted j
  | giveUp j =>
    rw [Reception.step, stepGiveUp]
    split
    · refine h.enterDrain fun hlooked => ?_
      cases hlooked
    · exact h

theorem run {max : Nat} (h : s.Watched i) (hcounted : s.Counted max)
    {actions : List ReceptionAction}
    (hlate : ∀ before after, actions = before ++ .accept i :: after → ¬(s.run before).Late i) :
    (s.run actions).Watched i := by
  induction actions generalizing s with
  | nil => exact h
  | cons action actions ih =>
    have hnow : action = .accept i → ¬s.Late i := fun haction => hlate [] actions (haction ▸ rfl)
    exact ih (h.step hcounted hnow) (hcounted.step action) fun before after hsplit =>
      hlate (action :: before) after (hsplit ▸ rfl)

end Watched

/-- As soon as a shutdown call has returned, every connection that was accepted is over, except one
that was entered after some shutdown call had looked for the last time. -/
theorem run_drained (max : Nat) {actions : List ReceptionAction}
    (hreturned : .returned ∈ ((ofLimit max).run actions).drains) :
    ∀ i visit, ((ofLimit max).run actions).visits[i]? = some visit → visit.accepted →
      visit.isOver ∨ ∃ before after, actions = before ++ .accept i :: after ∧
        ((ofLimit max).run before).Late i := by
  intro i visit hvisit haccepted
  by_cases hlate : ∃ before after, actions = before ++ .accept i :: after ∧
      ((ofLimit max).run before).Late i
  · exact .inr hlate
  · have hstart : (ofLimit max).Watched i := nofun
    have hwatched := hstart.run (counted_ofLimit max) fun before after hsplit hnow =>
      hlate ⟨before, after, hsplit, hnow⟩
    obtain hover | hrest := hwatched .returned hreturned rfl visit hvisit
      (Visit.shared_of_accepted haccepted)
    · exact .inl hover
    · cases hrest

def overtaken : List ReceptionAction :=
  [.offer, .accept 0, .accept 0, .accept 0, .accept 0, .accept 0, .offer, .accept 1, .shutdown,
    .drain 0, .giveUp 0, .drain 0, .accept 1, .accept 1, .accept 1, .accept 1, .drain 0, .drain 0,
    .drain 0]

theorem run_drained_overtaken :
    .returned ∈ ((ofLimit 2).run overtaken).drains ∧
    ∃ visit, ((ofLimit 2).run overtaken).visits[0]? = some visit ∧ visit.accepted ∧
      (visit.isOver ∨ ∃ before after, overtaken = before ++ .accept 0 :: after ∧
        ((ofLimit 2).run before).Late 0) := by
  have hreturned : .returned ∈ ((ofLimit 2).run overtaken).drains := by decide
  have hvisit : ((ofLimit 2).run overtaken).visits[0]? =
      some { phase := .served true .running, closed := true } := by decide
  exact ⟨hreturned, _, hvisit, rfl, run_drained 2 hreturned 0 _ hvisit rfl⟩

def AtRest (s : Reception) : Prop :=
  (∀ visit ∈ s.visits, visit.returned) ∧ ∀ drain ∈ s.drains, drain = .returned

instance (s : Reception) : Decidable s.AtRest := inferInstanceAs (Decidable (_ ∧ _))

/-- An accept call passes its check, and its connection is entered when the shutdown call has found
nobody there. -/
def enteredLate : List ReceptionAction :=
  [.offer, .accept 0, .shutdown, .drain 0, .accept 0, .accept 0, .accept 0, .accept 0, .drain 0]

theorem run_enteredLate :
    ((ofLimit 1).run enteredLate).AtRest ∧ ((ofLimit 1).run enteredLate).drains = [.returned] ∧
    ((ofLimit 1).run enteredLate).stopped ∧
    ∃ visit ∈ ((ofLimit 1).run enteredLate).visits, visit.accepted ∧ visit.isOver = false := by
  decide

end Reception
end GraphRpc
