import Mathlib
import GraphRpc.Proofs.Admission.Reception

/-!
# The connection limit

A slot is reserved before a connection is entered and released after it was removed, so there are
never more connections than slots and never more slots than the limit, in whatever order streams come
and go.
-/

namespace GraphRpc

-- ---------------------------------------------------------------------------
-- What a step at one stream can do
-- ---------------------------------------------------------------------------

namespace Visit

theorem holds_of_entered {v : Visit} (h : v.entered) : v.holds := by
  obtain ⟨phase, closed⟩ := v
  cases phase with
  | spawning => rfl
  | served returned task => cases task <;> first | rfl | cases h
  | checking | reserving | entering | refused why => cases h

def releases (v : Visit) : Bool :=
  match v.phase with
  | .served _ .releasing => true
  | _ => false

theorem holds_of_releases {v : Visit} (h : v.releases) : v.holds := by
  obtain ⟨phase, closed⟩ := v
  cases phase with
  | served returned task => cases task <;> first | rfl | cases h
  | checking | reserving | entering | spawning | refused why => cases h

/-- How stream `i` goes on from `v` to `v'`, and what comes of the admission. -/
inductive Moves (i : Nat) (v v' : Visit) (a : Admission) : Admission → Prop
  | still (hentered : v'.entered = v.entered) (hholds : v'.holds = v.holds) : Moves i v v' a a
  | reserve (hroom : a.reserved < a.max) (hbefore : v.holds = false) (hentered : v'.entered = false)
      (hholds : v'.holds) : Moves i v v' a { a with reserved := a.reserved + 1 }
  | enter (hbefore : v.entered = false) (hslot : v.holds) (hentered : v'.entered) :
      Moves i v v' a (a.enter i)
  | leave (hbefore : v.entered) (hentered : v'.entered = false) (hholds : v'.holds) :
      Moves i v v' a (a.leave i)
  | release (hbefore : v.entered = false) (hslot : v.holds) (hholds : v'.holds = false) :
      Moves i v v' a a.release

theorem moves_accept (v : Visit) (i : Nat) (stopped : Bool) (a : Admission) :
    Moves i v (v.accept i stopped a).1 a (v.accept i stopped a).2 := by
  obtain ⟨phase, closed⟩ := v
  cases phase with
  | checking => cases stopped <;> exact .still rfl rfl
  | reserving =>
    by_cases hroom : a.reserved < a.max
    · simp only [accept, Admission.reserve?, if_pos hroom]
      exact .reserve hroom rfl rfl rfl
    · simp only [accept, Admission.reserve?, if_neg hroom]
      exact .still rfl rfl
  | entering => exact .enter rfl rfl rfl
  | spawning => exact .still rfl rfl
  | served returned task => exact .still rfl rfl
  | refused why => exact .still rfl rfl

theorem moves_serve (v : Visit) (i : Nat) (a : Admission) :
    Moves i v (v.serve i a).1 a (v.serve i a).2 := by
  obtain ⟨phase, closed⟩ := v
  cases phase with
  | served returned task =>
    cases task with
    | running => exact .still rfl rfl
    | closing => exact .still rfl rfl
    | leaving => exact .leave rfl rfl rfl
    | releasing => exact .release rfl rfl rfl
    | gone => exact .still rfl rfl
  | checking | reserving | entering | spawning | refused why => exact .still rfl rfl

/-- Whether the stream has got a slot, which it may have released since. -/
def passed (v : Visit) : Bool :=
  match v.phase with
  | .entering | .spawning | .served .. => true
  | .checking | .reserving | .refused _ => false

section
variable {v : Visit} {i : Nat} {stopped : Bool} {a : Admission}

theorem passed_accept (h : v.passed) : (v.accept i stopped a).1.passed := by
  obtain ⟨phase, closed⟩ := v
  cases phase with
  | entering | spawning | served returned task => rfl
  | checking | reserving | refused why => cases h

theorem passed_serve (h : v.passed) : (v.serve i a).1.passed := by
  obtain ⟨phase, closed⟩ := v
  cases phase with
  | served returned task => cases task <;> rfl
  | entering | spawning => exact h
  | checking | reserving | refused why => cases h

theorem passed_of_admission (h : (v.accept i stopped a).2 ≠ a) : (v.accept i stopped a).1.passed := by
  obtain ⟨phase, closed⟩ := v
  cases phase with
  | reserving =>
    by_cases hroom : a.reserved < a.max
    · simp only [accept, Admission.reserve?, if_pos hroom]
      rfl
    · simp only [accept, Admission.reserve?, if_neg hroom] at h
      exact absurd rfl h
  | entering => rfl
  | checking | spawning | served returned task | refused why => exact absurd rfl h

end

theorem moves_close (v : Visit) (i : Nat) (a : Admission) : Moves i v v.close a a := .still rfl rfl

end Visit

-- ---------------------------------------------------------------------------
-- What every step keeps
-- ---------------------------------------------------------------------------

namespace Reception

/-- The admission counts the streams that have a slot and lists those that are entered. -/
structure Counted (max : Nat) (s : Reception) : Prop where
  max_eq : s.admission.max = max
  reserved_le : s.admission.reserved ≤ max
  reserved_eq : s.admission.reserved = s.visits.countP Visit.holds
  length_eq : s.admission.active.length = s.visits.countP Visit.entered
  nodup : s.admission.active.Nodup
  mem_active (i : Nat) :
    i ∈ s.admission.active ↔ ∃ visit, s.visits[i]? = some visit ∧ visit.entered

variable {max i : Nat} {s : Reception}

theorem counted_ofLimit (max : Nat) : (ofLimit max).Counted max where
  max_eq := rfl
  reserved_le := Nat.zero_le max
  reserved_eq := rfl
  length_eq := rfl
  nodup := List.nodup_nil
  mem_active i := by simp [ofLimit]

section
variable {visit : Visit}

theorem countP_visits (p : Visit → Bool) (h : s.visits[i]? = some visit) (visit' : Visit) :
    (s.visits.set i visit').countP p + (p visit).toNat =
      s.visits.countP p + (p visit').toNat := by
  obtain ⟨pre, post, hvisits, hset⟩ := exists_split h
  rw [hset, hvisits, List.countP_append, List.countP_append, List.countP_cons, List.countP_cons]
  cases p visit <;> cases p visit' <;> simp <;> omega

end

namespace Counted

variable {visit visit' : Visit} {a : Admission}

theorem mem_iff (h : s.Counted max) (hvisit : s.visits[i]? = some visit) :
    i ∈ s.admission.active ↔ visit.entered := by
  rw [h.mem_active, hvisit]
  simp

theorem mem_set (h : s.Counted max) (hvisit : s.visits[i]? = some visit) {active : List Nat}
    (hi : i ∈ active ↔ visit'.entered)
    (hothers : ∀ j, j ≠ i → (j ∈ active ↔ j ∈ s.admission.active)) (j : Nat) :
    j ∈ active ↔ ∃ v, (s.visits.set i visit')[j]? = some v ∧ v.entered := by
  by_cases hj : j = i
  · subst hj
    rw [hi, List.getElem?_set_self (List.getElem?_eq_some_iff.1 hvisit).1]
    simp
  · rw [hothers j hj, h.mem_active, List.getElem?_set_ne (Ne.symm hj)]

theorem moves (h : s.Counted max) (hvisit : s.visits[i]? = some visit)
    (hmoves : visit.Moves i visit' s.admission a) :
    ({ s with admission := a, visits := s.visits.set i visit' } : Reception).Counted max := by
  -- Both counts change by what the step changes at this one stream.
  have hentered := countP_visits Visit.entered hvisit visit'
  have hholds := countP_visits Visit.holds hvisit visit'
  have hmem := h.mem_iff hvisit
  rw [← h.length_eq] at hentered
  rw [← h.reserved_eq] at hholds
  cases hmoves with
  | still hentered' hholds' =>
    rw [hentered', Nat.add_right_cancel_iff] at hentered
    rw [hholds', Nat.add_right_cancel_iff] at hholds
    exact ⟨h.max_eq, h.reserved_le, hholds.symm, hentered.symm, h.nodup,
      h.mem_set hvisit (hmem.trans (by rw [hentered'])) fun _ _ => .rfl⟩
  | reserve hroom hbefore hentered' hholds' =>
    have hout : visit.entered = false :=
      Bool.eq_false_iff.2 fun hin => by cases hbefore.symm.trans (Visit.holds_of_entered hin)
    rw [hentered', hout, Nat.add_right_cancel_iff] at hentered
    rw [hholds', hbefore] at hholds
    exact ⟨h.max_eq, h.max_eq ▸ hroom, hholds.symm, hentered.symm, h.nodup,
      h.mem_set hvisit (hmem.trans (by rw [hentered', hout])) fun _ _ => .rfl⟩
  | enter hbefore hslot hentered' =>
    have hout : i ∉ s.admission.active := by rw [hmem, hbefore]; simp
    rw [hentered', hbefore] at hentered
    rw [Visit.holds_of_entered hentered', hslot, Nat.add_right_cancel_iff] at hholds
    refine ⟨h.max_eq, h.reserved_le, hholds.symm, ?_, ?_, h.mem_set hvisit ?_ fun j hj => ?_⟩
    · rw [Admission.enter, List.length_append]
      exact hentered.symm
    · refine List.nodup_append.2 ⟨h.nodup, List.nodup_singleton i, fun j hj k hk hjk => hout ?_⟩
      rwa [← List.mem_singleton.1 hk, ← hjk]
    · simp [Admission.enter, hentered']
    · simp [Admission.enter, hj]
  | leave hbefore hentered' hholds' =>
    have hin : i ∈ s.admission.active := hmem.2 hbefore
    rw [hentered', hbefore] at hentered
    rw [hholds', Visit.holds_of_entered hbefore, Nat.add_right_cancel_iff] at hholds
    refine ⟨h.max_eq, h.reserved_le, hholds.symm, ?_, h.nodup.erase i,
      h.mem_set hvisit ?_ fun j hj => ?_⟩
    · rw [Admission.leave, List.length_erase_of_mem hin]
      exact Nat.sub_eq_of_eq_add hentered.symm
    · simp [Admission.leave, h.nodup.mem_erase_iff, hentered']
    · simp [Admission.leave, h.nodup.mem_erase_iff, hj]
  | release hbefore hslot hholds' =>
    have hout : visit'.entered = false :=
      Bool.eq_false_iff.2 fun hin => by cases hholds'.symm.trans (Visit.holds_of_entered hin)
    rw [hout, hbefore, Nat.add_right_cancel_iff] at hentered
    rw [hholds', hslot] at hholds
    refine ⟨h.max_eq, (Nat.sub_le ..).trans h.reserved_le, ?_, hentered.symm, h.nodup,
      h.mem_set hvisit (hmem.trans (by rw [hout, hbefore])) fun _ _ => .rfl⟩
    exact Nat.sub_eq_of_eq_add hholds.symm

theorem atVisit (h : s.Counted max) {f : Visit → Visit × Admission}
    (hf : ∀ visit : Visit, visit.Moves i (f visit).1 s.admission (f visit).2) :
    (s.atVisit i f).Counted max := by
  cases hvisit : s.visits[i]? with
  | none =>
    rw [Reception.atVisit, hvisit]
    exact h
  | some visit =>
    rw [atVisit_of hvisit]
    exact h.moves hvisit (hf visit)

theorem closeVisit (h : s.Counted max) (i : Nat) : (s.closeVisit i).Counted max :=
  h.atVisit fun visit => visit.moves_close i s.admission

theorem drains (h : s.Counted max) {stopped : Bool} {drains : List DrainPhase} :
    ({ s with stopped, drains } : Reception).Counted max :=
  ⟨h.max_eq, h.reserved_le, h.reserved_eq, h.length_eq, h.nodup, h.mem_active⟩

theorem offer (h : s.Counted max) : (s.step .offer).Counted max where
  max_eq := h.max_eq
  reserved_le := h.reserved_le
  reserved_eq := by
    rw [Reception.step, List.countP_append]
    exact h.reserved_eq
  length_eq := by
    rw [Reception.step, List.countP_append]
    exact h.length_eq
  nodup := h.nodup
  mem_active i := by
    refine (h.mem_active i).trans ?_
    rw [Reception.step]
    by_cases hi : i < s.visits.length
    · rw [List.getElem?_append_left hi]
    · rw [List.getElem?_append_right (Nat.le_of_not_lt hi),
        List.getElem?_eq_none (Nat.le_of_not_lt hi)]
      constructor
      · rintro ⟨v, hv, -⟩
        cases hv
      · rintro ⟨v, hv, hin⟩
        rw [List.mem_singleton.1 (List.mem_of_getElem? hv)] at hin
        cases hin

theorem stepDrain (h : s.Counted max) (j : Nat) : (s.stepDrain j).Counted max := by
  unfold Reception.stepDrain
  split
  · split
    · exact h.drains
    · exact h
  · exact h.drains
  · exact h.drains
  · exact (h.closeVisit _).drains
  · exact h.drains
  · exact h
  · exact h

theorem step (h : s.Counted max) (action : ReceptionAction) : (s.step action).Counted max := by
  cases action with
  | offer => exact h.offer
  | accept i => exact h.atVisit fun visit => visit.moves_accept i s.stopped s.admission
  | serve i => exact h.atVisit fun visit => visit.moves_serve i s.admission
  | close i => exact h.closeVisit i
  | shutdown => exact h.drains
  | drain j => exact h.stepDrain j
  | giveUp j =>
    rw [Reception.step, stepGiveUp]
    split
    · exact h.drains
    · exact h

theorem run (h : s.Counted max) (actions : List ReceptionAction) : (s.run actions).Counted max := by
  induction actions generalizing s with
  | nil => exact h
  | cons action actions ih => exact ih (h.step action)

end Counted

-- ---------------------------------------------------------------------------
-- Streams that are refused
-- ---------------------------------------------------------------------------

def Refused (s : Reception) (i : Nat) : Prop :=
  ∃ visit why, s.visits[i]? = some visit ∧ visit.phase = .refused why

theorem passed_step {visit visit' : Visit} {action : ReceptionAction}
    (hstep : VisitStep s i visit action visit') (h : visit.passed) : visit'.passed := by
  cases hstep with
  | still => exact h
  | accept => exact Visit.passed_accept h
  | serve => exact Visit.passed_serve h
  | close => exact h

theorem admission_of_refused {actions : List ReceptionAction}
    (h : ((s.step (.accept i)).run actions).Refused i) :
    (s.step (.accept i)).admission = s.admission := by
  cases hvisit : s.visits[i]? with
  | none => rw [step, stepAccept, Reception.atVisit, hvisit]
  | some visit =>
    have hstep : s.step (.accept i) = _ := atVisit_of hvisit
    have hnext : (s.step (.accept i)).visits[i]? = some (visit.accept i s.stopped s.admission).1 := by
      rw [hstep]
      exact List.getElem?_set_self (List.getElem?_eq_some_iff.1 hvisit).1
    by_contra hchanged
    rw [hstep] at hchanged
    obtain ⟨refused, why, hrefused, hwhy⟩ := h
    obtain ⟨last, hlast, hpassed⟩ := visit_run hnext (Visit.passed_of_admission hchanged)
      (fun _ _ _ _ => passed_step) actions
    rw [← Option.some.inj (hrefused.symm.trans hlast), Visit.passed, hwhy] at hpassed
    cases hpassed

/-- Whatever the order of their steps, streams that come and go stay within the limit: there are no
more connections than slots, there is one slot for every stream that has not released it, and a
stream that is refused changes neither. -/
theorem run_limited (max : Nat) (actions : List ReceptionAction) :
    let s := (ofLimit max).run actions
    s.admission.active.Nodup ∧ s.admission.active.length ≤ s.admission.reserved ∧
    s.admission.reserved ≤ max ∧ s.admission.reserved = s.visits.countP Visit.holds ∧
    (∀ visit ∈ s.visits, visit.releases → 0 < s.admission.reserved) ∧
    ∀ before i after, actions = before ++ .accept i :: after → s.Refused i →
      ((ofLimit max).run (before ++ [.accept i])).admission =
        ((ofLimit max).run before).admission := by
  intro s
  have h : s.Counted max := (counted_ofLimit max).run actions
  refine ⟨h.nodup, ?_, h.reserved_le, h.reserved_eq, fun visit hvisit hreleases => ?_, ?_⟩
  · rw [h.length_eq, h.reserved_eq]
    exact List.countP_mono_left fun _ _ => Visit.holds_of_entered
  · rw [h.reserved_eq]
    exact List.countP_pos_iff.2 ⟨visit, hvisit, Visit.holds_of_releases hreleases⟩
  · rintro before i after rfl hrefused
    have hsplit : s = (((ofLimit max).run before).step (.accept i)).run after := by
      simp only [s, run, List.foldl_append, List.foldl_cons]
    rw [run, List.foldl_append]
    exact admission_of_refused (hsplit ▸ hrefused)

def twoAtOnce : List ReceptionAction :=
  [.offer, .offer, .accept 0, .accept 1, .accept 0, .accept 1, .accept 0, .accept 0, .accept 0,
    .serve 0, .serve 0, .serve 0]

theorem run_limited_twoAtOnce :
    ((ofLimit 1).run twoAtOnce).Refused 1 ∧
    (∃ visit ∈ ((ofLimit 1).run twoAtOnce).visits, visit.releases) ∧
    0 < ((ofLimit 1).run twoAtOnce).admission.reserved ∧
    ((ofLimit 1).run (twoAtOnce.take 6)).admission =
      ((ofLimit 1).run (twoAtOnce.take 5)).admission := by
  have hrefused : ((ofLimit 1).run twoAtOnce).Refused 1 :=
    ⟨{ phase := .refused (.link (.connect (.limitReached 1))) }, _, by decide, rfl⟩
  have hreleases : { phase := .served true .releasing, closed := true } ∈
      ((ofLimit 1).run twoAtOnce).visits := by decide
  obtain ⟨-, -, -, -, hreserved, hunchanged⟩ := run_limited 1 twoAtOnce
  exact ⟨hrefused, ⟨_, hreleases, rfl⟩, hreserved _ hreleases rfl,
    hunchanged (twoAtOnce.take 5) 1 (twoAtOnce.drop 6) rfl hrefused⟩

end Reception
end GraphRpc
