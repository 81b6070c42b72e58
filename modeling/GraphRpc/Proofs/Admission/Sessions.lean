import Mathlib
import GraphRpc.Proofs.Inbound.Stopping
import GraphRpc.Proofs.Admission.Reception

/-!
# The streams of a session

A session takes a stream, ends a connection and shuts down in one go each. What this does to its
admission, to its strategy and to the connections is what the steps of a reception do in a row.
-/

namespace GraphRpc

variable {α : Type}

def Drain.phase (drain : Drain) : DrainPhase := if drain.done then .returned else .polling

namespace Session

def after {β : Type} (s : Session α) (operation : SessionM α β) : Session α := (operation.run s).2

theorem after_bind {β γ : Type} (s : Session α) (x : SessionM α β) (f : β → SessionM α γ) :
    s.after (x >>= f) = (s.after x).after (f (x.run s).1) := rfl

theorem after_get_bind {β : Type} (s : Session α) (f : Session α → SessionM α β) :
    s.after (get >>= f) = s.after (f s) := rfl

/-- From `s` to `s'` nobody was admitted, left or closed a connection, and nobody stopped the
strategy. -/
structure Aside (s s' : Session α) : Prop where
  admission_eq : s'.admission = s.admission
  isStopped_eq : s'.strategy.isStopped = s.strategy.isStopped
  drains_eq : s'.drains = s.drains
  connection_eq (k : Nat) : s'.connection? k = s.connection? k

namespace Aside

variable {s s' s'' : Session α}

theorem refl (s : Session α) : Aside s s := ⟨rfl, rfl, rfl, fun _ => rfl⟩

theorem trans (h : Aside s s') (h' : Aside s' s'') : Aside s s'' where
  admission_eq := h'.admission_eq.trans h.admission_eq
  isStopped_eq := h'.isStopped_eq.trans h.isStopped_eq
  drains_eq := h'.drains_eq.trans h.drains_eq
  connection_eq k := (h'.connection_eq k).trans (h.connection_eq k)

theorem forM {β : Type} {f : β → SessionM α PUnit} (h : ∀ b s, Aside s (s.after (f b))) (l : List β)
    (s : Session α) : Aside s (s.after (l.forM f)) := by
  induction l generalizing s with
  | nil => exact .refl s
  | cons b l ih => exact (h b s).trans (ih _)

end Aside

theorem connection?_modify (s : Session α) (k j : Nat) (f : Site α → Site α) :
    { s with sites := s.sites.modify k f }.connection? j =
      if k = j then ((s.site? j).map f).bind (·.connection) else s.connection? j := by
  simp only [connection?, site?, Array.getElem?_modify]
  split <;> rfl

theorem aside_updateLine (k : Nat) (f : Line → Line) (s : Session α) :
    Aside s (s.after (updateLine k f)) := by
  refine ⟨rfl, rfl, rfl, fun j => ?_⟩
  refine (connection?_modify s k j _).trans ?_
  split
  · simp only [connection?]
    cases s.site? j <;> rfl
  · rfl

theorem aside_wakeLine (k : Nat) (s : Session α) : Aside s (s.after (wakeLine k)) := by
  have hrun : s.after (wakeLine k) =
      if s.current.any (·.1 == k) then { s with current := some (k, true) }
      else if s.ready.any (Task.isLine k) then s
      else { s with ready := s.ready ++ [.line k] } := rfl
  rw [hrun]
  split
  · exact ⟨rfl, rfl, rfl, fun _ => rfl⟩
  · split
    · exact .refl s
    · exact ⟨rfl, rfl, rfl, fun _ => rfl⟩

theorem aside_wakeLineIf (k : Nat) (wants : Line → Bool) (s : Session α) :
    Aside s (s.after (wakeLineIf k wants)) := by
  rw [wakeLineIf, after_bind]
  change Aside s (s.after (if (s.line? k).any wants then wakeLine k else pure ()))
  split
  · exact aside_wakeLine k s
  · exact .refl s

theorem aside_spawn (task : Task α) (s : Session α) : Aside s (s.after (spawn task)) :=
  ⟨rfl, rfl, rfl, fun _ => rfl⟩

theorem aside_record (peer : Option String) (event : Event α) (s : Session α) :
    Aside s (s.after (record peer event)) := ⟨rfl, rfl, rfl, fun _ => rfl⟩

theorem shutdown_enqueue (lanes : Lanes (Delivery α)) (k : Nat) (x : Delivery α) :
    (lanes.enqueue k x).2.shutdown = lanes.shutdown := by
  unfold Lanes.enqueue
  split
  · rfl
  · split <;> rfl

theorem aside_handOver (k : Nat) (message : Message α) (s : Session α) :
    Aside s (s.after (handOver k message)) := by
  simp only [handOver, after, StateT.run_bind, StateT.run_get, pure_bind]
  cases hs : s.strategy with
  | inline stopped => exact .refl s
  | pooled lanes =>
    set number := ((s.site? k).map (·.number)).getD 0
    -- Whatever the lanes answer, nothing but the lanes has changed so far.
    have hlanes : Aside s { s with
        strategy := .pooled (lanes.enqueue (lanes.laneOf number) (k, message)).2 } := by
      refine ⟨rfl, ?_, rfl, fun _ => rfl⟩
      rw [hs]
      exact shutdown_enqueue ..
    simp only [StateT.run_bind, StateT.run_set, pure_bind]
    split
    · exact hlanes.trans ⟨rfl, rfl, rfl, fun _ => rfl⟩
    · exact hlanes.trans ⟨rfl, rfl, rfl, fun _ => rfl⟩
    · exact hlanes

theorem aside_absorb (k : Nat) (effect : Effect α) (s : Session α) :
    Aside s (s.after (absorb k effect)) := by
  cases effect with
  | resolved callback outcome =>
    cases h : callback.awaited <;> simp only [absorb, h] <;> exact ⟨rfl, rfl, rfl, fun _ => rfl⟩
  | discarded callback =>
    cases h : callback.awaited <;> simp only [absorb, h] <;> exact ⟨rfl, rfl, rfl, fun _ => rfl⟩
  | handled handler message => exact ⟨rfl, rfl, rfl, fun _ => rfl⟩
  | armed timer => exact ⟨rfl, rfl, rfl, fun _ => rfl⟩
  | handedOver message => exact aside_handOver k message s
  | frameQueued =>
    rw [absorb, notifyWriter, after_bind]
    exact (aside_wakeLineIf k Line.wantsFrame s).trans (aside_updateLine k _ _)
  | closeSignalled => exact aside_wakeLineIf k Line.wantsClose s
  | connected | disconnected | faulted why => exact ⟨rfl, rfl, rfl, fun _ => rfl⟩

theorem closed_close (e : Endpoint α) : (Endpoint.close.run e).2.connection.closed := by
  cases hclosed : e.connection.closed with
  | false => rw [Endpoint.close_run hclosed]
  | true => rw [Endpoint.close_run_closed hclosed, hclosed]

structure Closes (k : Nat) (s s' : Session α) : Prop where
  admission_eq : s'.admission = s.admission
  isStopped_eq : s'.strategy.isStopped = s.strategy.isStopped
  drains_eq : s'.drains = s.drains
  connection_eq (j : Nat) : j ≠ k → s'.connection? j = s.connection? j
  closed (connection : Connection α) : s'.connection? k = some connection → connection.closed

theorem closes_close (k : Nat) (s : Session α) : Closes k s (s.after (perform k Endpoint.close)) := by
  simp only [perform, act, after, StateT.run_bind, StateT.run_get, pure_bind]
  cases hconnection : s.connection? k with
  | none => exact ⟨rfl, rfl, rfl, fun _ _ => rfl, fun c hc => by cases hconnection.symm.trans hc⟩
  | some connection =>
    let e := (Endpoint.close.run ⟨connection, s.trace⟩).2
    let entered : Session α := { s with
      trace := { e.trace with effects := [] }
      sites := s.sites.modify k fun site => { site with connection := some e.connection } }
    have haside := Aside.forM (aside_absorb k) e.trace.effects entered
    have hat (j : Nat) : entered.connection? j =
        if k = j then ((s.site? j).map fun site =>
          { site with connection := some e.connection }).bind (·.connection) else s.connection? j :=
      connection?_modify ..
    change Closes k s (entered.after (e.trace.effects.forM (absorb k)))
    refine ⟨haside.admission_eq, haside.isStopped_eq, haside.drains_eq, fun j hj => ?_, fun c hc => ?_⟩
    · rw [haside.connection_eq, hat, if_neg (Ne.symm hj)]
    · rw [haside.connection_eq, hat, if_pos rfl] at hc
      cases hsite : s.site? k with
      | none => simp [hsite] at hc
      | some site =>
        have hceq : e.connection = c := by simpa [hsite] using hc
        rw [← hceq]
        exact closed_close _

-- ---------------------------------------------------------------------------
-- Steps in a row
-- ---------------------------------------------------------------------------

/-- The reception as a session has it. -/
structure Mirrors (s : Session α) (r : Reception) : Prop where
  admission_eq : r.admission = s.admission
  stopped_eq : r.stopped = s.strategy.isStopped
  closed (k : Nat) (connection : Connection α) (visit : Visit) :
    s.connection? k = some connection → r.visits[k]? = some visit →
      visit.closed = connection.closed

variable {s : Session α} {r : Reception}

theorem Mirrors.visit {s' : Session α} {r' : Reception} {visit : Visit} (h : Mirrors s r)
    (hadmission : r'.admission = s'.admission) (hstopped : r'.stopped = r.stopped)
    (hvisits : r'.visits = r.visits.set k visit)
    (hstopped' : s'.strategy.isStopped = s.strategy.isStopped)
    (hothers : ∀ j, j ≠ k → s'.connection? j = s.connection? j)
    (hclosed : ∀ connection, s'.connection? k = some connection → visit.closed = connection.closed) :
    Mirrors s' r' where
  admission_eq := hadmission
  stopped_eq := hstopped.trans (h.stopped_eq.trans hstopped'.symm)
  closed j connection v hconnection hv := by
    rw [hvisits, List.getElem?_set] at hv
    by_cases hj : k = j
    · subst hj
      rw [if_pos rfl] at hv
      split at hv
      · cases hv
        exact hclosed connection hconnection
      · cases hv
    · rw [if_neg hj] at hv
      rw [hothers j (Ne.symm hj)] at hconnection
      exact h.closed j connection v hconnection hv

theorem Mirrors.aside {s' : Session α} (h : Mirrors s r) (haside : Aside s s') : Mirrors s' r where
  admission_eq := h.admission_eq.trans haside.admission_eq.symm
  stopped_eq := h.stopped_eq.trans haside.isStopped_eq.symm
  closed k connection visit hconnection hvisit :=
    h.closed k connection visit (haside.connection_eq k ▸ hconnection) hvisit

section
variable {a a' : Admission} {k : Nat}

def accepting (k : Nat) (stopped : Bool) (a : Admission) (n : Nat) : Visit × Admission :=
  (fun x : Visit × Admission => x.1.accept k stopped x.2)^[n] ({}, a)

theorem accepting_stopped : accepting k true a 5 = ({ phase := .refused .closed }, a) := rfl

theorem accepting_full (h : a.reserve? = none) :
    accepting k false a 5 =
      ({ phase := .refused (.link (.connect (.limitReached a.max))) }, a) := by
  simp [accepting, Visit.accept, h]

theorem accepting_entered (h : a.reserve? = some a') :
    accepting k false a 5 = ({ phase := .served true .running }, a'.enter k) := by
  simp [accepting, Visit.accept, h]

end

def launch (k : Nat) : SessionM α Unit := do
  updateLine k fun line => { line with phase := .attached }
  spawn (.line k)

theorem aside_launch (k : Nat) (s : Session α) : Aside s (s.after (launch k)) := by
  rw [launch, after_bind]
  exact (aside_updateLine k _ s).trans (aside_spawn _ _)

theorem takeStream_stopped (k : Nat) (h : s.strategy.isStopped) :
    (takeStream k).run s = (.error .closed, s.after (updateLine k Line.closeNear)) := by
  simp only [takeStream, StateT.run_bind, StateT.run_get, pure_bind, h, if_true]
  rfl

theorem takeStream_full (k : Nat) (h : s.strategy.isStopped = false)
    (hfull : s.admission.reserve? = none) :
    (takeStream k).run s = (.error (.link (.connect (.limitReached s.admission.max))),
      s.after (updateLine k Line.closeNear)) := by
  simp only [takeStream, StateT.run_bind, StateT.run_get, pure_bind, h, hfull]
  rfl

def entered (s : Session α) (k : Nat) (admission : Admission) : Session α :=
  { s with
    admission
    connections := s.connections + 1
    sites := s.sites.modify k fun site =>
      { site with connection := some s.fresh, number := s.connections, admitted := true } }

theorem takeStream_entered {a : Admission} (k : Nat) (h : s.strategy.isStopped = false)
    (hreserve : s.admission.reserve? = some a) :
    (takeStream k).run s = (.ok (), (s.entered k (a.enter k)).after (launch k)) := by
  simp only [takeStream, StateT.run_bind, StateT.run_get, pure_bind, h, hreserve]
  rfl

theorem connection?_entered (s : Session α) (k : Nat) (admission : Admission) (j : Nat) :
    (s.entered k admission).connection? j =
      if k = j then (s.site? j).map fun _ => s.fresh else s.connection? j := by
  refine (connection?_modify s k j _).trans ?_
  split
  · cases s.site? j <;> rfl
  · rfl

/-- A stream is taken by the steps of its accept call in a row, with the same answer. -/
theorem takeStream_eq_steps {k : Nat} (h : Mirrors s r) (hvisit : r.visits[k]? = some {})
    (hfresh : s.fresh.closed = false) :
    let taken := r.run (List.replicate 5 (.accept k))
    Mirrors (s.after (takeStream k)) taken ∧
      taken.visits[k]? = some (match ((takeStream k).run s).1 with
        | .ok _ => { phase := .served true .running }
        | .error why => { phase := .refused why }) := by
  have hk : k < r.visits.length := (List.getElem?_eq_some_iff.1 hvisit).1
  have hrun : r.run (List.replicate 5 (.accept k)) =
      { r with
        admission := (accepting k r.stopped r.admission 5).2
        visits := r.visits.set k (accepting k r.stopped r.admission 5).1 } :=
    Reception.run_replicate (f := fun stopped v a => v.accept k stopped a) (fun _ => rfl) hvisit 5
  rw [hrun, after, h.stopped_eq, h.admission_eq]
  by_cases hrefused : s.strategy.isStopped ∨ s.admission.reserve? = none
  -- For either reason the stream is dropped, and nothing else has changed.
  · have hclose : Aside s (s.after (updateLine k Line.closeNear)) := aside_updateLine ..
    have hclosed (connection : Connection α)
        (hc : (s.after (updateLine k Line.closeNear)).connection? k = some connection) :
        false = connection.closed :=
      h.closed k connection {} (hclose.connection_eq k ▸ hc) hvisit
    obtain ⟨why, htake, hsteps⟩ : ∃ why,
        (takeStream k).run s = (.error why, s.after (updateLine k Line.closeNear)) ∧
        accepting k s.strategy.isStopped s.admission 5 = ({ phase := .refused why }, s.admission) := by
      cases hstopped : s.strategy.isStopped with
      | true => exact ⟨_, takeStream_stopped k hstopped, accepting_stopped⟩
      | false =>
        have hfull := hrefused.resolve_left (by simp [hstopped])
        exact ⟨_, takeStream_full k hstopped hfull, accepting_full hfull⟩
    rw [htake, hsteps]
    refine ⟨h.visit ?_ h.stopped_eq.symm rfl ?_ ?_ hclosed, List.getElem?_set_self hk⟩
    · exact hclose.admission_eq.symm
    · exact hclose.isStopped_eq
    · exact fun j _ => hclose.connection_eq j
  · rw [not_or, Bool.not_eq_true, ← ne_eq, Option.ne_none_iff_exists'] at hrefused
    obtain ⟨hstopped, a, hreserve⟩ := hrefused
    rw [hstopped, takeStream_entered k hstopped hreserve, accepting_entered hreserve]
    have haside := aside_launch k (s.entered k (a.enter k))
    have hr : false = r.stopped := hstopped.symm.trans h.stopped_eq.symm
    refine ⟨h.visit haside.admission_eq.symm hr rfl haside.isStopped_eq
      (fun j hj => ?_) (fun connection hc => ?_), List.getElem?_set_self hk⟩
    · rw [haside.connection_eq, connection?_entered, if_neg (Ne.symm hj)]
    · rw [haside.connection_eq, connection?_entered, if_pos rfl] at hc
      obtain ⟨-, -, rfl⟩ := Option.map_eq_some_iff.1 hc
      exact hfresh.symm

theorem aside_updateSite (k : Nat) (s : Session α) {f : Site α → Site α}
    (hf : ∀ site, (f site).connection = site.connection) : Aside s (s.after (updateSite k f)) := by
  refine ⟨rfl, rfl, rfl, fun j => (connection?_modify s k j f).trans ?_⟩
  split
  · rw [connection?, Option.bind_map]
    exact congrArg (s.site? j).bind (funext hf)
  · rfl

/-- A connection leaves by the last steps of its task in a row. -/
theorem retire_eq_steps {k : Nat} {returned closed : Bool} (h : Mirrors s r)
    (hvisit : r.visits[k]? = some { phase := .served returned .closing, closed })
    (hadmitted : (s.site? k).any (·.admitted)) :
    Mirrors (s.after (retire k)) (r.run (List.replicate 3 (.serve k))) := by
  have hrun : r.run (List.replicate 3 (.serve k)) =
      { r with
        admission := (r.admission.leave k).release
        visits := r.visits.set k { phase := .served returned .gone, closed := true } } :=
    Reception.run_replicate (f := fun _ v a => v.serve k a) (fun _ => rfl) hvisit 3
  have hcloses := closes_close k s
  let left := s.after (perform k Endpoint.close)
  let freed : Session α := { left with admission := (left.admission.leave k).release }
  have haside : Aside freed (s.after (retire k)) := by
    have hretire : s.after (retire k) =
        (freed.after (updateSite k fun site => { site with admitted := false })).after
          (updateLine k Line.closeNear) := by
      simp only [retire, after, StateT.run_bind, StateT.run_get, pure_bind, hadmitted, if_true]
      rfl
    rw [hretire]
    have hsite := aside_updateSite k freed (f := fun site => { site with admitted := false })
      fun _ => rfl
    exact hsite.trans (aside_updateLine ..)
  rw [hrun]
  refine h.visit ?_ rfl rfl ?_ ?_ ?_
  · rw [haside.admission_eq, h.admission_eq, ← hcloses.admission_eq]
  · exact haside.isStopped_eq.trans hcloses.isStopped_eq
  · exact fun j hj => (haside.connection_eq j).trans (hcloses.connection_eq j hj)
  · intro connection hc
    exact (hcloses.closed connection ((haside.connection_eq k).symm.trans hc)).symm

theorem Mirrors.close (h : Mirrors s r) (k : Nat)
    (hshared : ∀ visit, r.visits[k]? = some visit → visit.shared) :
    Mirrors (s.after (perform k Endpoint.close)) (r.closeVisit k) := by
  have hcloses := closes_close k s
  cases hvisit : r.visits[k]? with
  | none =>
    have hnone : r.closeVisit k = r := by rw [Reception.closeVisit, Reception.atVisit, hvisit]
    rw [hnone]
    refine ⟨h.admission_eq.trans hcloses.admission_eq.symm,
      h.stopped_eq.trans hcloses.isStopped_eq.symm, fun j connection visit hc hv => ?_⟩
    have hj : j ≠ k := by
      rintro rfl
      cases hvisit.symm.trans hv
    exact h.closed j connection visit (hcloses.connection_eq j hj ▸ hc) hv
  | some visit =>
    rw [Reception.closeVisit, Reception.atVisit_of hvisit]
    refine h.visit (h.admission_eq.trans hcloses.admission_eq.symm) rfl rfl hcloses.isStopped_eq
      hcloses.connection_eq fun connection hc => ?_
    rw [hcloses.closed connection hc, Visit.close, hshared visit hvisit]
    exact Bool.or_true _

theorem Mirrors.enterDrain (h : Mirrors s r) (j : Nat) (phase : DrainPhase) :
    Mirrors s (r.enterDrain j phase) := ⟨h.admission_eq, h.stopped_eq, h.closed⟩

theorem closeAll_eq_steps (h : Mirrors s r) {j : Nat} {rest : List Nat}
    (hdrain : r.drains[j]? = some (.closing rest))
    (hshared : ∀ k ∈ rest, ∀ visit, r.visits[k]? = some visit → visit.shared) :
    let closed := r.run (List.replicate rest.length (.drain j))
    Mirrors (s.after (rest.forM fun k => perform k Endpoint.close)) closed ∧
      (s.after (rest.forM fun k => perform k Endpoint.close)).drains = s.drains ∧
      closed.drains[j]? = some (.closing []) := by
  induction rest generalizing s r with
  | nil => exact ⟨h, rfl, hdrain⟩
  | cons k rest ih =>
    obtain ⟨hk, hrest⟩ := List.forall_mem_cons.1 hshared
    have hj : j < r.drains.length := (List.getElem?_eq_some_iff.1 hdrain).1
    have hstep : r.step (.drain j) = (r.closeVisit k).enterDrain j (.closing rest) := by
      simp only [Reception.step, Reception.stepDrain, hdrain]
    rw [List.length_cons, List.replicate_succ, Reception.run, List.foldl_cons, ← Reception.run, hstep]
    have hclosing : ((r.closeVisit k).enterDrain j (.closing rest)).drains[j]? =
        some (.closing rest) := by
      rw [Reception.enterDrain, Reception.closeVisit, Reception.drains_atVisit]
      exact List.getElem?_set_self hj
    have hothers : ∀ i ∈ rest, ∀ visit,
        ((r.closeVisit k).enterDrain j (.closing rest)).visits[i]? = some visit → visit.shared := by
      intro i hi visit hvisit
      rw [Reception.enterDrain, Reception.closeVisit, Reception.visits_atVisit] at hvisit
      split at hvisit
      · obtain ⟨before, hbefore, rfl⟩ := Option.map_eq_some_iff.1 hvisit
        exact hrest i hi before hbefore
      · exact hrest i hi visit hvisit
    obtain ⟨hmirrors, hdrains, hlast⟩ := ih ((h.close k hk).enterDrain j _) hclosing hothers
    exact ⟨hmirrors, hdrains.trans (closes_close k s).drains_eq, hlast⟩

theorem isStopped_stop (strategy : Strategy α) : strategy.stop.2.isStopped := by
  cases strategy with
  | inline stopped => rfl
  | pooled lanes =>
    change lanes.close.2.shutdown
    unfold Lanes.close
    split
    · assumption
    · rfl

theorem stopStrategy_eq_step (h : Mirrors s r) {j : Nat} (hdrain : r.drains[j]? = some .stopping) :
    Mirrors (s.after stopStrategy) (r.step (.drain j)) := by
  simp only [Reception.step, Reception.stepDrain, hdrain]
  exact ⟨h.admission_eq, (isStopped_stop s.strategy).symm, h.closed⟩

theorem aside_finishDrain (serves : Bool) (s : Session α) :
    Aside (s.after stopStrategy) (s.after (finishDrain serves)) := by
  rw [finishDrain, after_bind]
  cases serves with
  | false => exact aside_record ..
  | true =>
    simp only [if_true]
    rw [after_get_bind, after_bind]
    generalize ((s.after stopStrategy).serving.map (·.offered)).getD [] = offered
    have hoffered := Aside.forM (fun k s => aside_updateLine k Line.closeNear s) offered
      (s.after stopStrategy)
    exact hoffered.trans ⟨rfl, rfl, rfl, fun _ => rfl⟩

def goOn (s : Session α) (index : Nat) (drain : Drain) : Session α :=
  { s with drains := s.drains.set! index drain }

section
variable {index : Nat} {drain : Drain} {next limit : Millis}

theorem look_done (hdrain : s.drains[index]? = some drain) (hdone : drain.done) :
    s.after (look index) = s := by
  rw [look, after_get_bind]
  simp only [hdrain]
  rw [if_pos hdone]
  rfl

theorem look_left (hdrain : s.drains[index]? = some drain) (hdone : drain.done = false)
    (hwait : drain.next.getD (s.trace.now, s.trace.now + s.shutdownLimit) = (next, limit))
    (hleft : next ≤ s.trace.now ∧ s.admission.isEmpty) :
    s.after (look index) =
      (s.goOn index { drain with done := true }).after (finishDrain drain.serves) := by
  rw [look, after_get_bind]
  simp only [hdrain, hwait]
  rw [if_neg (Bool.eq_false_iff.1 hdone), if_pos hleft]
  rfl

theorem look_overdue (hdrain : s.drains[index]? = some drain) (hdone : drain.done = false)
    (hwait : drain.next.getD (s.trace.now, s.trace.now + s.shutdownLimit) = (next, limit))
    (hleft : ¬(next ≤ s.trace.now ∧ s.admission.isEmpty)) (hlimit : limit ≤ s.trace.now) :
    s.after (look index) =
      ((s.goOn index { drain with done := true }).after closeAll).after (finishDrain drain.serves) := by
  rw [look, after_get_bind]
  simp only [hdrain, hwait]
  rw [if_neg (Bool.eq_false_iff.1 hdone), if_neg hleft, if_pos hlimit]
  rfl

theorem look_waiting (hdrain : s.drains[index]? = some drain) (hdone : drain.done = false)
    (hwait : drain.next.getD (s.trace.now, s.trace.now + s.shutdownLimit) = (next, limit))
    (hleft : ¬(next ≤ s.trace.now ∧ s.admission.isEmpty)) (hlimit : ¬limit ≤ s.trace.now) :
    ∃ drain', drain'.done = false ∧ Aside (s.goOn index drain') (s.after (look index)) := by
  rw [look, after_get_bind]
  simp only [hdrain, hwait]
  rw [if_neg (Bool.eq_false_iff.1 hdone), if_neg hleft, if_neg hlimit]
  split
  · refine ⟨{ drain with next := some (s.trace.now + drainPollInterval, limit) }, hdone, ?_⟩
    cases drain.next.isNone <;> exact ⟨rfl, rfl, rfl, fun _ => rfl⟩
  · refine ⟨drain, hdone, rfl, rfl, ?_, fun _ => rfl⟩
    refine Array.ext_getElem? fun i => Eq.symm ?_
    change (s.drains.set! index drain)[i]? = s.drains[i]?
    rw [Array.set!_eq_setIfInBounds, Array.getElem?_setIfInBounds]
    split
    · next hi =>
      subst hi
      rw [hdrain, if_pos (Array.getElem?_eq_some_iff.1 hdrain).1]
    · rfl

theorem drains_goOn (hdrain : s.drains[index]? = some drain) (drain' : Drain) :
    (s.goOn index drain').drains[index]? = some drain' := by
  obtain ⟨hindex, -⟩ := Array.getElem?_eq_some_iff.1 hdrain
  simp [goOn, hindex]

theorem Mirrors.goOn (h : Mirrors s r) (index : Nat) (drain : Drain) :
    Mirrors (s.goOn index drain) r := ⟨h.admission_eq, h.stopped_eq, h.closed⟩

theorem finishDrain_eq_step (h : Mirrors s r) (hstopping : r.drains[j]? = some .stopping)
    (serves : Bool) : Mirrors (s.after (finishDrain serves)) (r.step (.drain j)) ∧
      (s.after (finishDrain serves)).drains = s.drains ∧
      (r.step (.drain j)).drains[j]? = some .returned := by
  have haside := aside_finishDrain serves s
  refine ⟨(stopStrategy_eq_step h hstopping).aside haside, haside.drains_eq, ?_⟩
  obtain ⟨hj, -⟩ := List.getElem?_eq_some_iff.1 hstopping
  simp only [Reception.step, Reception.stepDrain, hstopping]
  exact List.getElem?_set_self hj

theorem left_eq_steps (h : Mirrors s r) (hpolling : r.drains[j]? = some .polling)
    (hempty : s.admission.isEmpty) (serves : Bool) :
    let ended := r.run [.drain j, .drain j]
    Mirrors (s.after (finishDrain serves)) ended ∧
      (s.after (finishDrain serves)).drains = s.drains ∧ ended.drains[j]? = some .returned := by
  have hstep : r.step (.drain j) = r.enterDrain j .stopping := by
    simp only [Reception.step, Reception.stepDrain, hpolling]
    rw [if_pos (h.admission_eq ▸ hempty)]
  have hrun : r.run [.drain j, .drain j] = (r.enterDrain j .stopping).step (.drain j) :=
    congrArg (Reception.step · (.drain j)) hstep
  rw [hrun]
  exact finishDrain_eq_step (h.enterDrain j .stopping) (Reception.drains_enterDrain hpolling) serves

theorem overdue_eq_steps (h : Mirrors s r) (hpolling : r.drains[j]? = some .polling)
    (hshared : ∀ k ∈ r.admission.active, ∀ visit, r.visits[k]? = some visit → visit.shared)
    (serves : Bool) :
    let ended := r.run (.giveUp j :: .drain j ::
      (List.replicate r.admission.active.length (.drain j) ++ [.drain j, .drain j]))
    Mirrors ((s.after closeAll).after (finishDrain serves)) ended ∧
      ((s.after closeAll).after (finishDrain serves)).drains = s.drains ∧
      ended.drains[j]? = some .returned := by
  let listing := r.enterDrain j .listing
  have hlisting : listing.drains[j]? = some .listing := Reception.drains_enterDrain hpolling
  let listed := listing.enterDrain j (.closing r.admission.active)
  have hlisted : listed.drains[j]? = some (.closing r.admission.active) :=
    Reception.drains_enterDrain hlisting
  obtain ⟨hclosed, hkept, hclosing⟩ :=
    closeAll_eq_steps ((h.enterDrain j .listing).enterDrain j _) hlisted hshared
  set closed := listed.run (List.replicate r.admission.active.length (.drain j))
  have hrun : r.run (.giveUp j :: .drain j ::
      (List.replicate r.admission.active.length (.drain j) ++ [.drain j, .drain j])) =
      (closed.enterDrain j .stopping).step (.drain j) := by
    have hgive : r.step (.giveUp j) = listing := by
      simp only [Reception.step, Reception.stepGiveUp, hpolling, listing]
    have hlist : listing.step (.drain j) = listed := by
      simp only [Reception.step, Reception.stepDrain, hlisting]
      rfl
    have hstop : closed.step (.drain j) = closed.enterDrain j .stopping := by
      simp only [Reception.step, Reception.stepDrain, hclosing]
    rw [Reception.run, List.foldl_cons, List.foldl_cons, List.foldl_append, hgive, hlist, ← hstop]
    rfl
  obtain ⟨hmirrors, hdrains, hreturned⟩ := finishDrain_eq_step (hclosed.enterDrain j .stopping)
    (Reception.drains_enterDrain hclosing) serves
  have hall : s.after closeAll =
      s.after (r.admission.active.forM fun k => perform k Endpoint.close) :=
    congrArg (fun a : Admission => s.after (a.active.forM fun k => perform k Endpoint.close))
      h.admission_eq.symm
  rw [hrun, hall]
  exact ⟨hmirrors, hdrains.trans hkept, hreturned⟩

/-- A look is steps of its shutdown call in a row: to wait on, or to come to the end. -/
theorem look_eq_steps (h : Mirrors s r) (hdrain : s.drains[index]? = some drain)
    (hphase : r.drains[j]? = some drain.phase)
    (hshared : ∀ k ∈ r.admission.active, ∀ visit, r.visits[k]? = some visit → visit.shared) :
    ∃ actions drain', (∀ action ∈ actions, action = .drain j ∨ action = .giveUp j) ∧
      Mirrors (s.after (look index)) (r.run actions) ∧
      (s.after (look index)).drains[index]? = some drain' ∧
      (r.run actions).drains[j]? = some drain'.phase := by
  cases hdone : drain.done with
  | true =>
    refine ⟨[], drain, by simp, ?_⟩
    rw [look_done hdrain hdone]
    exact ⟨h, hdrain, hphase⟩
  | false =>
    have hpolling : r.drains[j]? = some .polling := by
      rw [hphase, Drain.phase, hdone]
      rfl
    obtain ⟨next, limit, hwait⟩ : ∃ next limit,
        drain.next.getD (s.trace.now, s.trace.now + s.shutdownLimit) = (next, limit) := ⟨_, _, rfl⟩
    let ended : Drain := { drain with done := true }
    have hended := h.goOn index ended
    by_cases hleft : next ≤ s.trace.now ∧ s.admission.isEmpty
    · obtain ⟨hmirrors, hdrains, hreturned⟩ := left_eq_steps hended hpolling hleft.2 drain.serves
      rw [look_left hdrain hdone hwait hleft]
      exact ⟨_, ended, by simp, hmirrors, hdrains ▸ drains_goOn hdrain ended, hreturned⟩
    · by_cases hlimit : limit ≤ s.trace.now
      · obtain ⟨hmirrors, hdrains, hreturned⟩ :=
          overdue_eq_steps hended hpolling hshared drain.serves
        rw [look_overdue hdrain hdone hwait hleft hlimit]
        refine ⟨_, ended, ?_, hmirrors, hdrains ▸ drains_goOn hdrain ended, hreturned⟩
        intro action haction
        simp only [List.mem_cons, List.mem_append, List.mem_replicate, List.not_mem_nil] at haction
        tauto
      · obtain ⟨drain', hdone', haside⟩ := look_waiting hdrain hdone hwait hleft hlimit
        refine ⟨[], drain', by simp, (h.goOn index drain').aside haside, ?_, ?_⟩
        · exact haside.drains_eq ▸ drains_goOn hdrain drain'
        · change r.drains[j]? = _
          rw [hpolling, Drain.phase, hdone']
          rfl

end

end Session
end GraphRpc
