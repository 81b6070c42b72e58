import Mathlib
import GraphRpc.Proofs.Calls.Moves
import GraphRpc.Proofs.Replies
import GraphRpc.Session.Lines

/-!
# Harmless operations

What is done to a connection without closing it or reporting a failure on it. Handing over a message
is harmless if the handlers are.
-/

namespace GraphRpc

variable {α : Type}

-- ---------------------------------------------------------------------------
-- What was reported
-- ---------------------------------------------------------------------------

def Effect.fault? : Effect α → Option Failure
  | faulted why => some why
  | _ => none

def Trace.faults (t : Trace α) : List Failure := t.effects.filterMap Effect.fault?

theorem Trace.faults_emit (t : Trace α) (effect : Effect α) :
    (t.emit effect).faults = t.faults ++ effect.fault?.toList := by
  simp only [faults, emit, List.filterMap_append, List.filterMap_cons, List.filterMap_nil]
  cases effect.fault? <;> rfl

theorem Trace.faults_finish (t : Trace α) (callback : Callback)
    (outcome : Except Failure (Payload α)) : (t.finish callback outcome).faults = t.faults := by
  rw [finish, faults_emit]
  exact List.append_nil _

-- ---------------------------------------------------------------------------
-- Harmless steps
-- ---------------------------------------------------------------------------

/-- From `e` to `e'` nobody closed the connection or reported a failure on it. -/
structure Harmless (e e' : Endpoint α) : Prop where
  codec_eq : e'.connection.codec = e.connection.codec
  closed_eq : e'.connection.closed = e.connection.closed
  faults_eq : e'.trace.faults = e.trace.faults
  distinct : e.connection.calls.Distinct → e'.connection.calls.Distinct

namespace Harmless

variable {e e' e'' : Endpoint α}

theorem refl (e : Endpoint α) : Harmless e e := ⟨rfl, rfl, rfl, id⟩

theorem trans (h : Harmless e e') (h' : Harmless e' e'') : Harmless e e'' where
  codec_eq := h'.codec_eq.trans h.codec_eq
  closed_eq := h'.closed_eq.trans h.closed_eq
  faults_eq := h'.faults_eq.trans h.faults_eq
  distinct hd := h'.distinct (h.distinct hd)

theorem foldl {β : Type} {f : Endpoint α → β → Endpoint α} {l : List β}
    (h : ∀ b ∈ l, ∀ e, Harmless e (f e b)) (e : Endpoint α) : Harmless e (l.foldl f e) := by
  induction l generalizing e with
  | nil => exact .refl e
  | cons b l ih =>
    exact (h b (List.mem_cons_self ..) e).trans (ih (fun c hc => h c (List.mem_cons_of_mem _ hc)) _)

theorem aside (e : Endpoint α) {trace : Trace α} (hfaults : trace.faults = e.trace.faults) :
    Harmless e { e with trace } :=
  ⟨rfl, rfl, hfaults, id⟩

theorem emit (e : Endpoint α) {effect : Effect α} (heffect : effect.fault? = none) :
    Harmless e { e with trace := e.trace.emit effect } := by
  refine aside e ?_
  rw [Trace.faults_emit, heffect]
  exact List.append_nil _

end Harmless

theorem Deciding.harmless_step (d : Deciding α) (e : Endpoint α) : Harmless e (d.step e).2 := by
  cases d with
  | taking id outcome =>
    obtain ⟨call, calls, htaken, hrun⟩ | ⟨-, hrun⟩ := withdraw_cases id e
    · simp only [step, hrun]
      exact ⟨rfl, rfl, rfl, htaken.distinct⟩
    · simp only [step, hrun]
      exact .refl e
  | telling call outcome => exact .aside e (Trace.faults_finish ..)
  | done => exact .refl e

theorem Deciding.harmless_finish (d : Deciding α) (e : Endpoint α) : Harmless e (d.finish e) :=
  (d.harmless_step e).trans (harmless_step ..)

namespace Endpoint

variable {e : Endpoint α}

theorem harmless_push {e' : Endpoint α} {frame : OutboundFrame} {d : Deciding α}
    (h : e.push frame = .ok (d, e')) : Harmless e e' := by
  unfold push at h
  split at h
  · cases h
  · cases h
    exact ⟨rfl, rfl, (Trace.faults_emit ..).trans (List.append_nil _), id⟩

theorem harmless_pushFrame (callId : Option UInt64) (bytes : ByteArray) (e : Endpoint α) :
    Harmless e ((pushFrame callId bytes).exec e).2 := by
  rw [exec_pushFrame]
  split
  · next hpush => exact (harmless_push hpush).trans (Deciding.harmless_finish ..)
  · exact .refl e

theorem harmless_sending (m : Message α) (e : Endpoint α) : Harmless e (sending m e) := by
  unfold sending
  split
  · exact .refl e
  · split
    · exact harmless_pushFrame ..
    · exact .refl e

theorem harmless_tally {β : Type} (outcome : Except Failure β) (e : Endpoint α) :
    Harmless e (e.tally outcome) := by
  cases outcome with
  | ok b => exact .refl e
  | error failure => exact .aside e rfl

theorem harmless_completeCall (m : Message α) (e : Endpoint α) :
    Harmless e ((completeCall m).run e).2 := by
  have hresolve (outcome : Except Failure (Payload α)) :
      Harmless e ((resolve m.callId outcome).run e).2 := by
    rw [resolve_eq_finish]
    exact Deciding.harmless_finish ..
  unfold completeCall
  cases m.kind <;> exact hresolve _

end Endpoint

-- ---------------------------------------------------------------------------
-- Harmless handlers
-- ---------------------------------------------------------------------------

namespace Routes

/-- No handler closes the connection or reports a failure on it. -/
def Harmless (routes : Routes α) : Prop :=
  ∀ x ∈ routes.handlers, ∀ (m : Message α) (e : Endpoint α), GraphRpc.Harmless e ((x.2 m).exec e).2

variable {routes : Routes α}

theorem harmless_runAll {handlers : List (Handler α)} {m : Message α}
    (h : ∀ handler ∈ handlers, ∀ e, GraphRpc.Harmless e ((handler m).exec e).2)
    (answer : Option (Payload α)) (e : Endpoint α) :
    GraphRpc.Harmless e ((runAll m handlers answer).exec e).2 := by
  induction handlers generalizing answer e with
  | nil => exact .refl e
  | cons handler rest ih =>
    obtain ⟨hhandler, hrest⟩ := List.forall_mem_cons.1 h
    have hfirst := hhandler e
    rw [runAll, LinkM.exec_bind]
    generalize (handler m).exec e = r at hfirst ⊢
    obtain ⟨failure | out, e'⟩ := r
    · exact hfirst
    · exact hfirst.trans (ih hrest _ e')

theorem Harmless.invokeHandlers (h : routes.Harmless) (m : Message α) (e : Endpoint α) :
    GraphRpc.Harmless e ((routes.invokeHandlers m).exec e).2 := by
  have hhandlers : ∀ handler ∈ routes.handlersFor m.method, ∀ e,
      GraphRpc.Harmless e ((handler m).exec e).2 := by
    intro handler hmem
    obtain ⟨x, hx, rfl⟩ := List.mem_map.1 hmem
    exact h x (List.mem_filter.1 hx).1 m
  unfold Routes.invokeHandlers
  cases hfor : routes.handlersFor m.method with
  | nil => exact .refl e
  | cons handler rest => exact harmless_runAll (hfor ▸ hhandlers) none e

theorem Harmless.serveRequest (h : routes.Harmless) (m : Message α) (e : Endpoint α) :
    GraphRpc.Harmless e ((routes.serveRequest m).run e).2 := by
  have hhandlers := h.invokeHandlers m e
  rw [serveRequest_run]
  generalize (routes.invokeHandlers m).exec e = r at hhandlers ⊢
  exact hhandlers.trans ((Endpoint.harmless_tally ..).trans (Endpoint.harmless_sending ..))

theorem Harmless.notification (h : routes.Harmless) (m : Message α) (e : Endpoint α) :
    GraphRpc.Harmless e ((do
      match ← (routes.invokeHandlers m).run with
      | .ok _ => pure ()
      | .error _ => Endpoint.count Counters.dispatchFailed : StateM (Endpoint α) Unit).run e).2 := by
  have hhandlers := h.invokeHandlers m e
  have hrun : (routes.invokeHandlers m).run.run e = (routes.invokeHandlers m).exec e := rfl
  simp only [StateT.run_bind, hrun]
  generalize (routes.invokeHandlers m).exec e = r at hhandlers ⊢
  obtain ⟨failure | answer, e'⟩ := r
  · exact hhandlers.trans (.aside e' rfl)
  · exact hhandlers

theorem Harmless.dispatch (h : routes.Harmless) (m : Message α) (e : Endpoint α) :
    GraphRpc.Harmless e ((routes.dispatch m).run e).2 := by
  have hcount : GraphRpc.Harmless e ((Endpoint.count Counters.dispatched).run e).2 := .aside e rfl
  refine hcount.trans ?_
  simp only [Routes.dispatch, StateT.run_bind]
  cases m.kind with
  | response | error => exact Endpoint.harmless_completeCall ..
  | request => exact h.serveRequest ..
  | oneWay => exact h.notification ..

end Routes

theorem Session.harmless_deliver {s : Session α} (h : s.routes.Harmless) (m : Message α)
    (e : Endpoint α) : Harmless e ((s.deliver m).run e).2 := by
  unfold deliver
  cases s.strategy with
  | inline stopped =>
    cases stopped with
    | true => exact .aside e rfl
    | false => exact h.dispatch m e
  | pooled lanes => exact .emit e rfl

end GraphRpc
