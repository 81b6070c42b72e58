import Mathlib
import GraphRpc.Proofs.Calls.Traffic

/-!
# What traffic leaves alone

Operations on a connection may close it. Beyond that they have no part in its lifetime: they tell no
listener, neither raise nor lower the number of active connections, attach no transport and take none
away.
-/

namespace GraphRpc

variable {α : Type}

-- ---------------------------------------------------------------------------
-- What listeners hear
-- ---------------------------------------------------------------------------

inductive Listener where
  | connected
  | error
  | disconnected
deriving DecidableEq, Repr

def Effect.listener? : Effect α → Option Listener
  | connected => some .connected
  | faulted _ => some .error
  | disconnected => some .disconnected
  | _ => none

def Trace.heard (t : Trace α) : List Listener := t.effects.filterMap Effect.listener?

theorem Trace.heard_emit (t : Trace α) (effect : Effect α) :
    (t.emit effect).heard = t.heard ++ effect.listener?.toList := by
  rw [heard, emit, List.filterMap_append]
  cases h : effect.listener? <;> simp [heard, h]

namespace Endpoint

variable {e e' e'' : Endpoint α}

/-- From `e` to `e'` nothing happened to the lifetime of the connection, unless it was closed. -/
structure SameLife (e e' : Endpoint α) : Prop where
  closed : e.connection.closed → e'.connection.closed
  heard : e'.trace.heard = e.trace.heard
  total : e'.trace.counters.connectionsTotal = e.trace.counters.connectionsTotal
  active : e'.trace.counters.connectionsActive = e.trace.counters.connectionsActive

theorem SameLife.refl (e : Endpoint α) : SameLife e e := ⟨id, rfl, rfl, rfl⟩

theorem SameLife.trans (h : SameLife e e') (h' : SameLife e' e'') : SameLife e e'' where
  closed := h'.closed ∘ h.closed
  heard := h'.heard.trans h.heard
  total := h'.total.trans h.total
  active := h'.active.trans h.active

theorem SameLife.emit {effect : Effect α} (hunheard : effect.listener? = none) (e : Endpoint α) :
    SameLife e { e with trace := e.trace.emit effect } := by
  refine ⟨id, ?_, rfl, rfl⟩
  rw [Trace.heard_emit, hunheard]
  exact List.append_nil _

theorem sameLife_finish (callback : Callback) (outcome : Except Failure (Payload α)) (e : Endpoint α) :
    SameLife e { e with trace := e.trace.finish callback outcome } := by
  have hcounted : SameLife e { e with trace := e.trace.count (Trace.countOutcome outcome) } := by
    refine ⟨id, rfl, ?_, ?_⟩ <;>
    · simp only [Trace.count, Trace.countOutcome]
      split <;> rfl
  exact hcounted.trans (.emit rfl _)

theorem sameLife_withdraw (id : UInt64) (e : Endpoint α) : SameLife e ((withdraw id).run e).2 := by
  rw [withdraw_run]
  split
  · exact ⟨fun h => h, rfl, rfl, rfl⟩
  · exact .refl e

theorem sameLife_push {frame : OutboundFrame} {d : Deciding α} (h : e.push frame = .ok (d, e')) :
    SameLife e e' := by
  unfold push at h
  split at h
  · cases h
  · next evicted outbound hpush =>
    cases h
    have hframes : SameLife e { e with connection := { e.connection with outbound } } :=
      ⟨id, rfl, rfl, rfl⟩
    exact hframes.trans (.emit rfl _)

theorem sameLife_arm (id : UInt64) (after : Millis) (e : Endpoint α) :
    SameLife e ((arm id after).run e).2 := by
  simp only [arm, StateT.run, modify, modifyGet, MonadStateOf.modifyGet, StateT.modifyGet]
  generalize e.connection.calls.arm id (e.trace.now + after) = armed
  obtain ⟨timer, calls⟩ := armed
  have hcalls : SameLife e { e with connection := { e.connection with calls } } :=
    ⟨fun h => h, rfl, rfl, rfl⟩
  cases timer with
  | none => exact hcalls
  | some t => exact hcalls.trans (.emit rfl _)

end Endpoint

open Endpoint

-- ---------------------------------------------------------------------------
-- Steps of operations
-- ---------------------------------------------------------------------------

theorem Deciding.sameLife_step (d : Deciding α) (e : Endpoint α) : SameLife e (d.step e).2 := by
  cases d with
  | taking id outcome =>
    have hwithdraw := sameLife_withdraw id e
    simp only [step]
    split
    · next hrun => rwa [hrun] at hwithdraw
    · next hrun => rwa [hrun] at hwithdraw
  | telling call outcome => exact sameLife_finish ..
  | done => exact .refl e

theorem Invocation.sameLife_step (call : Invocation α) (e : Endpoint α) : SameLife e (call.step e).2 := by
  obtain ⟨method, payload, timeout, callback, phase⟩ := call
  cases phase with
  | opening | encoding id =>
    simp only [step]
    split <;> exact .refl e
  | rechecking id | returned id result => exact .refl e
  | numbering | entering id bytes => exact ⟨fun h => h, rfl, rfl, rfl⟩
  | pushing id bytes =>
    simp only [step]
    split
    · next hpush => exact sameLife_push hpush
    · exact .refl e
  | refused id failure => exact sameLife_withdraw id e
  | evicting id d =>
    by_cases hd : d = .done
    · subst hd
      exact .refl e
    · rw [step_evicting rfl hd]
      exact d.sameLife_step e
  | withdrawing id =>
    have hwithdraw := sameLife_withdraw id e
    simp only [step]
    split
    · next hrun => rwa [hrun] at hwithdraw
    · next hrun => rwa [hrun] at hwithdraw
  | arming id =>
    have hcount (e : Endpoint α) : SameLife e ((Endpoint.count Counters.callIssued).run e).2 :=
      ⟨fun h => h, rfl, rfl, rfl⟩
    simp only [step]
    split
    · exact (sameLife_arm ..).trans (hcount _)
    · exact hcount e

theorem ClosingPhase.sameLife_step (phase : ClosingPhase α) (failure : Failure) (seen : List UInt64)
    (e : Endpoint α) : SameLife e (phase.step failure seen e).2 := by
  cases phase with
  | swapping =>
    simp only [step]
    split
    · exact .refl e
    · exact ⟨fun _ => rfl, rfl, rfl, rfl⟩
  | signalling => exact .emit rfl e
  | clearing => exact ⟨id, rfl, rfl, rfl⟩
  | listing | returned => exact .refl e
  | iterating present =>
    simp only [step]
    split <;> exact .refl e
  | failing ids d =>
    by_cases hd : d = .done
    · subst hd
      cases ids <;> exact .refl e
    · rw [step_failing hd]
      exact d.sameLife_step e

theorem SendPhase.sameLife_step (phase : SendPhase α) (e : Endpoint α) : SameLife e (phase.step e).2 := by
  cases phase with
  | pushing bytes =>
    simp only [step]
    split
    · next hpush => exact sameLife_push hpush
    · exact .refl e
  | evicting d => exact d.sameLife_step e

theorem Party.sameLife_step (p : Party α) (seen : List UInt64) (e : Endpoint α) :
    SameLife e (p.step seen e).2 := by
  cases p with
  | invoke call => exact call.sameLife_step e
  | answer d => exact d.sameLife_step e
  | close failure phase => exact phase.sameLife_step failure seen e
  | send phase => exact phase.sameLife_step e

/-- Whatever others do at a connection, they take no part in its lifetime but to close it. -/
theorem Traffic.sameLife_act (s : Traffic α) (a : TrafficAction α) : SameLife s.endpoint (s.act a).endpoint := by
  cases a with
  | invoke method payload timeout awaited => exact ⟨id, rfl, rfl, rfl⟩
  | answer message | close failure | send bytes => exact .refl _
  | step i seen =>
    simp only [act]
    split
    · exact .refl _
    · next p _ => exact p.sameLife_step seen s.endpoint
  | fire timer =>
    simp only [act]
    split
    · exact ⟨id, rfl, rfl, rfl⟩
    · exact .refl _
  | deliver i =>
    simp only [act]
    split
    · exact .refl _
    · exact sameLife_finish ..
  | pop =>
    simp only [act]
    split
    · exact .refl _
    · exact ⟨id, rfl, rfl, rfl⟩
  | pass ms => exact ⟨id, rfl, rfl, rfl⟩

end GraphRpc
