import Mathlib
import GraphRpc.Proofs.Calls.Whole
import GraphRpc.Proofs.Outbound.History
import GraphRpc.Proofs.Peers.Origins

/-!
# Frames that make room

A frame that makes room for another one may be the request of a call, which then has no answer to
hope for. The call is told that it was cancelled unless it was decided before, and leaves the table
with its timer. The other calls are left alone. Main statement: a buffer accounts for every frame it
accepted, keeps its bound, and refuses or evicts as its policy says.
-/

namespace GraphRpc

open Endpoint

variable {α : Type}

-- ---------------------------------------------------------------------------
-- Deciding the call of an evicted frame
-- ---------------------------------------------------------------------------

theorem Calls.take?_eq (calls : Calls) (id : UInt64) : calls.take? id =
    (calls.find? id).map fun call =>
      (call, { calls with
        pending := calls.pending.filter (·.callId != id)
        timers := calls.timers.filter fun t => some t.id != call.timer }) := by
  simp only [take?, claim?, Option.map_map]
  rfl

/-- No call in the table has the id. -/
def Calls.Lacks (calls : Calls) (id : UInt64) : Prop := ∀ call ∈ calls.pending, call.callId ≠ id

theorem Calls.find?_eq_none {calls : Calls} {id : UInt64} :
    calls.find? id = none ↔ calls.Lacks id := by
  simp [find?, Lacks]

theorem Calls.Lacks.filter_eq {calls : Calls} {id : UInt64} (h : calls.Lacks id) :
    calls.pending.filter (·.callId != id) = calls.pending := by
  rw [List.filter_eq_self]
  intro call hcall
  simpa using h call hcall

theorem Deciding.finish_taking (id : UInt64) (outcome : Except Failure (Payload α)) (e : Endpoint α) :
    (taking id outcome).finish e =
      match e.connection.calls.take? id with
      | some (call, calls) =>
        { connection := { e.connection with calls }, trace := e.trace.finish call.callback outcome }
      | none => e := by
  simp only [finish, step, withdraw_run]
  cases e.connection.calls.take? id <;> rfl

/-- The call under `id`, if it is still pending, is told that it was cancelled, and leaves the table
with its timer. No other call changes or is told anything. -/
structure Endpoint.Cancels (id : UInt64) (e e' : Endpoint α) : Prop where
  outcomes : e'.trace.outcomes = e.trace.outcomes ++
    ((e.connection.calls.find? id).map fun call => (call.callback, .error (.call .cancelled))).toList
  pending : e'.connection.calls.pending = e.connection.calls.pending.filter (·.callId != id)
  timers : e'.connection.calls.timers = e.connection.calls.timers.filter fun t =>
    some t.id != (e.connection.calls.find? id).bind (·.timer)

theorem Deciding.cancels (id : UInt64) (e : Endpoint α) :
    e.Cancels id ((taking id (.error (.call .cancelled))).finish e) := by
  rw [finish_taking, Calls.take?_eq]
  cases hfind : e.connection.calls.find? id with
  | none =>
    refine ⟨?_, (Calls.find?_eq_none.1 hfind).filter_eq.symm, ?_⟩
    · simp [hfind]
    · simp only [hfind, Option.bind_none]
      exact (List.filter_eq_self.2 fun _ _ => rfl).symm
  | some call =>
    refine ⟨?_, rfl, ?_⟩
    · simp [hfind, Trace.outcomes_finish]
    · simp [hfind]

/-- The endpoint once a frame was added: it is as it was if the frame was refused, and otherwise at
most the call of the frame that made room is decided. -/
def Endpoint.MakesRoom (e : Endpoint α) (callId : Option UInt64) (bytes : ByteArray) : Prop :=
  match e.connection.outbound.push ⟨callId, bytes⟩ with
  | .error fault => (pushFrame callId bytes).exec e = (.error (.link fault), e)
  | .ok (evicted, outbound) =>
    ∃ e', (pushFrame callId bytes).exec e = (.ok (), e') ∧
      e'.connection = { e.connection with outbound, calls := e'.connection.calls } ∧
      match evicted.bind (·.callId) with
      | some id => e.Cancels id e'
      | none => e'.connection.calls = e.connection.calls ∧ e'.trace.outcomes = e.trace.outcomes

theorem Endpoint.makesRoom (e : Endpoint α) (callId : Option UInt64) (bytes : ByteArray) :
    e.MakesRoom callId bytes := by
  unfold MakesRoom
  rw [exec_pushFrame, push]
  cases e.connection.outbound.push ⟨callId, bytes⟩ with
  | error fault => rfl
  | ok pushed =>
    obtain ⟨evicted, outbound⟩ := pushed
    simp only [Deciding.ofEvicted]
    have hqueued : (e.trace.emit .frameQueued).outcomes = e.trace.outcomes := by
      simp [Trace.outcomes_emit, Effect.outcome?]
    cases evicted.bind (·.callId) with
    | none => exact ⟨_, rfl, rfl, rfl, hqueued⟩
    | some id =>
      refine ⟨_, rfl, ?_, ?_⟩
      · rw [Deciding.finish_taking]
        dsimp only
        cases e.connection.calls.take? id <;> rfl
      · have h := Deciding.cancels id
          ⟨{ e.connection with outbound }, e.trace.emit .frameQueued⟩
        exact ⟨hqueued ▸ h.outcomes, h.pending, h.timers⟩

-- ---------------------------------------------------------------------------
-- The policies
-- ---------------------------------------------------------------------------

open Outbound

structure Outbound.Heeds (o : Outbound) (policy : OverflowPolicy) (capacity : Nat)
    (frame : OutboundFrame) : Prop where
  refuses : policy = .rejectNew → capacity ≤ o.size → o.push frame = .error (.bufferFull capacity)
  evicts : policy = .dropOldest → capacity ≤ o.size → ∃ oldest rest, o.frames = oldest :: rest ∧
    o.push frame = .ok (some oldest, { o with frames := rest ++ [frame] })
  accepts : policy = .unbounded ∨ o.size < capacity →
    o.push frame = .ok (none, { o with frames := o.frames ++ [frame] })

theorem Outbound.History.Bounded.heeds {h : History} {policy : OverflowPolicy} {capacity : Nat}
    (hb : h.Bounded policy capacity) (hcap : 1 ≤ capacity) (frame : OutboundFrame) :
    h.buffer.Heeds policy capacity frame := by
  obtain ⟨rfl, rfl, -⟩ := hb
  refine ⟨fun hpolicy hfull => push_rejectNew hpolicy hfull frame, fun hpolicy hfull => ?_,
    fun hroom => push_of_room hroom frame⟩
  cases hframes : h.buffer.frames with
  | nil =>
    simp only [size, hframes, List.length_nil] at hfull
    omega
  | cons oldest rest => exact ⟨oldest, rest, rfl, push_dropOldest hpolicy hfull hframes frame⟩

/-- After any operations on a buffer, each frame that it accepted is in one place, in the order of
arrival; the buffer keeps its bound and does with one more frame what its policy says, where a frame
that is refused changes nothing. And at whatever endpoint a frame makes room for another, its call is
cancelled if it is still pending, and no other call is touched. -/
theorem frames_accounted_for (policy : OverflowPolicy) (capacity : Nat) (hcap : 1 ≤ capacity)
    (ops : List Op) :
    (∃ left, ((History.start policy capacity).run ops).Accounted left) ∧
    ((History.start policy capacity).run ops).Bounded policy capacity ∧
    (∀ frame, ((History.start policy capacity).run ops).buffer.Heeds policy capacity frame) ∧
    (∀ (h : History) frame fault, h.buffer.push frame = .error fault → h.step (.push frame) = h) ∧
    ∀ (e : Endpoint α) callId bytes, e.MakesRoom callId bytes := by
  obtain ⟨accounted, bounded⟩ := History.run_spec policy hcap ops
  exact ⟨accounted, bounded, bounded.heeds hcap, fun _ _ _ h => History.step_push_error h,
    fun e callId bytes => e.makesRoom callId bytes⟩

def brimful : Endpoint Empty where
  connection :=
    { codec := ⟨{}, .generic⟩
      outbound := { policy := .dropOldest, capacity := 1, frames := [⟨some 7, .empty⟩] }
      calls :=
        { pending := [⟨7, ⟨0, false⟩, some 5, some 3⟩, ⟨8, ⟨1, false⟩, some 5, some 4⟩]
          timers := [⟨3, 7, 5⟩, ⟨4, 8, 5⟩] } }
  trace := {}

theorem frames_accounted_for_brimful :
    (1 : Nat) ≤ 1 ∧
    (∃ left, ((History.start .dropOldest 1).run
      [.push ⟨some 7, .empty⟩, .push ⟨none, .empty⟩, .pop, .push ⟨some 8, .empty⟩, .clear]).Accounted
        left) ∧
    ((History.start .dropOldest 1).run [.push ⟨some 7, .empty⟩]).buffer.Heeds .dropOldest 1
      ⟨some 8, .empty⟩ ∧
    ∃ e, (pushFrame (some 9) .empty).exec brimful = (.ok (), e) ∧ brimful.Cancels 7 e ∧
      e.connection.calls.pending = [⟨8, ⟨1, false⟩, some 5, some 4⟩] ∧
      e.connection.calls.timers = [⟨4, 8, 5⟩] := by
  refine ⟨le_rfl, (frames_accounted_for (α := Empty) .dropOldest 1 le_rfl _).1,
    (frames_accounted_for (α := Empty) .dropOldest 1 le_rfl _).2.2.1 _, ?_⟩
  obtain ⟨e, hrun, -, hcancels⟩ :=
    (frames_accounted_for .dropOldest 1 le_rfl []).2.2.2.2 brimful (some 9) .empty
  exact ⟨e, hrun, hcancels, hcancels.pending.trans rfl, hcancels.timers.trans rfl⟩

end GraphRpc
