import Mathlib
import GraphRpc.Proofs.Accounts.Ledger
import GraphRpc.Proofs.Outbound.Eviction

/-!
# Sending

What issuing a call and sending a notification leave behind. What fails leaves nothing behind but a
used number: a call that was entered before its frame was refused is taken back. What succeeds first
makes room, if there is none, and then adds a frame, and a call its entry in the table with the timer
of its deadline. The call is entered before room is made, but this makes no difference: the frame that
makes room is of an older call.
-/

namespace GraphRpc

open Endpoint

variable {α : Type}

-- ---------------------------------------------------------------------------
-- The table
-- ---------------------------------------------------------------------------

namespace Calls

variable {calls : Calls} {id : UInt64} {call : PendingCall} {callback : Callback}

def append (calls : Calls) (call : PendingCall) : Calls :=
  { calls with pending := calls.pending ++ [call] }

def issue (calls : Calls) (id : UInt64) (callback : Callback) (deadline : Option Millis) : Calls where
  pending := calls.pending ++ [⟨id, callback, deadline, deadline.map fun _ => calls.nextTimer⟩]
  timers := calls.timers ++ (deadline.map fun due => ⟨calls.nextTimer, id, due⟩).toList
  nextTimer := calls.nextTimer + deadline.toList.length

theorem Lacks.insert_eq (h : calls.Lacks call.callId) :
    calls.insert call = calls.append call := by
  simp only [insert, append, h.filter_eq]

theorem Lacks.take?_append_self (h : calls.Lacks call.callId) (htimer : call.timer = none) :
    (calls.append call).take? call.callId = some (call, calls) := by
  have hfind : calls.pending.find? (·.callId == call.callId) = none := find?_eq_none.2 h
  have htimers : calls.timers.filter (fun t => some t.id != none) = calls.timers :=
    List.filter_eq_self.2 fun _ _ => rfl
  simp [append, take?_eq, find?, hfind, htimer, htimers, h.filter_eq]

theorem take?_append (h : call.callId ≠ id) :
    (calls.append call).take? id =
      (calls.take? id).map fun (taken, rest) => (taken, rest.append call) := by
  simp only [take?_eq, append, find?, List.find?_append]
  cases hfind : calls.pending.find? (·.callId == id) with
  | none => simp [h]
  | some taken => simp [h]

theorem issue_none : calls.issue id callback none = calls.append ⟨id, callback, none, none⟩ := by
  simp [issue, append]

theorem Lacks.arm_append (h : calls.Lacks id) (due : Millis) :
    ((calls.append ⟨id, callback, some due, none⟩).arm id due).2 =
      calls.issue id callback (some due) := by
  have hothers : calls.pending.map (fun call =>
      if call.callId = id then { call with timer := some calls.nextTimer } else call) =
        calls.pending := by
    refine (List.map_congr_left fun call hcall => ?_).trans (List.map_id' _)
    simp [h call hcall]
  simp [arm, append, contains, issue, hothers]

end Calls

-- ---------------------------------------------------------------------------
-- Making room
-- ---------------------------------------------------------------------------

namespace Outbound

variable {o : Outbound} {frame : OutboundFrame}

/-- A buffer without room lets its oldest frame go, if its policy is to do so. -/
def makeRoom (o : Outbound) : Option OutboundFrame × Outbound :=
  if o.policy = .dropOldest ∧ o.isFull then (o.frames.head?, { o with frames := o.frames.tail })
  else (none, o)

def queue (o : Outbound) (frame : OutboundFrame) : Outbound := { o with frames := o.frames ++ [frame] }

/-- A frame that is accepted is added once there is room. -/
theorem push_eq_queue (h : o.push frame = .ok (evicted, o')) :
    o.makeRoom.1 = evicted ∧ o' = o.makeRoom.2.queue frame := by
  rcases push_cases h with ⟨hpolicy, hfull, rfl, rfl⟩ | ⟨hroom, rfl, rfl⟩
  · have hevicts : o.policy = .dropOldest ∧ o.isFull := ⟨hpolicy, decide_eq_true hfull⟩
    simp [makeRoom, hevicts, queue]
  · have hstays : ¬ (o.policy = .dropOldest ∧ o.isFull) := by
      rintro ⟨hpolicy, hfull⟩
      simp only [isFull, decide_eq_true_eq] at hfull
      rcases hroom with hunbounded | hlt
      · simp [hunbounded] at hpolicy
      · omega
    simp [makeRoom, hstays, queue]

theorem mem_of_makeRoom (h : o.makeRoom.1 = some frame) : frame ∈ o.frames := by
  unfold makeRoom at h
  split at h
  · exact List.mem_of_head? h
  · cases h

theorem makeRoom_subset (o : Outbound) : o.makeRoom.2.frames ⊆ o.frames := by
  unfold makeRoom
  split
  · exact List.tail_subset _
  · exact fun _ => id

end Outbound

namespace Deciding

variable {d : Deciding α} {e : Endpoint α}

theorem now_finish (d : Deciding α) (e : Endpoint α) : (d.finish e).trace.now = e.trace.now := by
  cases d with
  | taking id outcome =>
    rw [finish_taking]
    cases e.connection.calls.take? id <;> rfl
  | telling call outcome => rfl
  | done => rfl

theorem finish_aside (d : Deciding α) (e : Endpoint α) {f : Connection α → Connection α}
    (hf : ∀ c calls, f { c with calls } = { f c with calls }) :
    d.finish { e with connection := f e.connection } =
      { d.finish e with connection := f (d.finish e).connection } := by
  cases d with
  | taking id outcome =>
    have hsame : f e.connection = { f e.connection with calls := e.connection.calls } :=
      hf e.connection e.connection.calls
    have hcalls : (f e.connection).calls = e.connection.calls := by rw [hsame]
    simp only [finish_taking, hcalls]
    cases e.connection.calls.take? id with
    | none => rfl
    | some taken => exact congrArg (Endpoint.mk · _) (hf e.connection taken.2).symm
  | telling call outcome => rfl
  | done => rfl

theorem evicted_of_aims {evicted : Option OutboundFrame} {id : UInt64}
    (h : (ofEvicted evicted : Deciding α).aims id) : evicted.bind (·.callId) = some id := by
  unfold ofEvicted at h
  split at h
  · next hevicted => exact hevicted.trans (congrArg some h)
  · exact h.elim

theorem finish_append {call : PendingCall} (e : Endpoint α)
    (hother : ∀ id, d.aims id → call.callId ≠ id) :
    d.finish { e with connection := { e.connection with calls := e.connection.calls.append call } } =
      { d.finish e with connection :=
        { (d.finish e).connection with calls := (d.finish e).connection.calls.append call } } := by
  cases d with
  | taking id outcome =>
    simp only [finish_taking, Calls.take?_append (hother id rfl)]
    cases e.connection.calls.take? id <;> rfl
  | telling call outcome => rfl
  | done => rfl

end Deciding

namespace Endpoint

variable {e e' : Endpoint α} {d : Deciding α} {frame : OutboundFrame}

/-- The endpoint once there is room for a frame. If the oldest frame had to go, its call is cancelled
unless it was decided before. -/
def roomMade (e : Endpoint α) : Endpoint α :=
  (Deciding.ofEvicted e.connection.outbound.makeRoom.1).finish
    { e with connection := { e.connection with outbound := e.connection.outbound.makeRoom.2 } }

theorem roomMade_of_room (h : e.connection.outbound.policy ≠ .dropOldest ∨
    e.connection.outbound.size < e.connection.outbound.capacity) : e.roomMade = e := by
  have hstays : ¬ (e.connection.outbound.policy = .dropOldest ∧ e.connection.outbound.isFull) := by
    rintro ⟨hpolicy, hfull⟩
    simp only [Outbound.isFull, decide_eq_true_eq] at hfull
    exact h.elim (· hpolicy) (Nat.not_lt.2 hfull)
  rw [roomMade, Outbound.makeRoom, if_neg hstays]
  rfl

/-- From `e` to `e'` the connection became `c`, no time passed, and nobody was told anything. -/
structure Becomes (c : Connection α) (e e' : Endpoint α) : Prop where
  connection : e'.connection = c
  outcomes : e'.trace.outcomes = e.trace.outcomes
  now : e'.trace.now = e.trace.now

/-- To add a frame that is accepted is to make room for it and to append it. -/
theorem becomes_push (h : e.push frame = .ok (d, e')) :
    Becomes { e.roomMade.connection with outbound := e.connection.outbound.makeRoom.2.queue frame }
      e.roomMade (d.finish e') := by
  have hqueued (t : Trace α) : (t.emit .frameQueued).outcomes = t.outcomes :=
    (Trace.outcomes_emit ..).trans (List.append_nil _)
  cases hpush : e.connection.outbound.push frame with
  | error fault => simp [push, hpush] at h
  | ok pushed =>
    obtain ⟨evicted, outbound⟩ := pushed
    obtain ⟨rfl, rfl⟩ := Outbound.push_eq_queue hpush
    simp only [push, hpush, Except.ok.injEq, Prod.mk.injEq] at h
    obtain ⟨rfl, rfl⟩ := h
    simp only [roomMade, Deciding.ofEvicted]
    cases e.connection.outbound.makeRoom.1.bind (·.callId) with
    | none => exact ⟨rfl, hqueued _, rfl⟩
    | some id =>
      simp only [Deciding.finish_taking]
      cases e.connection.calls.take? id with
      | none => exact ⟨rfl, hqueued _, rfl⟩
      | some taken => exact ⟨rfl, by simp only [Trace.outcomes_finish, hqueued], rfl⟩

theorem roomMade_numbered (e : Endpoint α) : e.numbered.roomMade = e.roomMade.numbered :=
  Deciding.finish_aside _ { e with connection :=
      { e.connection with outbound := e.connection.outbound.makeRoom.2 } }
    (f := fun c => { c with nextCallId := c.nextCallId + 1 }) fun _ _ => rfl

theorem roomMade_append {call : PendingCall}
    (hframes : ∀ frame ∈ e.connection.outbound.frames, frame.callId ≠ some call.callId) :
    roomMade { e with connection := { e.connection with calls := e.connection.calls.append call } } =
      { e.roomMade with connection :=
        { e.roomMade.connection with calls := e.roomMade.connection.calls.append call } } := by
  refine Deciding.finish_append { e with connection :=
      { e.connection with outbound := e.connection.outbound.makeRoom.2 } } fun id haims heq => ?_
  obtain ⟨frame, hframe, hid⟩ := Option.bind_eq_some_iff.1 (Deciding.evicted_of_aims haims)
  exact hframes frame (Outbound.mem_of_makeRoom hframe) (heq ▸ hid)

theorem connection_roomMade (e : Endpoint α) :
    e.roomMade.connection = { e.connection with
      outbound := e.connection.outbound.makeRoom.2, calls := e.roomMade.connection.calls } := by
  unfold roomMade Deciding.ofEvicted
  cases e.connection.outbound.makeRoom.1.bind (·.callId) with
  | none => rfl
  | some id =>
    simp only [Deciding.finish_taking]
    cases e.connection.calls.take? id <;> rfl

theorem now_roomMade (e : Endpoint α) : e.roomMade.trace.now = e.trace.now := Deciding.now_finish ..

theorem sublist_roomMade (e : Endpoint α) :
    e.roomMade.connection.calls.pending.Sublist e.connection.calls.pending := by
  unfold roomMade Deciding.ofEvicted
  cases e.connection.outbound.makeRoom.1.bind (·.callId) with
  | none => exact .refl _
  | some id =>
    dsimp only
    rw [(Deciding.cancels ..).pending]
    exact List.filter_sublist

theorem lacks_roomMade {id : UInt64} (h : e.connection.calls.Lacks id) :
    e.roomMade.connection.calls.Lacks id :=
  fun call hcall => h call ((sublist_roomMade e).subset hcall)

-- ---------------------------------------------------------------------------
-- Sending
-- ---------------------------------------------------------------------------

/-- A number was used up at most. -/
def Unmoved (e e' : Endpoint α) : Prop := e' = e ∨ e' = e.numbered

/-- Room was made if need be, and a frame was added. -/
def Sent (e e' : Endpoint α) (id : UInt64) (bytes : ByteArray) : Prop :=
  Becomes { e.connection with
    outbound := e.roomMade.connection.outbound.queue ⟨none, bytes⟩
    calls := e.roomMade.connection.calls
    nextCallId := id + 1 } e.roomMade e'

/-- Room was made if need be, and a call and its frame were added. -/
def Issued (e e' : Endpoint α) (id : UInt64) (callback : Callback) (timeout : Option Millis)
    (bytes : ByteArray) : Prop :=
  Becomes { e.connection with
    outbound := e.roomMade.connection.outbound.queue ⟨some id, bytes⟩
    calls := e.roomMade.connection.calls.issue id callback (timeout.map (e.trace.now + ·))
    nextCallId := id + 1 } e.roomMade e'

theorem notify_cases (method : String) (payload : Payload α) (e : Endpoint α) :
    (∃ failure e', (notify method payload).exec e = (.error failure, e') ∧ e.Unmoved e') ∨
    ∃ bytes e', (notify method payload).exec e = (.ok e.connection.nextCallId, e') ∧
      e.connection.closed = false ∧
      (Message.oneWay e.connection.nextCallId method payload).encode e.connection.codec = .ok bytes ∧
      e.Sent e' e.connection.nextCallId bytes := by
  rw [exec_notify]
  cases hclosed : e.connection.closed with
  | true => exact .inl ⟨_, _, rfl, .inl rfl⟩
  | false =>
    simp only [Bool.false_eq_true, if_false]
    cases hencode : (Message.oneWay e.connection.nextCallId method payload).encode
      e.connection.codec with
    | error failure => exact .inl ⟨_, _, rfl, .inr rfl⟩
    | ok bytes =>
      dsimp only
      cases hpush : e.numbered.push ⟨none, bytes⟩ with
      | error fault => exact .inl ⟨_, _, rfl, .inr rfl⟩
      | ok pushed =>
        obtain ⟨d, e'⟩ := pushed
        have h := becomes_push hpush
        rw [roomMade_numbered] at h
        refine .inr ⟨bytes, _, rfl, trivial, rfl, ?_, h.outcomes, h.now⟩
        refine h.connection.trans ?_
        simp only [numbered, takeCallId_run]
        rw [connection_roomMade]

theorem exec_armed (id : UInt64) (timeout : Option Millis) (e : Endpoint α) :
    ∃ e', (armed id timeout).exec e = (.ok id, e') ∧
      Becomes { e.connection with calls := match timeout with
        | some after => (e.connection.calls.arm id (e.trace.now + after)).2
        | none => e.connection.calls } e e' := by
  cases timeout with
  | none => exact ⟨_, rfl, rfl, rfl, rfl⟩
  | some after =>
    have hrun : ((arm id after).run e).2.connection =
          { e.connection with calls := (e.connection.calls.arm id (e.trace.now + after)).2 } ∧
        ((arm id after).run e).2.trace.outcomes = e.trace.outcomes ∧
        ((arm id after).run e).2.trace.now = e.trace.now := by
      simp only [arm, StateT.run, modify, modifyGet, MonadStateOf.modifyGet, StateT.modifyGet]
      generalize e.connection.calls.arm id (e.trace.now + after) = started
      obtain ⟨timer | timer, calls⟩ := started
      · exact ⟨rfl, rfl, rfl⟩
      · exact ⟨rfl, (Trace.outcomes_emit ..).trans (List.append_nil _), rfl⟩
    exact ⟨_, rfl, hrun.1, hrun.2.1, hrun.2.2⟩

theorem exec_rechecked_of_open (hopen : e.connection.closed = false) (id : UInt64)
    (timeout : Option Millis) : (rechecked id timeout).exec e = (armed id timeout).exec e := by
  simp only [rechecked, LinkM.exec_bind, LinkM.exec_always, isClosed_run, hopen, Bool.false_eq_true,
    if_false]

/-- The endpoint with a call in the table that has the next number and no timer yet. -/
def withCall (e : Endpoint α) (callback : Callback) (deadline : Option Millis) : Endpoint α :=
  { e.numbered with connection := { e.numbered.connection with
      calls := e.numbered.connection.calls.append ⟨e.connection.nextCallId, callback, deadline, none⟩ } }

variable {callback : Callback} {timeout deadline : Option Millis}

theorem enterCall_run (hlacks : e.connection.calls.Lacks e.connection.nextCallId) :
    ((enterCall e.connection.nextCallId callback timeout).run e.numbered).2 =
      e.withCall callback (timeout.map (e.trace.now + ·)) := by
  have hinsert : e.connection.calls.insert
      ⟨e.connection.nextCallId, callback, timeout.map (e.trace.now + ·), none⟩ =
        e.connection.calls.append
          ⟨e.connection.nextCallId, callback, timeout.map (e.trace.now + ·), none⟩ :=
    Calls.Lacks.insert_eq hlacks
  exact congrArg (fun calls : Calls => { e.numbered with connection :=
    { e.numbered.connection with calls } }) hinsert

theorem withdraw_withCall (hlacks : e.connection.calls.Lacks e.connection.nextCallId) :
    ((withdraw e.connection.nextCallId).run (e.withCall callback deadline)).2 = e.numbered := by
  have htake : (e.connection.calls.append ⟨e.connection.nextCallId, callback, deadline, none⟩).take?
      e.connection.nextCallId =
        some (⟨e.connection.nextCallId, callback, deadline, none⟩, e.connection.calls) :=
    Calls.Lacks.take?_append_self hlacks rfl
  have htable : (e.withCall callback deadline).connection.calls.take? e.connection.nextCallId =
      some (⟨e.connection.nextCallId, callback, deadline, none⟩, e.connection.calls) := htake
  rw [withdraw_run, htable]
  rfl

/-- Room is made for the request of a new call as if the call were not yet in the table. -/
theorem becomes_push_withCall
    (hframes : ∀ frame ∈ e.connection.outbound.frames, frame.callId ≠ some e.connection.nextCallId)
    (h : (e.withCall callback deadline).push frame = .ok (d, e')) :
    Becomes { e.connection with
        outbound := e.roomMade.connection.outbound.queue frame
        calls := e.roomMade.connection.calls.append ⟨e.connection.nextCallId, callback, deadline, none⟩
        nextCallId := e.connection.nextCallId + 1 } e.roomMade (d.finish e') := by
  have hpush := becomes_push h
  rw [withCall, roomMade_append hframes, roomMade_numbered] at hpush
  refine ⟨hpush.connection.trans ?_, hpush.outcomes, hpush.now⟩
  simp only [numbered, takeCallId_run]
  rw [connection_roomMade]

theorem invoke_cases (method : String) (payload : Payload α) (timeout : Option Millis)
    (callback : Callback) (hlacks : e.connection.calls.Lacks e.connection.nextCallId)
    (hframes : ∀ frame ∈ e.connection.outbound.frames, frame.callId ≠ some e.connection.nextCallId) :
    (∃ failure e', (invoke method payload timeout callback).exec e = (.error failure, e') ∧
      e.Unmoved e') ∨
    ∃ bytes e', (invoke method payload timeout callback).exec e = (.ok e.connection.nextCallId, e') ∧
      e.connection.closed = false ∧
      (Message.request e.connection.nextCallId method payload).encode e.connection.codec = .ok bytes ∧
      e.Issued e' e.connection.nextCallId callback (timeout <|> e.connection.callTimeout) bytes := by
  rw [exec_invoke]
  cases hclosed : e.connection.closed with
  | true => exact .inl ⟨_, _, rfl, .inl rfl⟩
  | false =>
    simp only [Bool.false_eq_true, if_false]
    cases hencode : (Message.request e.connection.nextCallId method payload).encode
      e.connection.codec with
    | error failure => exact .inl ⟨_, _, rfl, .inr rfl⟩
    | ok bytes =>
      dsimp only
      generalize (timeout <|> e.connection.callTimeout) = timeout
      rw [enterCall_run hlacks]
      cases hpush : (e.withCall callback (timeout.map (e.trace.now + ·))).push
          ⟨some e.connection.nextCallId, bytes⟩ with
      | error fault => exact .inl ⟨_, _, rfl, .inr (withdraw_withCall hlacks)⟩
      | ok pushed =>
        obtain ⟨d, e'⟩ := pushed
        have hfinish := becomes_push_withCall hframes hpush
        have hopen : (d.finish e').connection.closed = false := by
          rw [hfinish.connection]
          exact hclosed
        obtain ⟨last, hrun, hlast⟩ := exec_armed e.connection.nextCallId timeout (d.finish e')
        refine .inr ⟨bytes, last, ?_, trivial, rfl, hlast.connection.trans ?_,
          hlast.outcomes.trans hfinish.outcomes, hlast.now.trans hfinish.now⟩
        · exact (exec_rechecked_of_open hopen _ _).trans hrun
        · rw [hfinish.connection, hfinish.now, now_roomMade]
          cases timeout with
          | none => simp only [Option.map_none, Calls.issue_none]
          | some after => simp only [Option.map_some, (lacks_roomMade hlacks).arm_append]

end Endpoint
end GraphRpc
