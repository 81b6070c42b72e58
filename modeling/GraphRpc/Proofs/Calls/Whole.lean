import Mathlib
import GraphRpc.Proofs.Calls.Traffic

/-!
# Operations as a whole

An operation that takes all its steps in a row, with nobody else's between them, does what the
operation on connections does.
-/

namespace GraphRpc

variable {α β γ : Type}

-- ---------------------------------------------------------------------------
-- Operations that can fail
-- ---------------------------------------------------------------------------

/-- What an operation comes to at `e`. -/
def LinkM.exec (x : LinkM α β) (e : Endpoint α) : Except Failure β × Endpoint α := x.run.run e

namespace LinkM

variable {e : Endpoint α}

theorem exec_bind {x : LinkM α β} {f : β → LinkM α γ} : LinkM.exec (x >>= f) e =
    match x.exec e with
    | (.ok b, e) => (f b).exec e
    | (.error failure, e) => (.error failure, e) := by
  simp only [LinkM.exec, ExceptT.run_bind, StateT.run_bind]
  generalize x.run.run e = r
  obtain ⟨_ | b, e'⟩ := r <;> rfl

theorem exec_tryCatch {x : LinkM α β} {f : Failure → LinkM α β} : LinkM.exec (tryCatch x f) e =
    match x.exec e with
    | (.ok b, e) => (.ok b, e)
    | (.error failure, e) => (f failure).exec e := by
  simp only [LinkM.exec, ExceptT.run_tryCatch, StateT.run_bind]
  generalize x.run.run e = r
  obtain ⟨_ | b, e'⟩ := r <;> rfl

@[simp] theorem exec_pure {b : β} : LinkM.exec (pure b) e = (.ok b, e) := rfl

@[simp] theorem exec_get : LinkM.exec (get : LinkM α (Endpoint α)) e = (.ok e, e) := rfl

@[simp] theorem exec_always {x : StateM (Endpoint α) β} :
    (Endpoint.always x).exec e = (.ok (x.run e).1, (x.run e).2) := rfl

end LinkM

/-- An operation that is alone, at `p` with the connection at `e`, comes to `last`. -/
inductive Alone (last : Party α × Endpoint α) : Party α → Endpoint α → Prop
  | stop : Alone last last.1 last.2
  | step {p e} (seen : List UInt64) (h : Alone last (p.step seen e).1 (p.step seen e).2) :
    Alone last p e

-- ---------------------------------------------------------------------------
-- Deciding a call
-- ---------------------------------------------------------------------------

/-- All steps of deciding a call in a row. -/
def Deciding.finish (d : Deciding α) (e : Endpoint α) : Endpoint α :=
  ((d.step e).1.step (d.step e).2).2

theorem Deciding.step_step (d : Deciding α) (e : Endpoint α) :
    ((d.step e).1.step (d.step e).2).1 = .done := by
  cases d with
  | taking id outcome =>
    simp only [step, Endpoint.withdraw_run]
    cases e.connection.calls.take? id <;> rfl
  | telling call outcome => rfl
  | done => rfl

theorem Deciding.step_callTimeout (d : Deciding α) (e : Endpoint α) :
    (d.step e).2.connection.callTimeout = e.connection.callTimeout := by
  cases d with
  | taking id outcome =>
    simp only [step, Endpoint.withdraw_run]
    cases e.connection.calls.take? id <;> rfl
  | telling call outcome => rfl
  | done => rfl

theorem Deciding.finish_callTimeout (d : Deciding α) (e : Endpoint α) :
    (d.finish e).connection.callTimeout = e.connection.callTimeout :=
  (step_callTimeout ..).trans (step_callTimeout ..)

theorem Endpoint.push_callTimeout {e e' : Endpoint α} {frame : OutboundFrame} {d : Deciding α}
    (h : e.push frame = .ok (d, e')) : e'.connection.callTimeout = e.connection.callTimeout := by
  unfold push at h
  split at h
  · cases h
  · cases h
    rfl

theorem resolve_eq_finish (id : UInt64) (outcome : Except Failure (Payload α)) (e : Endpoint α) :
    ((Endpoint.resolve id outcome).run e).2 = (Deciding.taking id outcome).finish e := by
  cases h : e.connection.calls.take? id <;>
    simp [Endpoint.resolve, Calls.resolve, Deciding.finish, Deciding.step, Endpoint.withdraw, h,
      StateT.run, modifyGet, MonadStateOf.modifyGet, StateT.modifyGet, pure]

theorem completeCall_eq_finish (message : Message α) (e : Endpoint α) :
    ((Endpoint.completeCall message).run e).2 =
      (Deciding.taking message.callId message.outcome).finish e := by
  rw [← resolve_eq_finish, Endpoint.completeCall, Message.outcome]
  cases message.kind <;> rfl

theorem completeCall_alone (message : Message α) (e : Endpoint α) :
    Alone (.answer .done, ((Endpoint.completeCall message).run e).2)
      (.answer (.taking message.callId message.outcome)) e := by
  have hdone := (Deciding.taking message.callId message.outcome).step_step e
  rw [completeCall_eq_finish, ← hdone]
  exact .step [] (.step [] .stop)

theorem exec_pushFrame (callId : Option UInt64) (bytes : ByteArray) (e : Endpoint α) :
    (Endpoint.pushFrame callId bytes).exec e =
      match e.push ⟨callId, bytes⟩ with
      | .ok (d, e) => (.ok (), d.finish e)
      | .error fault => (.error (.link fault), e) := by
  simp only [Endpoint.pushFrame, LinkM.exec_bind, LinkM.exec_get, Endpoint.push]
  cases e.connection.outbound.push ⟨callId, bytes⟩ with
  | error fault => rfl
  | ok pushed =>
    obtain ⟨evicted, outbound⟩ := pushed
    simp only [LinkM.exec_bind, LinkM.exec_always, Deciding.ofEvicted]
    cases evicted.bind (·.callId) with
    | none => rfl
    | some id =>
      simp only [LinkM.exec_bind, LinkM.exec_always, LinkM.exec_pure, resolve_eq_finish]
      rfl

-- ---------------------------------------------------------------------------
-- Issuing a call
-- ---------------------------------------------------------------------------

theorem exec_encoded (message : Message α) (e : Endpoint α) : (Endpoint.encoded message).exec e =
    match message.encode e.connection.codec with
    | .ok bytes => (.ok bytes, e)
    | .error failure => (.error failure, e) := by
  simp only [Endpoint.encoded, LinkM.exec_bind, LinkM.exec_get]
  cases message.encode e.connection.codec <;> rfl

theorem isClosed_run (e : Endpoint α) : Endpoint.isClosed.run e = (e.connection.closed, e) := rfl

def armed (id : UInt64) (timeout : Option Millis) : LinkM α UInt64 := do
  if let some after := timeout then Endpoint.always (Endpoint.arm id after)
  Endpoint.always (Endpoint.count Counters.callIssued)
  return id

def rechecked (id : UInt64) (timeout : Option Millis) : LinkM α UInt64 := do
  if ← Endpoint.always Endpoint.isClosed then
    if (← Endpoint.always (Endpoint.withdraw id)).isSome then throw .closed
  armed id timeout

def entered (id : UInt64) (bytes : ByteArray) (timeout : Option Millis) : LinkM α UInt64 := do
  try
    Endpoint.pushFrame (some id) bytes
  catch failure =>
    let _ ← Endpoint.always (Endpoint.withdraw id)
    throw failure
  rechecked id timeout

/-- A call that is alone returns `last.1` and leaves `last.2`. -/
def Invocation.Returns (last : Except Failure UInt64 × Endpoint α) (call : Invocation α)
    (e : Endpoint α) : Prop :=
  ∃ id, Alone (.invoke { call with phase := .returned id last.1 }, last.2) (.invoke call) e

namespace Invocation

variable {call : Invocation α} {id : UInt64} {e : Endpoint α} {timeout : Option Millis}
  {last : Except Failure UInt64 × Endpoint α}

theorem Returns.returned {id : Option UInt64} (h : call.phase = .returned id last.1) :
    Returns last call last.2 := by
  refine ⟨id, ?_⟩
  rw [← h]
  exact .stop

theorem Returns.of_step {phase : InvokePhase α} {e' : Endpoint α}
    (hstep : call.step e = (phase, e')) (h : Returns last { call with phase } e') :
    Returns last call e := by
  obtain ⟨id, h⟩ := h
  refine ⟨id, .step [] ?_⟩
  rw [Party.step, hstep]
  exact h

theorem returns_arming (h : (call.timeout <|> e.connection.callTimeout) = timeout) :
    Returns ((armed id timeout).exec e) { call with phase := .arming id } e := by
  subst h
  refine .of_step rfl ?_
  simp only [armed]
  cases call.timeout <|> e.connection.callTimeout with
  | some after => exact .returned rfl
  | none => exact .returned rfl

theorem returns_rechecking (h : (call.timeout <|> e.connection.callTimeout) = timeout) :
    Returns ((rechecked id timeout).exec e) { call with phase := .rechecking id } e := by
  refine .of_step rfl ?_
  simp only [rechecked, LinkM.exec_bind, LinkM.exec_always, isClosed_run]
  cases hclosed : e.connection.closed with
  | false => exact returns_arming h
  | true =>
    simp only [if_true, LinkM.exec_bind, LinkM.exec_always, Endpoint.withdraw_run]
    cases htake : e.connection.calls.take? id with
    | some taken =>
      exact .of_step (by simp only [step, Endpoint.withdraw_run, htake]; rfl) (.returned rfl)
    | none =>
      exact .of_step (by simp only [step, Endpoint.withdraw_run, htake]) (returns_arming h)

theorem Returns.evicting_step {d : Deciding α}
    (h : Returns last { call with phase := .evicting id (d.step e).1 } (d.step e).2) :
    Returns last { call with phase := .evicting id d } e := by
  by_cases hd : d = .done
  · subst hd
    exact h
  · exact .of_step (step_evicting rfl hd) h

theorem Returns.evicting {d : Deciding α}
    (h : Returns last { call with phase := .rechecking id } (d.finish e)) :
    Returns last { call with phase := .evicting id d } e := by
  refine .evicting_step (.evicting_step ?_)
  rw [Deciding.step_step]
  exact .of_step rfl h

theorem returns_pushing (call : Invocation α) (id : UInt64) (bytes : ByteArray)
    (h : (call.timeout <|> e.connection.callTimeout) = timeout) :
    Returns ((entered id bytes timeout).exec e) { call with phase := .pushing id bytes } e := by
  simp only [entered, LinkM.exec_bind, LinkM.exec_tryCatch, exec_pushFrame]
  cases hpush : e.push ⟨some id, bytes⟩ with
  | error fault =>
    refine .of_step (by simp only [step, hpush]; rfl) ?_
    exact .of_step rfl (.returned rfl)
  | ok pushed =>
    obtain ⟨d, e'⟩ := pushed
    refine .of_step (by simp only [step, hpush]; rfl) (.evicting ?_)
    have hsame : (d.finish e').connection.callTimeout = e.connection.callTimeout :=
      (d.finish_callTimeout e').trans (Endpoint.push_callTimeout hpush)
    exact returns_rechecking (by rw [hsame, h])

end Invocation

/-- Issuing a call alone is to invoke it. -/
theorem invoke_alone (method : String) (payload : Payload α) (timeout : Option Millis)
    (callback : Callback) (e : Endpoint α) :
    Invocation.Returns ((Endpoint.invoke method payload timeout callback).exec e)
      { method, payload, timeout, callback } e := by
  simp only [Endpoint.invoke, Endpoint.ensureOpen, LinkM.exec_bind, LinkM.exec_always, LinkM.exec_get,
    exec_encoded, isClosed_run, Endpoint.takeCallId_run]
  cases hclosed : e.connection.closed with
  | true => exact .of_step (if_pos hclosed) (.returned rfl)
  | false =>
    refine .of_step (if_neg (by simp [hclosed])) (.of_step rfl ?_)
    simp only [Bool.false_eq_true, if_false, LinkM.exec_pure]
    cases hencode : (Message.request e.connection.nextCallId method payload).encode
      e.connection.codec with
    | error failure => exact .of_step (by simp only [Invocation.step, hencode]; rfl) (.returned rfl)
    | ok bytes =>
      refine .of_step (by simp only [Invocation.step, hencode]; rfl) (.of_step rfl ?_)
      have hlast (e' : Endpoint α) (h : e'.connection.callTimeout = e.connection.callTimeout) :=
        Invocation.returns_pushing ⟨method, payload, timeout, callback, .opening⟩
          e.connection.nextCallId bytes (congrArg (timeout <|> ·) h)
      simp only [entered, rechecked, armed, LinkM.exec_bind, LinkM.exec_always, isClosed_run] at hlast
      exact hlast _ rfl

-- ---------------------------------------------------------------------------
-- Sending and closing
-- ---------------------------------------------------------------------------

theorem pushFrame_alone (bytes : ByteArray) (e : Endpoint α) :
    Alone (.send (.evicting .done), ((Endpoint.pushFrame none bytes).exec e).2)
      (.send (.pushing bytes)) e := by
  refine .step [] ?_
  simp only [exec_pushFrame, Party.step, SendPhase.step]
  cases e.push ⟨none, bytes⟩ with
  | error fault => exact .stop
  | ok pushed =>
    obtain ⟨d, e'⟩ := pushed
    dsimp only
    rw [← d.step_step e']
    exact .step [] (.step [] .stop)

section
variable {failure : Failure} {last : Endpoint α} {e : Endpoint α}

theorem Alone.close_step {phase phase' : ClosingPhase α} {e' : Endpoint α}
    {last : Party α × Endpoint α} (seen : List UInt64)
    (hstep : phase.step failure seen e = (phase', e'))
    (h : Alone last (.close failure phase') e') : Alone last (.close failure phase) e := by
  refine .step seen ?_
  rw [Party.step, hstep]
  exact h

theorem Alone.failing_step {ids : List UInt64} {d : Deciding α}
    (h : Alone (.close failure .returned, last) (.close failure (.failing ids (d.step e).1))
      (d.step e).2) :
    Alone (.close failure .returned, last) (.close failure (.failing ids d)) e := by
  by_cases hd : d = .done
  · subst hd
    exact h
  · exact .close_step [] (ClosingPhase.step_failing hd failure [] e) h

theorem failEach_alone (ids : List UInt64) (e : Endpoint α) :
    Alone (.close failure .returned,
        { connection := { e.connection with
            calls := (Calls.failEach failure ids e.connection.calls e.trace).2.1 }
          trace := (Calls.failEach failure ids e.connection.calls e.trace).2.2 })
      (.close failure (.failing ids .done)) e := by
  induction ids generalizing e with
  | nil => exact .step [] .stop
  | cons id ids ih =>
    refine .step [] (.failing_step (.failing_step ?_))
    rw [Deciding.step_step, ← Deciding.finish, ← resolve_eq_finish]
    exact ih ((Endpoint.resolve id (.error failure)).run e).2

theorem closeWith_run (failure : Failure) (e : Endpoint α) :
    ((Endpoint.closeWith failure).run e).2 = if e.connection.closed then e else
      ((Endpoint.failAll failure).run
        { connection := { e.connection with closed := true, outbound := e.connection.outbound.clear.2 }
          trace := e.trace.emit .closeSignalled }).2 := by
  simp only [Endpoint.closeWith, StateT.run_bind]
  have hclosed : Endpoint.isClosed.run e = (pure (e.connection.closed, e) : Id _) := rfl
  rw [hclosed]
  cases e.connection.closed <;> rfl

theorem closeWith_alone (failure : Failure) (e : Endpoint α) :
    Alone (.close failure .returned, ((Endpoint.closeWith failure).run e).2)
      (.close failure .swapping) e := by
  rw [closeWith_run]
  cases hclosed : e.connection.closed with
  | true => exact .close_step [] (if_pos hclosed) .stop
  | false =>
    refine .close_step [] (if_neg (by simp [hclosed])) (.close_step [] rfl (.close_step [] rfl ?_))
    -- It finds all that is in the table.
    have hseen : (e.connection.calls.pending.map (·.callId)).all (fun id =>
        !e.connection.calls.contains id || (e.connection.calls.pending.map (·.callId)).contains id) :=
      List.all_eq_true.2 fun id hid => by simp only [List.contains_iff_mem.2 hid, Bool.or_true]
    refine .close_step [] rfl (.close_step _ (if_pos hseen) ?_)
    exact failEach_alone _ _

end

end GraphRpc
