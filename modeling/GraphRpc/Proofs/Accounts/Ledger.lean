import Mathlib
import GraphRpc.Proofs.Inbound.Harmless
import GraphRpc.Proofs.Peers.Numbering

/-!
# The accounts of one connection

What an operation adds to the counters of calls and notifications, and what it does to the number of
pending calls: whoever takes a call out of the table counts its outcome, and a call is counted as issued
just when it stays in the table.
-/

namespace GraphRpc

variable {α : Type}

-- ---------------------------------------------------------------------------
-- Tallies
-- ---------------------------------------------------------------------------

/-- How many calls were issued and came to an outcome, by kinds of outcome, and how many notifications
were sent. -/
structure Tally where
  issued : Nat := 0
  completed : Nat := 0
  timedOut : Nat := 0
  failed : Nat := 0
  notified : Nat := 0
deriving DecidableEq, Repr

namespace Tally

instance : Zero Tally := ⟨{}⟩

instance : Add Tally where
  add t t' :=
    { issued := t.issued + t'.issued
      completed := t.completed + t'.completed
      timedOut := t.timedOut + t'.timedOut
      failed := t.failed + t'.failed
      notified := t.notified + t'.notified }

def resolved (t : Tally) : Nat := t.completed + t.timedOut + t.failed

def ofOutcome : Except Failure (Payload α) → Tally
  | .ok _ => { completed := 1 }
  | .error (.call .timedOut) => { timedOut := 1 }
  | .error _ => { failed := 1 }

@[simp] theorem issued_zero : (0 : Tally).issued = 0 := rfl

@[simp] theorem notified_zero : (0 : Tally).notified = 0 := rfl

@[simp] theorem issued_add (t t' : Tally) : (t + t').issued = t.issued + t'.issued := rfl

@[simp] theorem notified_add (t t' : Tally) : (t + t').notified = t.notified + t'.notified := rfl

@[simp] theorem resolved_add (t t' : Tally) : (t + t').resolved = t.resolved + t'.resolved := by
  simp only [resolved, show (t + t').completed = t.completed + t'.completed from rfl,
    show (t + t').timedOut = t.timedOut + t'.timedOut from rfl,
    show (t + t').failed = t.failed + t'.failed from rfl]
  omega

theorem ofOutcome_spec (outcome : Except Failure (Payload α)) :
    (ofOutcome outcome).issued = 0 ∧ (ofOutcome outcome).notified = 0 ∧
      (ofOutcome outcome).resolved = 1 := by
  unfold ofOutcome
  split <;> exact ⟨rfl, rfl, rfl⟩

end Tally

def Counters.adding (c : Counters) (t : Tally) : Counters :=
  { c with
    callsIssued := c.callsIssued + UInt64.ofNat t.issued
    callsCompleted := c.callsCompleted + UInt64.ofNat t.completed
    callsTimedOut := c.callsTimedOut + UInt64.ofNat t.timedOut
    callsFailed := c.callsFailed + UInt64.ofNat t.failed
    oneWayIssued := c.oneWayIssued + UInt64.ofNat t.notified }

theorem Counters.adding_zero (c : Counters) : c.adding 0 = c := by
  simp [adding, show (0 : Tally) = {} from rfl]

theorem Counters.adding_add (c : Counters) (t t' : Tally) :
    c.adding (t + t') = (c.adding t).adding t' := by
  simp only [adding, show t + t' = ⟨t.issued + t'.issued, t.completed + t'.completed,
    t.timedOut + t'.timedOut, t.failed + t'.failed, t.notified + t'.notified⟩ from rfl,
    UInt64.ofNat_add, UInt64.add_assoc]

theorem Counters.callIssued_eq (c : Counters) : c.callIssued = c.adding { issued := 1 } := by
  simp [adding, callIssued]

theorem Counters.oneWayWasIssued_eq (c : Counters) :
    c.oneWayWasIssued = c.adding { notified := 1 } := by
  simp [adding, oneWayWasIssued]

theorem Trace.countOutcome_eq (outcome : Except Failure (Payload α)) (c : Counters) :
    countOutcome outcome c = c.adding (.ofOutcome outcome) := by
  unfold countOutcome Tally.ofOutcome
  split <;> simp [Counters.adding, Counters.callCompleted, Counters.callTimedOut, Counters.callFailed]

-- ---------------------------------------------------------------------------
-- The table
-- ---------------------------------------------------------------------------

namespace Calls

variable {calls rest : Calls} {id : UInt64} {call : PendingCall}

theorem length_entries (calls : Calls) : calls.entries.length = calls.size := List.length_map ..

theorem Taken.size_eq (h : calls.Taken id call rest) (hd : calls.Distinct) :
    rest.size + 1 = calls.size := by
  have hone : calls.entries.countP (·.1 == id) = 1 := by
    have hcount := List.count_eq_one_of_mem hd (List.mem_map_of_mem h.mem)
    rwa [List.count, List.countP_map] at hcount
  have hall : calls.entries.length =
      calls.entries.countP (·.1 == id) + calls.entries.countP (·.1 != id) := by
    rw [List.length_eq_countP_add_countP (p := fun x : UInt64 × Callback => x.1 == id)]
    exact congrArg (_ + ·) (List.countP_congr fun x _ => by simp)
  rw [← length_entries, ← length_entries, h.entries_eq, Calls.without, ← List.countP_eq_length_filter,
    hall, hone, Nat.add_comm]

theorem entries_insert_of_fresh (h : ∀ x ∈ calls.entries, x.1 ≠ call.callId) :
    (calls.insert call).entries = calls.entries ++ [(call.callId, call.callback)] := by
  rw [entries_insert, Calls.without, List.filter_eq_self.2 fun x hx => by simpa using h x hx]

end Calls

-- ---------------------------------------------------------------------------
-- Calls that come to an outcome
-- ---------------------------------------------------------------------------

/-- From `e` to `e'` the tally `t` was added to the counters, and the number of pending calls is in
keeping with it. -/
structure Accounts (t : Tally) (e e' : Endpoint α) : Prop where
  counters_eq : e'.trace.counters = e.trace.counters.adding t
  balance : e'.connection.calls.size + t.resolved = e.connection.calls.size + t.issued

namespace Accounts

variable {e e' e'' : Endpoint α} {t t' : Tally}

theorem refl (e : Endpoint α) : Accounts 0 e e := ⟨(Counters.adding_zero _).symm, rfl⟩

theorem trans (h : Accounts t e e') (h' : Accounts t' e' e'') : Accounts (t + t') e e'' where
  counters_eq := by rw [h'.counters_eq, h.counters_eq, Counters.adding_add]
  balance := by
    have := h.balance
    have := h'.balance
    rw [Tally.resolved_add, Tally.issued_add]
    omega

end Accounts

/-- From `e` to `e'` calls may have come to an outcome, and nothing was issued. -/
structure Settles (e e' : Endpoint α) : Prop where
  accounts : ∃ t : Tally, Accounts t e e' ∧ t.issued = 0 ∧ t.notified = 0
  nextCallId_eq : e'.connection.nextCallId = e.connection.nextCallId
  subset : e'.connection.calls.entries ⊆ e.connection.calls.entries
  distinct : e'.connection.calls.Distinct

namespace Settles

variable {e e' e'' : Endpoint α}

theorem trans (h : Settles e e') (h' : Settles e' e'') : Settles e e'' where
  accounts := by
    obtain ⟨t, ht, hissued, hnotified⟩ := h.accounts
    obtain ⟨t', ht', hissued', hnotified'⟩ := h'.accounts
    exact ⟨t + t', ht.trans ht', by simp [hissued, hissued'], by simp [hnotified, hnotified']⟩
  nextCallId_eq := h'.nextCallId_eq.trans h.nextCallId_eq
  subset _ hx := h.subset (h'.subset hx)
  distinct := h'.distinct

theorem still (hd : e.connection.calls.Distinct)
    (hcounters : e'.trace.counters = e.trace.counters)
    (hentries : e'.connection.calls.entries = e.connection.calls.entries)
    (hnext : e'.connection.nextCallId = e.connection.nextCallId) : Settles e e' where
  accounts := by
    refine ⟨0, ⟨hcounters.trans (Counters.adding_zero _).symm, ?_⟩, rfl, rfl⟩
    rw [← Calls.length_entries, ← Calls.length_entries, hentries]
    rfl
  nextCallId_eq := hnext
  subset := by
    rw [hentries]
    exact fun _ => id
  distinct := by rwa [Calls.Distinct, hentries]

theorem refl (hd : e.connection.calls.Distinct) : Settles e e := still hd rfl rfl rfl

theorem taken {id : UInt64} {call : PendingCall} {rest : Calls} (hd : e.connection.calls.Distinct)
    (htaken : e.connection.calls.Taken id call rest) (outcome : Except Failure (Payload α)) :
    Settles e
      { connection := { e.connection with calls := rest }
        trace := e.trace.finish call.callback outcome } where
  accounts := by
    obtain ⟨hissued, hnotified, hresolved⟩ := Tally.ofOutcome_spec outcome
    refine ⟨.ofOutcome outcome, ⟨Trace.countOutcome_eq .., ?_⟩, hissued, hnotified⟩
    rw [hresolved, hissued]
    exact htaken.size_eq hd
  nextCallId_eq := rfl
  subset _ hx := (htaken.mem_of_mem hx).1
  distinct := htaken.distinct hd

end Settles

namespace Endpoint

variable {e : Endpoint α}

theorem settles_resolve (hd : e.connection.calls.Distinct) (id : UInt64)
    (outcome : Except Failure (Payload α)) : Settles e ((resolve id outcome).run e).2 := by
  rw [resolve_eq_finish, Deciding.finish]
  obtain ⟨call, calls, htaken, hrun⟩ | ⟨-, hrun⟩ := withdraw_cases id e
  · simp only [Deciding.step, hrun]
    exact .taken hd htaken outcome
  · simp only [Deciding.step, hrun]
    exact .refl hd

theorem settles_completeCall (hd : e.connection.calls.Distinct) (message : Message α) :
    Settles e ((completeCall message).run e).2 := by
  rw [completeCall_eq_finish, ← resolve_eq_finish]
  exact settles_resolve hd ..

theorem settles_push {e' : Endpoint α} {frame : OutboundFrame} {d : Deciding α}
    (hd : e.connection.calls.Distinct) (h : e.push frame = .ok (d, e')) :
    Settles e (d.finish e') := by
  unfold push at h
  split at h
  · cases h
  · next evicted outbound hpush =>
    cases h
    let e' : Endpoint α :=
      { connection := { e.connection with outbound }, trace := e.trace.emit .frameQueued }
    have hpushed : Settles e e' := .still hd rfl rfl rfl
    unfold Deciding.ofEvicted
    cases evicted.bind (·.callId) with
    | none => exact hpushed
    | some id =>
      have hresolve := settles_resolve hpushed.distinct id (.error (.call .cancelled))
      rw [resolve_eq_finish] at hresolve
      exact hpushed.trans hresolve

theorem settles_pushFrame (hd : e.connection.calls.Distinct) (callId : Option UInt64)
    (bytes : ByteArray) : Settles e ((pushFrame callId bytes).exec e).2 := by
  rw [exec_pushFrame]
  split
  · next hpush => exact settles_push hd hpush
  · exact .refl hd

theorem settles_sending (hd : e.connection.calls.Distinct) (m : Message α) :
    Settles e (sending m e) := by
  unfold sending
  split
  · exact .refl hd
  · split
    · exact settles_pushFrame hd ..
    · exact .refl hd

theorem settles_respond (hd : e.connection.calls.Distinct) (request : Message α)
    (payload : Payload α) : Settles e ((respond request payload).exec e).2 := by
  have hrun := exec_respond (e := e) request (some payload)
  rw [Option.getD_some] at hrun
  rw [hrun]
  exact settles_sending hd _

def expire (timer : Timer) : StateM (Endpoint α) Unit := do
  if let some callback ← timeOut timer then deliverTimeout callback

theorem settles_expire (hd : e.connection.calls.Distinct) (timer : Timer) :
    Settles e ((expire timer).run e).2 := by
  simp only [expire, StateT.run_bind]
  cases hfire : e.connection.calls.fire timer with
  | mk call calls =>
    rw [timeOut_run hfire]
    cases call with
    | none => exact .still hd rfl (Calls.fire_none hfire) rfl
    | some call => exact .taken hd (Calls.fire_some hfire) (.error (.call .timedOut))

theorem settles_failEach (hd : e.connection.calls.Distinct) (failure : Failure) (ids : List UInt64) :
    Settles e
      { connection := { e.connection with
          calls := (Calls.failEach failure ids e.connection.calls e.trace).2.1 }
        trace := (Calls.failEach failure ids e.connection.calls e.trace).2.2 } := by
  induction ids generalizing e with
  | nil => exact .refl hd
  | cons id ids ih =>
    have hresolve := settles_resolve hd id (.error failure)
    exact hresolve.trans (ih hresolve.distinct)

theorem settles_closeWith (hd : e.connection.calls.Distinct) (failure : Failure) :
    Settles e ((closeWith failure).run e).2 := by
  rw [closeWith_run]
  split
  · exact .refl hd
  · let shut : Endpoint α :=
      { connection := { e.connection with closed := true, outbound := e.connection.outbound.clear.2 }
        trace := e.trace.emit .closeSignalled }
    have hshut : Settles e shut := .still hd rfl rfl rfl
    exact hshut.trans (settles_failEach (e := shut) hd failure _)

end Endpoint

-- ---------------------------------------------------------------------------
-- Calls and notifications
-- ---------------------------------------------------------------------------

/-- The connection has given `n` ids, from the first on, and every pending call has one of them. -/
structure Connection.Numbered (c : Connection α) (n : Nat) : Prop where
  distinct : c.calls.Distinct
  nextCallId_eq : c.nextCallId = UInt64.ofNat (n + 1)
  ids : ∀ x ∈ c.calls.entries, x.1 ∈ firstIds n

namespace Connection.Numbered

variable {e e' : Endpoint α} {n : Nat}

theorem settles (h : e.connection.Numbered n) (hsettles : Settles e e') :
    e'.connection.Numbered n where
  distinct := hsettles.distinct
  nextCallId_eq := hsettles.nextCallId_eq.trans h.nextCallId_eq
  ids x hx := h.ids x (hsettles.subset hx)

theorem fresh (h : e.connection.Numbered n) (hn : n < 2 ^ 64) :
    ∀ x ∈ e.connection.calls.entries, x.1 ≠ e.connection.nextCallId := by
  intro x hx heq
  have hnodup := nodup_firstIds (Nat.succ_le_of_lt hn)
  rw [firstIds_succ, List.nodup_append] at hnodup
  exact hnodup.2.2 _ (h.ids x hx) _ (List.mem_singleton_self _) (heq.trans h.nextCallId_eq)

end Connection.Numbered

namespace Endpoint

variable {e : Endpoint α} {n : Nat}

def numbered (e : Endpoint α) : Endpoint α := (takeCallId.run e).2

theorem numbered_numbered (h : e.connection.Numbered n) : e.numbered.connection.Numbered (n + 1) where
  distinct := h.distinct
  nextCallId_eq := by
    change e.connection.nextCallId + 1 = _
    rw [h.nextCallId_eq]
    exact (UInt64.ofNat_add _ 1).symm
  ids x hx := by
    rw [firstIds_succ]
    exact List.mem_append_left _ (h.ids x hx)

/-- An operation that issues something came to `r`: it has added to the counters what it issued if it
was successful, and nothing at all if it failed. -/
structure Posts (e : Endpoint α) (n issued notified : Nat)
    (r : Except Failure UInt64 × Endpoint α) : Prop where
  accounts : ∃ t : Tally, Accounts t e r.2 ∧
    match r.1 with
    | .ok _ => t.issued = issued ∧ t.notified = notified
    | .error _ => t = 0
  numbered : ∃ k ≤ n + 1, r.2.connection.Numbered k

theorem exec_notify (method : String) (payload : Payload α) (e : Endpoint α) :
    (notify method payload).exec e =
      if e.connection.closed then (.error .closed, e)
      else
        match (Message.oneWay e.connection.nextCallId method payload).encode e.connection.codec with
        | .error failure => (.error failure, e.numbered)
        | .ok bytes =>
          match e.numbered.push ⟨none, bytes⟩ with
          | .error fault => (.error (.link fault), e.numbered)
          | .ok (d, e') =>
            (.ok e.connection.nextCallId, ((count Counters.oneWayWasIssued).run (d.finish e')).2) := by
  simp only [notify, LinkM.exec_bind, exec_ensureOpen, LinkM.exec_always, exec_encoded, exec_pushFrame]
  cases e.connection.closed with
  | true => rfl
  | false =>
    simp only [Bool.false_eq_true, if_false]
    have hid : (takeCallId.run e).1 = e.connection.nextCallId := rfl
    have hcodec : (takeCallId.run e).2.connection.codec = e.connection.codec := rfl
    rw [hid, hcodec, ← numbered]
    cases (Message.oneWay e.connection.nextCallId method payload).encode e.connection.codec with
    | error failure => rfl
    | ok bytes =>
      dsimp only
      cases e.numbered.push ⟨none, bytes⟩ with
      | error fault => rfl
      | ok pushed => rfl

theorem accounts_numbered (e : Endpoint α) : Accounts 0 e e.numbered :=
  ⟨(Counters.adding_zero _).symm, rfl⟩

theorem posts_notify (h : e.connection.Numbered n) (method : String) (payload : Payload α) :
    Posts e n 0 1 ((notify method payload).exec e) := by
  have hnumbered := numbered_numbered h
  rw [exec_notify]
  split
  · exact ⟨⟨0, .refl e, rfl⟩, n, Nat.le_succ n, h⟩
  · split
    · exact ⟨⟨0, accounts_numbered e, rfl⟩, n + 1, le_rfl, hnumbered⟩
    · split
      · exact ⟨⟨0, accounts_numbered e, rfl⟩, n + 1, le_rfl, hnumbered⟩
      · next d e' hpush =>
        have hsettles := settles_push hnumbered.distinct hpush
        obtain ⟨t, ht, hissued, hnotified⟩ := hsettles.accounts
        have hcount : Accounts { notified := 1 } (d.finish e')
            ((count Counters.oneWayWasIssued).run (d.finish e')).2 :=
          ⟨Counters.oneWayWasIssued_eq _, rfl⟩
        have hlast := hnumbered.settles hsettles
        refine ⟨⟨_, ((accounts_numbered e).trans ht).trans hcount, ?_⟩, n + 1, le_rfl, hlast⟩
        simp [hissued, hnotified]

theorem exec_invoke (method : String) (payload : Payload α) (timeout : Option Millis)
    (callback : Callback) (e : Endpoint α) :
    (invoke method payload timeout callback).exec e =
      if e.connection.closed then (.error .closed, e)
      else
        let id := e.connection.nextCallId
        match (Message.request id method payload).encode e.connection.codec with
        | .error failure => (.error failure, e.numbered)
        | .ok bytes =>
          let timeout := timeout <|> e.connection.callTimeout
          let entered := ((enterCall id callback timeout).run e.numbered).2
          match entered.push ⟨some id, bytes⟩ with
          | .error fault => (.error (.link fault), ((withdraw id).run entered).2)
          | .ok (d, e') => (rechecked id timeout).exec (d.finish e') := by
  simp only [invoke, LinkM.exec_bind, exec_ensureOpen, LinkM.exec_always, LinkM.exec_get,
    LinkM.exec_tryCatch, exec_encoded, exec_pushFrame]
  cases e.connection.closed with
  | true => rfl
  | false =>
    simp only [Bool.false_eq_true, if_false]
    have hid : (takeCallId.run e).1 = e.connection.nextCallId := rfl
    have hcodec : (takeCallId.run e).2.connection.codec = e.connection.codec := rfl
    rw [hid, hcodec, ← numbered]
    cases (Message.request e.connection.nextCallId method payload).encode e.connection.codec with
    | error failure => rfl
    | ok bytes =>
      dsimp only
      have htimeout : e.numbered.connection.callTimeout = e.connection.callTimeout := rfl
      rw [htimeout]
      cases (((enterCall e.connection.nextCallId callback
        (timeout <|> e.connection.callTimeout)).run e.numbered).2.push
          ⟨some e.connection.nextCallId, bytes⟩) with
      | error fault => rfl
      | ok pushed =>
        simp only [rechecked, armed, LinkM.exec_bind, LinkM.exec_always, isClosed_run]
        rfl

section
variable {id : UInt64} {callback : Callback} {timeout : Option Millis}

theorem settles_arm (hd : e.connection.calls.Distinct) (id : UInt64) (after : Millis) :
    Settles e ((arm id after).run e).2 := by
  have hentries : (e.connection.calls.arm id (e.trace.now + after)).2.entries =
      e.connection.calls.entries := Calls.entries_arm
  simp only [arm, StateT.run, modify, modifyGet, MonadStateOf.modifyGet, StateT.modifyGet]
  revert hentries
  generalize e.connection.calls.arm id (e.trace.now + after) = armed
  obtain ⟨timer, calls⟩ := armed
  intro hentries
  cases timer with
  | none => exact .still hd rfl hentries rfl
  | some timer => exact .still hd rfl hentries rfl

theorem exec_rechecked (hopen : e.connection.closed = false) (hd : e.connection.calls.Distinct) :
    ∃ e', Settles e e' ∧
      (rechecked id timeout).exec e = (.ok id, ((count Counters.callIssued).run e').2) := by
  have harmed : (rechecked id timeout).exec e = (armed id timeout).exec e := by
    simp only [rechecked, LinkM.exec_bind, LinkM.exec_always, isClosed_run, hopen, Bool.false_eq_true,
      if_false]
  rw [harmed]
  cases timeout with
  | none => exact ⟨e, .refl hd, rfl⟩
  | some after => exact ⟨_, settles_arm hd id after, rfl⟩

theorem entries_enterCall (h : ∀ x ∈ e.connection.calls.entries, x.1 ≠ id) :
    ((enterCall id callback timeout).run e).2.connection.calls.entries =
      e.connection.calls.entries ++ [(id, callback)] :=
  Calls.entries_insert_of_fresh h

theorem size_enterCall (h : ∀ x ∈ e.connection.calls.entries, x.1 ≠ id) :
    ((enterCall id callback timeout).run e).2.connection.calls.size = e.connection.calls.size + 1 := by
  rw [← Calls.length_entries, ← Calls.length_entries, entries_enterCall h, List.length_append]
  rfl

theorem numbered_enterCall (h : e.connection.Numbered n) (hn : n < 2 ^ 64) (callback : Callback)
    (timeout : Option Millis) :
    ((enterCall e.connection.nextCallId callback timeout).run e.numbered).2.connection.Numbered
      (n + 1) := by
  have hnumbered := numbered_numbered h
  refine ⟨hnumbered.distinct.insert, hnumbered.nextCallId_eq, fun x hx => ?_⟩
  have hentries := @entries_enterCall _ e.numbered e.connection.nextCallId callback timeout (h.fresh hn)
  rw [hentries] at hx
  obtain hold | hnew := List.mem_append.1 hx
  · exact hnumbered.ids x hold
  · rw [List.mem_singleton.1 hnew, h.nextCallId_eq, firstIds_succ]
    exact List.mem_append_right _ (List.mem_singleton_self _)

theorem withdraw_enterCall (h : ∀ x ∈ e.connection.calls.entries, x.1 ≠ id) :
    ∃ calls : Calls, calls.entries = e.connection.calls.entries ∧
      ((withdraw id).run ((enterCall id callback timeout).run e).2).2 =
        { e with connection := { e.connection with calls } } := by
  have hentries := @entries_enterCall _ e id callback timeout h
  obtain ⟨call, calls, htaken, hrun⟩ | ⟨hnone, -⟩ :=
    withdraw_cases id ((enterCall id callback timeout).run e).2
  · refine ⟨calls, ?_, congrArg Prod.snd hrun⟩
    have hleft := htaken.entries_eq
    rw [Calls.without, hentries, List.filter_append,
      List.filter_eq_self.2 fun x hx => by simpa using h x hx] at hleft
    simpa using hleft
  · refine absurd rfl (hnone (id, callback) ?_)
    rw [entries, hentries]
    exact List.mem_append_right _ (List.mem_singleton_self _)

/-- A call whose frame was refused is taken back, and nothing is counted. -/
theorem posts_refused (h : e.connection.Numbered n) (hn : n < 2 ^ 64) (callback : Callback)
    (timeout : Option Millis) (failure : Failure) :
    Posts e n 1 0 (.error failure, ((withdraw e.connection.nextCallId).run
      ((enterCall e.connection.nextCallId callback timeout).run e.numbered).2).2) := by
  have hnumbered := numbered_numbered h
  have hfresh : ∀ x ∈ e.numbered.connection.calls.entries, x.1 ≠ e.connection.nextCallId := h.fresh hn
  obtain ⟨calls, hcalls, hrun⟩ := @withdraw_enterCall _ _ _ callback timeout hfresh
  have hback : Settles e.numbered
      { e.numbered with connection := { e.numbered.connection with calls } } :=
    .still hnumbered.distinct rfl hcalls rfl
  have hsize : calls.size = e.numbered.connection.calls.size := by
    rw [← Calls.length_entries, ← Calls.length_entries, hcalls]
  have hlast := hnumbered.settles hback
  rw [hrun]
  exact ⟨⟨0, ⟨(Counters.adding_zero _).symm, hsize⟩, rfl⟩, n + 1, le_rfl, hlast⟩

theorem posts_counted {e' : Endpoint α} {id : UInt64} (h : e.connection.Numbered n) (hn : n < 2 ^ 64)
    (hsettles : Settles
      ((enterCall e.connection.nextCallId callback timeout).run e.numbered).2 e') :
    Posts e n 1 0 (.ok id, ((count Counters.callIssued).run e').2) := by
  have hsize := @size_enterCall _ e.numbered _ callback timeout (h.fresh hn)
  have hlast := (numbered_enterCall h hn callback timeout).settles hsettles
  obtain ⟨t, ht, hissued, hnotified⟩ := hsettles.accounts
  refine ⟨⟨t + { issued := 1 }, ⟨?_, ?_⟩, by simp [hissued, hnotified]⟩, n + 1, le_rfl, hlast⟩
  · rw [Counters.adding_add, ← Counters.callIssued_eq]
    exact congrArg Counters.callIssued ht.counters_eq
  · have hbalance := ht.balance
    rw [hissued, hsize] at hbalance
    change e'.connection.calls.size + _ = e.numbered.connection.calls.size + _
    rw [Tally.resolved_add, Tally.issued_add, hissued]
    change e'.connection.calls.size + (t.resolved + 0) = e.numbered.connection.calls.size + (0 + 1)
    omega

end

theorem posts_invoke (h : e.connection.Numbered n) (hn : n < 2 ^ 64) (method : String)
    (payload : Payload α) (timeout : Option Millis) (callback : Callback) :
    Posts e n 1 0 ((invoke method payload timeout callback).exec e) := by
  rw [exec_invoke]
  split
  · exact ⟨⟨0, .refl e, rfl⟩, n, Nat.le_succ n, h⟩
  · next hopen =>
    dsimp only
    split
    · exact ⟨⟨0, accounts_numbered e, rfl⟩, n + 1, le_rfl, numbered_numbered h⟩
    · split
      · exact posts_refused h hn callback _ _
      · next d e' hpush =>
        have hsettles := settles_push (numbered_enterCall h hn callback _).distinct hpush
        have hstill : (d.finish e').connection.closed = false := by
          rw [(d.harmless_finish e').closed_eq, (harmless_push hpush).closed_eq]
          exact Bool.eq_false_iff.2 hopen
        obtain ⟨e'', hlast, hexec⟩ := exec_rechecked hstill hsettles.distinct
        rw [hexec]
        exact posts_counted h hn (hsettles.trans hlast)

end Endpoint
end GraphRpc
