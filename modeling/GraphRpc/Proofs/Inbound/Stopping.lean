import Mathlib
import GraphRpc.Proofs.Inbound.Harmless
import GraphRpc.Proofs.Inbound.Readout
import GraphRpc.Proofs.Peers.Origins

/-!
# Stopping

What a reader does when it stops: it reports what is wrong with the stream, if anything is, and closes
the connection, which tells every pending call.
-/

namespace GraphRpc

variable {α : Type}

-- ---------------------------------------------------------------------------
-- Closing
-- ---------------------------------------------------------------------------

/-- What a connection comes to that is closed because of a fault or without one. -/
structure Stopped (fault : Option Failure) (e e' : Endpoint α) : Prop where
  closed : e'.connection.closed
  faults_eq : e'.trace.faults = e.trace.faults ++ fault.toList
  pending_eq_nil : e'.connection.calls.pending = []
  outcomes_eq : e'.trace.outcomes = e.trace.outcomes ++
    e.connection.calls.pending.map fun call => (call.callback, .error .closed)

/-- Failing every call that is pending empties the table and tells each of them once. -/
theorem Calls.failEach_pending (failure : Failure) {pending : List PendingCall} {calls : Calls}
    {t : Trace α} (hpending : calls.pending = pending) (hd : (pending.map (·.callId)).Nodup) :
    let failed := failEach failure (pending.map (·.callId)) calls t
    failed.2.1.pending = [] ∧ failed.2.2.faults = t.faults ∧
      failed.2.2.outcomes =
        t.outcomes ++ pending.map fun call => (call.callback, .error failure) := by
  induction pending generalizing calls t with
  | nil => exact ⟨hpending, rfl, (List.append_nil _).symm⟩
  | cons call pending ih =>
    rw [List.map_cons, List.nodup_cons] at hd
    have hothers : pending.filter (·.callId != call.callId) = pending := by
      refine List.filter_eq_self.2 fun other hother => ?_
      have hne : other.callId ≠ call.callId := fun heq =>
        hd.1 (heq ▸ List.mem_map_of_mem hother)
      simpa using hne
    have htake : calls.take? call.callId =
        some (call, stopTimer { calls with pending } call.timer) := by
      simp [take?, claim?, find?, hpending, hothers]
    obtain ⟨hnil, hfaults, houtcomes⟩ := @ih (stopTimer { calls with pending } call.timer)
      (t.finish call.callback (.error failure)) rfl hd.2
    simp only [List.map_cons, failEach, resolve, htake]
    refine ⟨hnil, hfaults.trans (Trace.faults_finish ..), houtcomes.trans ?_⟩
    rw [Trace.outcomes_finish, List.append_assoc]
    rfl

theorem Endpoint.close_run {e : Endpoint α} (hopen : e.connection.closed = false) :
    (close.run e).2 =
      { connection := { e.connection with
          closed := true
          outbound := e.connection.outbound.clear.2
          calls := (e.connection.calls.failAll (e.trace.emit .closeSignalled) .closed).2.1 }
        trace := (e.connection.calls.failAll (e.trace.emit .closeSignalled) .closed).2.2 } := by
  simp only [close, closeWith, StateT.run_bind]
  rw [isClosed_run, hopen]
  rfl

theorem Endpoint.close_run_closed {e : Endpoint α} (hclosed : e.connection.closed) :
    (close.run e).2 = e := by
  simp only [close, closeWith, StateT.run_bind]
  rw [isClosed_run, hclosed]
  rfl

section
variable {e : Endpoint α}

theorem stopped_close (hopen : e.connection.closed = false) (hd : e.connection.calls.Distinct) :
    Stopped none e (Endpoint.close.run e).2 := by
  have hnodup : (e.connection.calls.pending.map (·.callId)).Nodup := by
    simpa [Calls.Distinct, Calls.entries, Function.comp_def] using hd
  obtain ⟨hnil, hfaults, houtcomes⟩ :=
    @Calls.failEach_pending α .closed _ _ (e.trace.emit .closeSignalled) rfl hnodup
  rw [Trace.faults_emit] at hfaults
  rw [Trace.outcomes_emit] at houtcomes
  rw [Endpoint.close_run hopen]
  exact ⟨rfl, hfaults, hnil, houtcomes.trans (congrArg (· ++ _) (List.append_nil _))⟩

def Endpoint.reported (e : Endpoint α) (why : Failure) : Endpoint α :=
  { e with trace := (e.trace.count Counters.decodeFailed).emit (.faulted why) }

theorem Endpoint.readFailed_run (hopen : e.connection.closed = false) (why : Failure) :
    ((readFailed why).run e).2 = (close.run (e.reported why)).2 := by
  have hreported : (e.reported why).connection.closed = false := hopen
  have hclosed : (close.run (e.reported why)).2.connection.closed := by
    rw [close_run hreported]
  have hcount : (count Counters.decodeFailed).run e =
      (pure ((), { e with trace := e.trace.count Counters.decodeFailed }) : Id _) := rfl
  -- Closing a second time does nothing.
  rw [← close_run_closed hclosed]
  simp only [readFailed, fail, StateT.run_bind]
  rw [hcount, pure_bind, isClosed_run, hopen]
  rfl

theorem stopped_readFailed (hopen : e.connection.closed = false) (hd : e.connection.calls.Distinct)
    (why : Failure) : Stopped (some why) e ((Endpoint.readFailed why).run e).2 := by
  have hreported : (e.reported why).connection.closed = false := hopen
  obtain ⟨hclosed, hfaults, hnil, houtcomes⟩ := stopped_close hreported hd
  rw [Endpoint.readFailed_run hopen]
  refine ⟨hclosed, ?_, hnil, ?_⟩
  · rw [hfaults, Endpoint.reported, Trace.faults_emit]
    exact List.append_nil _
  · rw [houtcomes, Endpoint.reported, Trace.outcomes_emit]
    exact congrArg (· ++ _) (List.append_nil _)

def Stop.act : Stop → StateM (Endpoint α) Unit
  | undecodable size why => do
    Endpoint.count (Counters.frameReceived size)
    Endpoint.readFailed why
  | unframed why => Endpoint.readFailed (.frame why)
  | leftover => Endpoint.readFailed (.stream .leftover)
  | ended => Endpoint.close

theorem Stop.stopped (stop : Stop) (hopen : e.connection.closed = false)
    (hd : e.connection.calls.Distinct) : Stopped stop.fault? e (stop.act.run e).2 := by
  cases stop with
  | undecodable size why =>
    -- Counting the frame leaves alone what is at stake.
    let counted : Endpoint α := { e with trace := e.trace.count (Counters.frameReceived size) }
    have hcounted : counted.connection.closed = false := hopen
    obtain ⟨hclosed, hfaults, hnil, houtcomes⟩ := stopped_readFailed hcounted hd why
    exact ⟨hclosed, hfaults, hnil, houtcomes⟩
  | unframed why => exact stopped_readFailed hopen hd _
  | leftover => exact stopped_readFailed hopen hd _
  | ended => exact stopped_close hopen hd

end

end GraphRpc
