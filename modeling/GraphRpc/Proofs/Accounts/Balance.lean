import Mathlib
import GraphRpc.Proofs.Accounts.Ledger
import GraphRpc.Proofs.Interleaving

/-!
# The accounts of all connections

Connections share the counters. Whatever is done to them, one operation after another, every call that
was issued has been counted with its outcome or is still pending.
-/

namespace GraphRpc

variable {α : Type}

-- ---------------------------------------------------------------------------
-- One operation
-- ---------------------------------------------------------------------------

/-- What is done to a connection at once. -/
inductive Operation (α : Type) where
  | invoke (method : String) (payload : Payload α) (timeout : Option Millis) (awaited : Bool)
  | notify (method : String) (payload : Payload α)
  | respond (request : Message α) (payload : Payload α)
  | complete (message : Message α)
  | expire (timer : Timer)
  | close (failure : Failure)
  | take

namespace Operation

def perform (operation : Operation α) (e : Endpoint α) :
    Option (Except Failure UInt64) × Endpoint α :=
  match operation with
  | invoke method payload timeout awaited =>
    let (callback, e) := (Endpoint.newCallback awaited).run e
    let (result, e) := (Endpoint.invoke method payload timeout callback).exec e
    (some result, e)
  | notify method payload =>
    let (result, e) := (Endpoint.notify method payload).exec e
    (some result, e)
  | respond request payload => (none, ((Endpoint.respond request payload).exec e).2)
  | complete message => (none, ((Endpoint.completeCall message).run e).2)
  | expire timer =>
    (none, if timer.due ≤ e.trace.now then ((Endpoint.expire timer).run e).2 else e)
  | close failure => (none, ((Endpoint.closeWith failure).run e).2)
  | take =>
    match e.connection.outbound.pop? with
    | none => (none, e)
    | some (_, outbound) => (none, { e with connection := { e.connection with outbound } })

def issues : Operation α → Bool
  | invoke .. | notify .. => true
  | respond .. | complete _ | expire _ | close _ | take => false

def notifies : Operation α → Option (Except Failure UInt64) → Nat
  | notify .., some (.ok _) => 1
  | _, _ => 0

theorem notifies_none (operation : Operation α) : operation.notifies none = 0 := by
  cases operation <;> rfl

theorem notifies_le (operation : Operation α) (answer : Option (Except Failure UInt64)) :
    operation.notifies answer ≤ operation.issues.toNat := by
  unfold notifies
  split
  · exact le_rfl
  · exact Nat.zero_le _

/-- The operation, done to `e`, came to `r`, and the counters say so. -/
structure Booked (operation : Operation α) (e : Endpoint α) (n : Nat)
    (r : Option (Except Failure UInt64) × Endpoint α) (t : Tally) : Prop where
  accounts : Accounts t e r.2
  numbered : ∃ k ≤ n + operation.issues.toNat, r.2.connection.Numbered k
  issued_le : t.issued ≤ operation.issues.toNat
  notified_eq : t.notified = operation.notifies r.1
  failed (failure : Failure) : r.1 = some (.error failure) → t = 0

variable {operation : Operation α} {e : Endpoint α} {n : Nat}

theorem booked_of_settles {e' : Endpoint α} (h : e.connection.Numbered n)
    (hsettles : Settles e e') : ∃ t, operation.Booked e n (none, e') t := by
  obtain ⟨t, ht, hissued, hnotified⟩ := hsettles.accounts
  exact ⟨t, ht, ⟨n, Nat.le_add_right .., h.settles hsettles⟩, by simp [hissued],
    hnotified.trans operation.notifies_none.symm, nofun⟩

theorem booked_of_posts {r : Except Failure UInt64 × Endpoint α} {issued notified : Nat}
    (hposts : Endpoint.Posts e n issued notified r) (hissues : operation.issues)
    (hissued : issued ≤ 1) (hok : ∀ id, operation.notifies (some (.ok id)) = notified)
    (herror : ∀ failure, operation.notifies (some (.error failure)) = 0) :
    ∃ t, operation.Booked e n (some r.1, r.2) t := by
  obtain ⟨⟨t, ht, hanswer⟩, hnumbered⟩ := hposts
  obtain ⟨answer, e'⟩ := r
  refine ⟨t, ht, by rwa [hissues], ?_, ?_, ?_⟩
  · cases answer with
    | ok id => rw [hissues, hanswer.1]; exact hissued
    | error failure => rw [hanswer]; exact Nat.zero_le _
  · cases answer with
    | ok id => exact hanswer.2.trans (hok id).symm
    | error failure => rw [hanswer, herror]; rfl
  · rintro failure heq
    cases Option.some.inj heq
    exact hanswer

theorem booked (operation : Operation α) (h : e.connection.Numbered n) (hn : n < 2 ^ 64) :
    ∃ t, operation.Booked e n (operation.perform e) t := by
  have hd := h.distinct
  cases operation with
  | invoke method payload timeout awaited =>
    -- Giving out a callback leaves the connection and the counters alone.
    let called : Endpoint α := ((Endpoint.newCallback awaited).run e).2
    have hcalled : called.connection.Numbered n := h
    obtain ⟨t, hbooked⟩ : ∃ t, (invoke method payload timeout awaited).Booked called n _ t :=
      booked_of_posts (Endpoint.posts_invoke hcalled hn method payload timeout _) rfl le_rfl
        (fun _ => rfl) fun _ => rfl
    exact ⟨t, ⟨hbooked.accounts.counters_eq, hbooked.accounts.balance⟩, hbooked.numbered,
      hbooked.issued_le, hbooked.notified_eq, hbooked.failed⟩
  | notify method payload =>
    exact booked_of_posts (Endpoint.posts_notify h method payload) rfl (Nat.zero_le 1) (fun _ => rfl)
      fun _ => rfl
  | respond request payload => exact booked_of_settles h (Endpoint.settles_respond hd ..)
  | complete message => exact booked_of_settles h (Endpoint.settles_completeCall hd _)
  | expire timer =>
    refine booked_of_settles h ?_
    split
    · exact Endpoint.settles_expire hd timer
    · exact .refl hd
  | close failure => exact booked_of_settles h (Endpoint.settles_closeWith hd _)
  | take =>
    simp only [perform]
    split
    · exact booked_of_settles h (.refl hd)
    · exact booked_of_settles h (.still hd rfl rfl rfl)

end Operation

-- ---------------------------------------------------------------------------
-- All connections
-- ---------------------------------------------------------------------------

structure Hub (α : Type) where
  connections : List (Connection α)
  trace : Trace α := {}

inductive HubAction (α : Type) where
  | on (i : Nat) (operation : Operation α)
  | pass (ms : Millis)

namespace HubAction

def issues : HubAction α → Bool
  | on _ operation => operation.issues
  | pass _ => false

def notifies : HubAction α → Option (Except Failure UInt64) → Nat
  | on _ operation, answer => operation.notifies answer
  | pass _, _ => 0

end HubAction

/-- A new connection, with its settings. -/
def Connection.IsNew (c : Connection α) : Prop :=
  ∃ codec policy capacity callTimeout, c = { codec, outbound := { policy, capacity }, callTimeout }

namespace Hub

def act (s : Hub α) : HubAction α → Option (Except Failure UInt64) × Hub α
  | .on i operation =>
    match s.connections[i]? with
    | none => (none, s)
    | some connection =>
      let (answer, e) := operation.perform ⟨connection, s.trace⟩
      (answer, { connections := s.connections.set i e.connection, trace := e.trace })
  | .pass ms => (none, { s with trace := { s.trace with now := s.trace.now + ms } })

def run (s : Hub α) (actions : List (HubAction α)) : Hub α :=
  actions.foldl (fun s action => (s.act action).2) s

def notified (s : Hub α) : List (HubAction α) → Nat
  | [] => 0
  | action :: actions => action.notifies (s.act action).1 + notified (s.act action).2 actions

def pending (s : Hub α) : Nat := (s.connections.map (·.calls.size)).sum

/-- The counters say `t`, which is in keeping with the calls that are pending, after `n` calls and
notifications at most. -/
structure Balanced (s : Hub α) (n : Nat) (t : Tally) : Prop where
  counters_eq : s.trace.counters = Counters.adding {} t
  balance : s.pending + t.resolved = t.issued
  issued_le : t.issued ≤ n
  notified_le : t.notified ≤ n
  numbered : ∀ c ∈ s.connections, ∃ k ≤ n, c.Numbered k

variable {s : Hub α} {n : Nat} {t : Tally}

theorem balanced_ofNew {connections : List (Connection α)} (hnew : ∀ c ∈ connections, c.IsNew) :
    ({ connections } : Hub α).Balanced 0 0 where
  counters_eq := rfl
  balance := by
    refine List.sum_eq_zero (List.forall_mem_map.2 fun c hc => ?_)
    obtain ⟨codec, policy, capacity, callTimeout, rfl⟩ := hnew c hc
    rfl
  issued_le := le_rfl
  notified_le := le_rfl
  numbered c hc := by
    obtain ⟨codec, policy, capacity, callTimeout, rfl⟩ := hnew c hc
    exact ⟨0, le_rfl, List.nodup_nil, rfl, nofun⟩

theorem pending_set {i : Nat} {c : Connection α} (h : s.connections[i]? = some c)
    (c' : Connection α) (trace : Trace α) :
    ({ connections := s.connections.set i c', trace } : Hub α).pending + c.calls.size =
      s.pending + c'.calls.size := by
  obtain ⟨pre, post, hconnections, hset⟩ := exists_split h
  rw [pending, pending, hset, hconnections]
  simp only [List.map_append, List.map_cons, List.sum_append, List.sum_cons]
  omega

/-- Every action adds to the tally what it issued, and nothing if it failed. -/
theorem Balanced.act (h : s.Balanced n t) (hn : n < 2 ^ 64) (action : HubAction α) :
    ∃ t', (s.act action).2.Balanced (n + action.issues.toNat) (t + t') ∧
      t'.notified = action.notifies (s.act action).1 ∧
      ∀ failure, (s.act action).1 = some (.error failure) → t' = 0 := by
  cases action with
  | pass ms => exact ⟨0, ⟨h.counters_eq, h.balance, h.issued_le, h.notified_le, h.numbered⟩, rfl, nofun⟩
  | on i operation =>
    simp only [Hub.act, HubAction.issues, HubAction.notifies]
    cases hconnection : s.connections[i]? with
    | none =>
      have hle : n ≤ n + operation.issues.toNat := Nat.le_add_right ..
      refine ⟨0, ⟨h.counters_eq, h.balance, h.issued_le.trans hle, h.notified_le.trans hle, ?_⟩,
        operation.notifies_none.symm, nofun⟩
      exact fun c hc => (h.numbered c hc).imp fun _ hk => ⟨hk.1.trans hle, hk.2⟩
    | some c =>
      obtain ⟨k, hk, hc⟩ := h.numbered c (List.mem_of_getElem? hconnection)
      obtain ⟨t', hbooked⟩ := operation.booked (e := ⟨c, s.trace⟩) hc (hk.trans_lt hn)
      dsimp only
      generalize operation.perform ⟨c, s.trace⟩ = r at hbooked ⊢
      obtain ⟨answer, e'⟩ := r
      have hpending := pending_set hconnection e'.connection e'.trace
      have hbalance := h.balance
      have hbooks := hbooked.accounts.balance
      have hnotified := hbooked.notified_eq.trans_le (operation.notifies_le _)
      refine ⟨t', ⟨?_, ?_, ?_, ?_, ?_⟩, hbooked.notified_eq, hbooked.failed⟩
      · rw [Counters.adding_add, ← h.counters_eq]
        exact hbooked.accounts.counters_eq
      · rw [Tally.resolved_add, Tally.issued_add]
        dsimp only at hbooks hpending ⊢
        omega
      · exact Nat.add_le_add h.issued_le hbooked.issued_le
      · exact Nat.add_le_add h.notified_le hnotified
      · intro c' hc'
        obtain hold | rfl := List.mem_or_eq_of_mem_set hc'
        · exact (h.numbered c' hold).imp fun _ hk => ⟨hk.1.trans (Nat.le_add_right ..), hk.2⟩
        · obtain ⟨k', hk', hnumbered⟩ := hbooked.numbered
          exact ⟨k', hk'.trans (Nat.add_le_add_right hk _), hnumbered⟩

theorem Balanced.run (h : s.Balanced n t) (actions : List (HubAction α))
    (hfew : n + actions.countP HubAction.issues < 2 ^ 64) :
    ∃ t', (s.run actions).Balanced (n + actions.countP HubAction.issues) t' ∧
      t'.notified = t.notified + s.notified actions := by
  induction actions generalizing s n t with
  | nil => exact ⟨t, h, rfl⟩
  | cons action actions ih =>
    have hcount : n + (action :: actions).countP HubAction.issues =
        n + action.issues.toNat + actions.countP HubAction.issues := by
      have hone : (if action.issues then 1 else 0) = action.issues.toNat := by
        cases action.issues <;> rfl
      rw [List.countP_cons, hone, Nat.add_assoc, Nat.add_comm action.issues.toNat]
    rw [hcount] at hfew ⊢
    obtain ⟨t', hact, hnotified, -⟩ := h.act (by omega) action
    obtain ⟨last, hlast, htotal⟩ := ih hact hfew
    refine ⟨last, hlast, ?_⟩
    rw [htotal, Tally.notified_add, hnotified, notified, Nat.add_assoc]

theorem toNat_adding {c : Nat} (h : c < 2 ^ 64) : (0 + UInt64.ofNat c).toNat = c := by
  rw [UInt64.zero_add, UInt64.toNat_ofNat', Nat.mod_eq_of_lt h]

/-- Whatever is done to any number of new connections, the calls that were issued are those that were
counted with an outcome and those that are pending, the notifications that were counted are those that
were sent, and what fails is not counted. -/
theorem run_balanced {connections : List (Connection α)} (hnew : ∀ c ∈ connections, c.IsNew)
    {actions : List (HubAction α)} (hfew : actions.countP HubAction.issues < 2 ^ 64) :
    let start : Hub α := { connections }
    let counters := (start.run actions).trace.counters
    counters.callsIssued.toNat =
      counters.callsCompleted.toNat + counters.callsTimedOut.toNat + counters.callsFailed.toNat +
        (start.run actions).pending ∧
    counters.oneWayIssued.toNat = start.notified actions ∧
    ∀ before action after failure, actions = before ++ action :: after →
      ((start.run before).act action).1 = some (.error failure) →
        ((start.run before).act action).2.trace.counters = (start.run before).trace.counters := by
  intro start counters
  have hstart : start.Balanced 0 0 := balanced_ofNew hnew
  obtain ⟨t, hrun, hnotified⟩ := hstart.run actions (by omega)
  have hissued := hrun.issued_le
  have hbalance := hrun.balance
  have hsent := hrun.notified_le
  have hresolved : t.resolved = t.completed + t.timedOut + t.failed := rfl
  have hcounters : counters = Counters.adding {} t := hrun.counters_eq
  refine ⟨?_, ?_, ?_⟩
  · simp only [hcounters, Counters.adding]
    rw [toNat_adding, toNat_adding, toNat_adding, toNat_adding] <;> omega
  · simp only [hcounters, Counters.adding]
    rw [toNat_adding (by omega), hnotified, Tally.notified_zero, Nat.zero_add]
  · rintro before action after failure rfl hfailed
    rw [List.countP_append] at hfew
    obtain ⟨t', hbefore, -⟩ := hstart.run before (by omega)
    obtain ⟨last, hact, -, hnothing⟩ := hbefore.act (by omega) action
    rw [hact.counters_eq, hbefore.counters_eq, hnothing failure hfailed]
    rfl

/-- One connection makes room for new frames, the other one refuses them and lets calls take five
milliseconds. -/
def twoPolicies : List (Connection Empty) :=
  [{ codec := ⟨{}, .generic⟩, outbound := { policy := .dropOldest, capacity := 1 } },
    { codec := ⟨{}, .generic⟩, outbound := { policy := .rejectNew, capacity := 1 }, callTimeout := some 5 }]

/-- A call is pushed out by the next one, which is answered. Another one passes its deadline while a
notification is refused and, once there is room, another one is sent. The last call is pending. -/
def everyOutcome : List (HubAction Empty) :=
  [.on 0 (.invoke "first" .empty none true), .on 0 (.invoke "second" .empty none true),
    .on 0 (.complete { kind := .response, callId := 2, method := "second", payload := .empty }),
    .on 1 (.invoke "slow" .empty none true), .on 1 (.notify "news" .empty), .pass 5,
    .on 1 (.expire ⟨0, 1, 5⟩), .on 1 .take, .on 1 (.notify "news" .empty),
    .on 0 (.invoke "last" .empty none true)]

theorem run_balanced_everyOutcome :
    (∀ c ∈ twoPolicies, c.IsNew) ∧ everyOutcome.countP HubAction.issues < 2 ^ 64 ∧
    let start : Hub Empty := { connections := twoPolicies }
    let counters := (start.run everyOutcome).trace.counters
    counters.callsIssued.toNat =
      counters.callsCompleted.toNat + counters.callsTimedOut.toNat + counters.callsFailed.toNat +
        (start.run everyOutcome).pending ∧
    counters.oneWayIssued.toNat = start.notified everyOutcome := by
  have hnew : ∀ c ∈ twoPolicies, c.IsNew :=
    List.forall_mem_cons.2 ⟨⟨_, _, _, _, rfl⟩, List.forall_mem_singleton.2 ⟨_, _, _, _, rfl⟩⟩
  have hfew : everyOutcome.countP HubAction.issues < 2 ^ 64 := by decide
  obtain ⟨hcalls, hnotifications, -⟩ := run_balanced hnew hfew
  exact ⟨hnew, hfew, hcalls, hnotifications⟩

example : (({ connections := twoPolicies } : Hub Empty).run everyOutcome).trace.counters =
    { callsIssued := 4, callsCompleted := 1, callsTimedOut := 1, callsFailed := 1, oneWayIssued := 1 } := by
  cbv

end Hub
end GraphRpc
