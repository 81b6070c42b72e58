import Mathlib
import GraphRpc.Proofs.Peers.Origins

/-!
# Numbering of calls

Calls get the ids from 1 on in the order in which they ask for them, and each has a callback of its
own. So long as the numbers of 64 bits last, an id stands for one call.
-/

namespace GraphRpc

variable {α : Type}

-- ---------------------------------------------------------------------------
-- Steps that take no id
-- ---------------------------------------------------------------------------

section
variable {e e' : Endpoint α}

theorem Endpoint.withdraw_nextCallId (id : UInt64) (e : Endpoint α) :
    ((Endpoint.withdraw id).run e).2.connection.nextCallId = e.connection.nextCallId := by
  obtain ⟨call, calls, -, hrun⟩ | ⟨-, hrun⟩ := withdraw_cases id e <;> rw [hrun]

theorem Deciding.step_nextCallId (d : Deciding α) (e : Endpoint α) :
    (d.step e).2.connection.nextCallId = e.connection.nextCallId := by
  cases d with
  | taking id outcome =>
    obtain ⟨call, calls, -, hrun⟩ | ⟨-, hrun⟩ := withdraw_cases id e <;> simp only [step, hrun]
  | telling call outcome => rfl
  | done => rfl

theorem Endpoint.push_nextCallId {frame : OutboundFrame} {d : Deciding α}
    (h : e.push frame = .ok (d, e')) : e'.connection.nextCallId = e.connection.nextCallId := by
  unfold push at h
  split at h
  · cases h
  · cases h
    rfl

theorem Endpoint.arm_nextCallId (id : UInt64) (after : Millis) (e : Endpoint α) :
    ((Endpoint.arm id after).run e).2.connection.nextCallId = e.connection.nextCallId := by
  simp only [Endpoint.arm, StateT.run, modify, modifyGet, MonadStateOf.modifyGet, StateT.modifyGet]
  generalize e.connection.calls.arm id (e.trace.now + after) = armed
  obtain ⟨timer, calls⟩ := armed
  cases timer <;> rfl

end

/-- A step takes no id, or it takes the next one for its own call. -/
inductive Party.Takes (p p' : Party α) (e e' : Endpoint α) : Prop
  | nothing (hissue : p'.issue? = p.issue?)
    (hnext : e'.connection.nextCallId = e.connection.nextCallId)
  | next (hnone : p.issue? = none) (x : Issue α) (hissue : p'.issue? = some x)
    (hid : x.id = e.connection.nextCallId)
    (hnext : e'.connection.nextCallId = e.connection.nextCallId + 1)

theorem Invocation.step_takes (call : Invocation α) (e : Endpoint α) :
    Party.Takes (.invoke call) (.invoke { call with phase := (call.step e).1 }) e (call.step e).2 := by
  obtain ⟨method, payload, timeout, callback, phase⟩ := call
  cases phase with
  | opening =>
    simp only [step]
    split <;> exact .nothing rfl rfl
  | numbering => exact .next rfl ⟨e.connection.nextCallId, method, payload, callback⟩ rfl rfl rfl
  | encoding id =>
    simp only [step]
    split <;> exact .nothing rfl rfl
  | entering id bytes => exact .nothing rfl rfl
  | pushing id bytes =>
    simp only [step]
    split
    · next hpush => exact .nothing rfl (Endpoint.push_nextCallId hpush)
    · exact .nothing rfl rfl
  | refused id failure => exact .nothing rfl (Endpoint.withdraw_nextCallId id e)
  | evicting id d =>
    by_cases hd : d = .done
    · subst hd
      exact .nothing rfl rfl
    · rw [step_evicting rfl hd]
      exact .nothing rfl (d.step_nextCallId e)
  | rechecking id =>
    simp only [step]
    split <;> exact .nothing rfl rfl
  | withdrawing id =>
    have hsame := Endpoint.withdraw_nextCallId id e
    simp only [step]
    split
    · next hrun =>
      rw [hrun] at hsame
      exact .nothing rfl hsame
    · next hrun =>
      rw [hrun] at hsame
      exact .nothing rfl hsame
  | arming id =>
    simp only [step]
    split
    · exact .nothing rfl (Endpoint.arm_nextCallId ..)
    · exact .nothing rfl rfl
  | returned id result => exact .nothing rfl rfl

theorem ClosingPhase.step_nextCallId (phase : ClosingPhase α) (failure : Failure) (seen : List UInt64)
    (e : Endpoint α) :
    (phase.step failure seen e).2.connection.nextCallId = e.connection.nextCallId := by
  cases phase with
  | swapping | iterating =>
    simp only [step]
    split <;> rfl
  | signalling | clearing | listing | returned => rfl
  | failing ids d =>
    by_cases hd : d = .done
    · subst hd
      cases ids <;> rfl
    · rw [step_failing hd]
      exact d.step_nextCallId e

theorem SendPhase.step_nextCallId (phase : SendPhase α) (e : Endpoint α) :
    (phase.step e).2.connection.nextCallId = e.connection.nextCallId := by
  cases phase with
  | pushing bytes =>
    simp only [step]
    split
    · next hpush => exact Endpoint.push_nextCallId hpush
    · rfl
  | evicting d => exact d.step_nextCallId e

theorem Party.step_takes (p : Party α) (seen : List UInt64) (e : Endpoint α) :
    p.Takes (p.step seen e).1 e (p.step seen e).2 := by
  cases p with
  | invoke call => exact call.step_takes e
  | answer d => exact .nothing rfl (d.step_nextCallId e)
  | close failure phase => exact .nothing rfl (phase.step_nextCallId failure seen e)
  | send phase => exact .nothing rfl (phase.step_nextCallId e)

-- ---------------------------------------------------------------------------
-- All calls of one side
-- ---------------------------------------------------------------------------

def Party.number? : Party α → Option Nat
  | invoke call => some call.callback.number
  | _ => none

theorem Party.number?_step (p : Party α) (seen : List UInt64) (e : Endpoint α) :
    (p.step seen e).1.number? = p.number? := by
  cases p <;> rfl

/-- The first `n` ids that calls get. -/
def firstIds (n : Nat) : List UInt64 := (List.range n).map fun k => UInt64.ofNat (k + 1)

theorem firstIds_succ (n : Nat) : firstIds (n + 1) = firstIds n ++ [UInt64.ofNat (n + 1)] := by
  rw [firstIds, List.range_succ, List.map_append]
  rfl

theorem nodup_firstIds (h : n ≤ 2 ^ 64) : (firstIds n).Nodup := by
  refine List.Nodup.map_on ?_ List.nodup_range
  intro i hi j hj heq
  rw [List.mem_range] at hi hj
  have hmod := congrArg UInt64.toNat heq
  rw [UInt64.toNat_ofNat', UInt64.toNat_ofNat'] at hmod
  omega

namespace Traffic

variable {s : Traffic α}

/-- Ids are given in order, and callbacks are not given twice. -/
structure Numbered (s : Traffic α) : Prop where
  callbacks : (s.parties.filterMap Party.number?).Nodup
  below : ∀ n ∈ s.parties.filterMap Party.number?, n < s.endpoint.trace.nextCallback
  ids : (s.issues.map Issue.id).Perm (firstIds s.issues.length)
  next : s.endpoint.connection.nextCallId = UInt64.ofNat (s.issues.length + 1)

theorem numbered_start (codec : Codec α) (outbound : Outbound) (callTimeout : Option Millis) :
    (start codec outbound callTimeout).Numbered where
  callbacks := List.nodup_nil
  below _ hn := nomatch hn
  ids := .refl _
  next := rfl

theorem Numbered.begin {p : Party α} {next : Nat} (h : s.Numbered) (hissue : p.issue? = none)
    (hnumber : ∀ n, p.number? = some n → n = s.endpoint.trace.nextCallback ∧ n < next)
    (hnext : s.endpoint.trace.nextCallback ≤ next) :
    Numbered { s with
      endpoint := { s.endpoint with trace := { s.endpoint.trace with nextCallback := next } }
      parties := s.parties ++ [p] } := by
  have hissues : (s.parties ++ [p]).filterMap Party.issue? = s.issues := by
    rw [List.filterMap_append, List.filterMap_cons_none hissue, List.filterMap_nil, List.append_nil]
    rfl
  have hids := h.ids
  have hlast := h.next
  rw [← hissues] at hids hlast
  cases hp : p.number? with
  | none =>
    have hnumbers : (s.parties ++ [p]).filterMap Party.number? = s.parties.filterMap Party.number? := by
      rw [List.filterMap_append, List.filterMap_cons_none hp, List.filterMap_nil, List.append_nil]
    refine ⟨?_, ?_, hids, hlast⟩
    · rw [hnumbers]
      exact h.callbacks
    · intro n hn
      rw [hnumbers] at hn
      exact Nat.lt_of_lt_of_le (h.below n hn) hnext
  | some n =>
    obtain ⟨rfl, hlt⟩ := hnumber n hp
    have hnumbers : (s.parties ++ [p]).filterMap Party.number? =
        s.parties.filterMap Party.number? ++ [s.endpoint.trace.nextCallback] := by
      rw [List.filterMap_append, List.filterMap_cons_some hp, List.filterMap_nil]
    refine ⟨?_, ?_, hids, hlast⟩
    · rw [hnumbers, ← List.concat_eq_append]
      exact h.callbacks.concat fun hmem => Nat.lt_irrefl _ (h.below _ hmem)
    · intro n hn
      rw [hnumbers] at hn
      rcases List.mem_append.1 hn with hn | hn
      · exact Nat.lt_of_lt_of_le (h.below n hn) hnext
      · rw [List.mem_singleton.1 hn]
        exact hlt

theorem Numbered.still {e : Endpoint α} {claimed : List Callback} (h : s.Numbered)
    (hcallback : e.trace.nextCallback = s.endpoint.trace.nextCallback)
    (hnext : e.connection.nextCallId = s.endpoint.connection.nextCallId) :
    Numbered { s with endpoint := e, claimed } :=
  ⟨h.callbacks, fun n hn => hcallback ▸ h.below n hn, h.ids, hnext.trans h.next⟩

theorem Numbered.step {i : Nat} {p p' : Party α} {e : Endpoint α} (h : s.Numbered)
    (hp : s.parties[i]? = some p) (hnumber : p'.number? = p.number?)
    (hcallback : e.trace.nextCallback = s.endpoint.trace.nextCallback)
    (htakes : p.Takes p' s.endpoint e) :
    Numbered { s with endpoint := e, parties := s.parties.set i p' } := by
  obtain ⟨pre, post, hparties, hset⟩ := exists_split hp
  have hnumbers : (s.parties.set i p').filterMap Party.number? =
      s.parties.filterMap Party.number? := by
    rw [hset, hparties]
    simp only [List.filterMap_append, List.filterMap_cons, hnumber]
  have hbelow : ∀ n ∈ (s.parties.set i p').filterMap Party.number?, n < e.trace.nextCallback := by
    intro n hn
    rw [hnumbers] at hn
    exact hcallback ▸ h.below n hn
  have hids := h.ids
  have hlast := h.next
  simp only [issues, hparties] at hids hlast
  cases htakes with
  | nothing hissue hnext =>
    have hissues : (s.parties.set i p').filterMap Party.issue? =
        (pre ++ p :: post).filterMap Party.issue? := by
      rw [hset]
      simp only [List.filterMap_append, List.filterMap_cons, hissue]
    refine ⟨hnumbers ▸ h.callbacks, hbelow, ?_, ?_⟩
    · simp only [issues, hissues]
      exact hids
    · simp only [issues, hissues]
      exact hnext.trans hlast
  | next hnone x hissue hid hnext =>
    rw [List.filterMap_append, List.filterMap_cons_none hnone, ← List.filterMap_append] at hids hlast
    -- Among the operations the call may stand anywhere, but its id is the last one.
    have hissues : ((s.parties.set i p').filterMap Party.issue?).Perm
        ((pre ++ post).filterMap Party.issue? ++ [x]) := by
      rw [hset, List.filterMap_append, List.filterMap_cons_some hissue, List.filterMap_append]
      exact List.perm_middle.trans (List.perm_append_singleton ..).symm
    have hlength : ((s.parties.set i p').filterMap Party.issue?).length =
        ((pre ++ post).filterMap Party.issue?).length + 1 := by
      rw [hissues.length_eq, List.length_append, List.length_singleton]
    refine ⟨hnumbers ▸ h.callbacks, hbelow, ?_, ?_⟩
    · simp only [issues, hlength, firstIds_succ]
      refine (hissues.map Issue.id).trans ?_
      rw [List.map_append, List.map_singleton, hid, hlast]
      exact hids.append_right _
    · simp only [issues, hlength]
      rw [hnext, hlast]
      exact (UInt64.ofNat_add _ 1).symm

theorem Numbered.act (h : s.Numbered) (a : TrafficAction α) : (s.act a).Numbered := by
  cases a with
  | invoke method payload timeout awaited =>
    refine h.begin rfl ?_ (Nat.le_succ _)
    rintro _ ⟨⟩
    exact ⟨rfl, Nat.lt_succ_self _⟩
  | answer | close | send => exact h.begin rfl nofun (Nat.le_refl _)
  | step i seen =>
    simp only [Traffic.act]
    split
    · exact h
    · next p hp =>
      exact h.step hp (p.number?_step ..) (p.move seen s.endpoint).next_eq (p.step_takes ..)
  | fire timer =>
    simp only [Traffic.act]
    split
    · cases hfire : s.endpoint.connection.calls.fire timer with
      | mk call calls =>
        rw [Endpoint.timeOut_run hfire]
        exact h.still rfl rfl
    · exact h
  | deliver i =>
    simp only [Traffic.act]
    split
    · exact h
    · exact h.still rfl rfl
  | pop =>
    simp only [Traffic.act]
    split
    · exact h
    · exact h.still rfl rfl
  | pass ms => exact h.still rfl rfl

-- ---------------------------------------------------------------------------
-- One call to a number
-- ---------------------------------------------------------------------------

theorem number?_of_issue? {p : Party α} {x : Issue α} (h : p.issue? = some x) :
    p.number? = some x.callback.number := by
  cases p with
  | invoke call =>
    obtain ⟨id, -, rfl⟩ := Option.map_eq_some_iff.1 h
    rfl
  | answer | close | send => cases h

/-- A callback stands for one call. -/
theorem Numbered.eq_of_callback (h : s.Numbered) {x y : Issue α} (hx : x ∈ s.issues) (hy : y ∈ s.issues)
    (heq : x.callback = y.callback) : x = y := by
  have hsub (l : List (Party α)) : ((l.filterMap Party.issue?).map (·.callback.number)).Sublist
      (l.filterMap Party.number?) := by
    induction l with
    | nil => exact List.Sublist.refl _
    | cons p l ih =>
      cases hissue : p.issue? with
      | none =>
        rw [List.filterMap_cons_none hissue]
        exact ih.trans ((List.sublist_cons_self ..).filterMap _)
      | some x =>
        rw [List.filterMap_cons_some hissue, List.filterMap_cons_some (number?_of_issue? hissue)]
        exact ih.cons_cons _
  have hnodup := h.callbacks.sublist (hsub s.parties)
  exact List.inj_on_of_nodup_map hnodup hx hy (congrArg Callback.number heq)

/-- As long as ids are not given twice, an id stands for one call. -/
theorem Numbered.eq_of_id (h : s.Numbered) (hlength : s.issues.length ≤ 2 ^ 64) {x y : Issue α}
    (hx : x ∈ s.issues) (hy : y ∈ s.issues) (heq : x.id = y.id) : x = y :=
  List.inj_on_of_nodup_map (h.ids.nodup_iff.2 (nodup_firstIds hlength)) hx hy heq

end Traffic
end GraphRpc
