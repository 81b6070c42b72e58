import Mathlib
import GraphRpc.Proofs.Calls.Resolution

/-!
# What comes after

A connection only goes forward: what is decided stays decided, a callback never comes to be at more
places than before, and the room in the outbound buffer stays what it was. A callback that is nowhere
is therefore never told, and one whose call somebody has taken may be told next.
-/

namespace GraphRpc

variable {α : Type}

-- ---------------------------------------------------------------------------
-- The room in the outbound buffer
-- ---------------------------------------------------------------------------

namespace Outbound

/-- What stays the same whatever is in the buffer. -/
def limits (o : Outbound) : OverflowPolicy × Nat := (o.policy, o.capacity)

theorem push_error {o : Outbound} {frame : OutboundFrame} {fault : LinkFault}
    (h : o.push frame = .error fault) :
    o.policy = .rejectNew ∧ fault = .bufferFull o.capacity := by
  unfold push at h
  split at h
  · next hfull =>
    cases h
    exact ⟨hfull.1, rfl⟩
  · split at h <;> cases h

theorem limits_push {o o' : Outbound} {frame : OutboundFrame} {evicted : Option OutboundFrame}
    (h : o.push frame = .ok (evicted, o')) : o'.limits = o.limits := by
  unfold push at h
  split at h
  · cases h
  · split at h <;> cases h <;> rfl

theorem limits_pop? {o o' : Outbound} {frame : OutboundFrame}
    (h : o.pop? = some (frame, o')) : o'.limits = o.limits := by
  unfold pop? at h
  split at h
  · cases h
  · cases h
    rfl

end Outbound

namespace Endpoint

def limits (e : Endpoint α) : OverflowPolicy × Nat := e.connection.outbound.limits

theorem limits_withdraw {id : UInt64} {e e' : Endpoint α} {call : Option PendingCall}
    (h : (withdraw id).run e = (call, e')) : e'.limits = e.limits := by
  rw [withdraw_run] at h
  split at h <;> cases h <;> rfl

theorem limits_push {e e' : Endpoint α} {frame : OutboundFrame} {d : Deciding α}
    (h : e.push frame = .ok (d, e')) : e'.limits = e.limits := by
  unfold push at h
  split at h
  · cases h
  · next hpush =>
    cases h
    exact Outbound.limits_push hpush

theorem push_error {e : Endpoint α} {frame : OutboundFrame} {fault : LinkFault}
    (h : e.push frame = .error fault) :
    fault = .bufferFull e.limits.2 ∧ e.limits.1 = .rejectNew := by
  unfold push at h
  split at h
  · next hpush =>
    cases h
    exact (Outbound.push_error hpush).symm
  · cases h

theorem limits_arm (id : UInt64) (after : Millis) (e : Endpoint α) :
    ((arm id after).run e).2.limits = e.limits := by
  simp only [arm, StateT.run, modify, modifyGet, MonadStateOf.modifyGet, StateT.modifyGet]
  generalize e.connection.calls.arm id (e.trace.now + after) = armed
  obtain ⟨timer, calls⟩ := armed
  cases timer <;> rfl

end Endpoint

theorem Deciding.limits_step (d : Deciding α) (e : Endpoint α) : (d.step e).2.limits = e.limits := by
  cases d with
  | taking id outcome =>
    simp only [step]
    split
    · next hrun => exact Endpoint.limits_withdraw hrun
    · next hrun => exact Endpoint.limits_withdraw hrun
  | telling call outcome => rfl
  | done => rfl

theorem Invocation.limits_step (call : Invocation α) (e : Endpoint α) :
    (call.step e).2.limits = e.limits := by
  obtain ⟨method, payload, timeout, callback, phase⟩ := call
  cases phase with
  | opening =>
    simp only [step]
    split <;> rfl
  | numbering => rfl
  | encoding id =>
    simp only [step]
    split <;> rfl
  | entering id bytes => rfl
  | pushing id bytes =>
    simp only [step]
    split
    · next hpush => exact Endpoint.limits_push hpush
    · rfl
  | refused id failure => exact Endpoint.limits_withdraw rfl
  | evicting id d =>
    by_cases hd : d = .done
    · subst hd
      rfl
    · rw [step_evicting rfl hd]
      exact d.limits_step e
  | rechecking id => rfl
  | withdrawing id =>
    simp only [step]
    split
    · next hrun => exact Endpoint.limits_withdraw hrun
    · next hrun => exact Endpoint.limits_withdraw hrun
  | arming id =>
    simp only [step]
    split
    · exact Endpoint.limits_arm ..
    · rfl
  | returned id result => rfl

theorem ClosingPhase.limits_step (phase : ClosingPhase α) (failure : Failure) (seen : List UInt64)
    (e : Endpoint α) : (phase.step failure seen e).2.limits = e.limits := by
  cases phase with
  | swapping =>
    simp only [step]
    split <;> rfl
  | signalling | clearing | listing | returned => rfl
  | iterating present =>
    simp only [step]
    split <;> rfl
  | failing ids d =>
    by_cases hd : d = .done
    · subst hd
      cases ids <;> rfl
    · rw [step_failing hd]
      exact d.limits_step e

theorem Party.limits_step (p : Party α) (seen : List UInt64) (e : Endpoint α) :
    (p.step seen e).2.limits = e.limits := by
  cases p with
  | invoke call => exact call.limits_step e
  | answer d => exact d.limits_step e
  | close failure phase => exact phase.limits_step failure seen e
  | send phase =>
    cases phase with
    | pushing bytes =>
      simp only [step, SendPhase.step]
      split
      · next hpush => exact Endpoint.limits_push hpush
      · rfl
    | evicting d => exact d.limits_step e

-- ---------------------------------------------------------------------------
-- What any action does
-- ---------------------------------------------------------------------------

namespace Traffic

variable {s s' : Traffic α}

/-- At how many places a callback is. -/
def places (s : Traffic α) (n : Nat) : Nat :=
  (s.parties.flatMap Party.numbers).count n + s.endpoint.numbers.count n +
    (s.claimed.map (·.number)).count n

/-- What is true of `s'` if it comes after `s`. -/
structure Advance (s s' : Traffic α) : Prop where
  next_le : s.endpoint.trace.nextCallback ≤ s'.endpoint.trace.nextCallback
  limits_eq : s'.endpoint.limits = s.endpoint.limits
  decided : ∀ n ∈ s.decided, n ∈ s'.decided
  places_le : ∀ n < s.endpoint.trace.nextCallback, s'.places n ≤ s.places n

theorem Advance.refl : Advance s s := ⟨Nat.le_refl _, rfl, fun _ h => h, fun _ _ => Nat.le_refl _⟩

theorem Advance.trans {s'' : Traffic α} (h : Advance s s') (h' : Advance s' s'') :
    Advance s s'' where
  next_le := Nat.le_trans h.next_le h'.next_le
  limits_eq := h'.limits_eq.trans h.limits_eq
  decided n hn := h'.decided n (h.decided n hn)
  places_le n hn :=
    Nat.le_trans (h'.places_le n (Nat.lt_of_lt_of_le hn h.next_le)) (h.places_le n hn)

theorem Advance.begin (p : Party α) {next : Nat} (hnext : s.endpoint.trace.nextCallback ≤ next)
    (hnumbers : ∀ n ∈ p.numbers, s.endpoint.trace.nextCallback ≤ n) :
    Advance s { s with
      endpoint := { s.endpoint with trace := { s.endpoint.trace with nextCallback := next } }
      parties := s.parties ++ [p] } where
  next_le := hnext
  limits_eq := rfl
  decided n hn := by
    rw [mem_decided] at hn ⊢
    exact hn.imp_left fun ⟨q, hq, hhand⟩ => ⟨q, List.mem_append_left _ hq, hhand⟩
  places_le n hn := by
    have hnot : p.numbers.count n = 0 :=
      List.count_eq_zero.2 fun hmem => Nat.not_le.2 hn (hnumbers n hmem)
    have happend : (s.parties ++ [p]).flatMap Party.numbers =
        s.parties.flatMap Party.numbers ++ p.numbers := by simp
    simp only [places, happend, List.count_append, hnot]
    exact Nat.le_refl _

theorem Advance.claim {claimed : List Callback} {e : Endpoint α}
    (hpass : Passing (s.claimed.map (·.number)) (claimed.map (·.number)) s.endpoint e)
    (hlimits : e.limits = s.endpoint.limits) : Advance s { s with endpoint := e, claimed } where
  next_le := Nat.le_of_eq hpass.next_eq.symm
  limits_eq := hlimits
  decided n hn := by
    rcases mem_decided.1 hn with hhand | hrest
    · exact mem_decided.2 (.inl hhand)
    · exact mem_decided.2 (.inr (List.mem_append.1 (hpass.told n (List.mem_append.2 hrest))))
  places_le n _ := by
    have hcount := hpass.count_le n
    simp only [places]
    omega

theorem places_set {i k : Nat} {p p' : Party α} {e : Endpoint α} {n : Nat}
    (hp : s.parties[i]? = some p)
    (h : p'.numbers.count n + e.numbers.count n + k ≤ p.numbers.count n + s.endpoint.numbers.count n) :
    places { s with endpoint := e, parties := s.parties.set i p' } n + k ≤ s.places n := by
  obtain ⟨others, hperm, hset⟩ := exists_perm hp
  simp only [places]
  rw [((hset p').flatMap_right Party.numbers).count_eq, (hperm.flatMap_right Party.numbers).count_eq]
  simp only [List.flatMap_cons, List.count_append]
  omega

theorem decided_set {i n : Nat} {p p' : Party α} {e : Endpoint α} (hp : s.parties[i]? = some p)
    (h : n ∈ p'.hand ++ e.trace.told) :
    n ∈ decided { s with endpoint := e, parties := s.parties.set i p' } := by
  obtain ⟨others, -, hset⟩ := exists_perm hp
  rw [mem_decided]
  rcases List.mem_append.1 h with hhand | htold
  · exact .inl ⟨p', (hset p').mem_iff.2 (List.mem_cons_self ..), hhand⟩
  · exact .inr (.inr htold)

theorem Advance.step {i : Nat} {p p' : Party α} {e : Endpoint α} (hp : s.parties[i]? = some p)
    (hmove : Move p p' s.endpoint e) (hlimits : e.limits = s.endpoint.limits) :
    Advance s { s with endpoint := e, parties := s.parties.set i p' } where
  next_le := Nat.le_of_eq hmove.next_eq.symm
  limits_eq := hlimits
  decided n hn := by
    obtain ⟨others, hperm, hset⟩ := exists_perm hp
    rcases mem_decided.1 hn with ⟨q, hq, hhand⟩ | hclaimed | htold
    · rcases List.mem_cons.1 (hperm.mem_iff.1 hq) with rfl | hq
      · exact decided_set hp (hmove.told n (List.mem_append_left _ hhand))
      · exact mem_decided.2 (.inl ⟨q, (hset p').mem_iff.2 (List.mem_cons_of_mem _ hq), hhand⟩)
    · exact mem_decided.2 (.inr (.inl hclaimed))
    · exact decided_set hp (hmove.told n (List.mem_append_right _ htold))
  places_le n _ := by
    refine places_set (k := 0) hp ?_
    have hcount := hmove.count_le n
    simp only [Party.numbers, List.count_append]
    omega

theorem advance_act (s : Traffic α) (a : TrafficAction α) : Advance s (s.act a) := by
  cases a with
  | invoke method payload timeout awaited =>
    refine .begin _ (Nat.le_succ _) fun n hn => ?_
    exact Nat.le_of_eq (List.mem_singleton.1 hn).symm
  | answer message => exact .begin _ (Nat.le_refl _) fun n hn => nomatch hn
  | close failure => exact .begin _ (Nat.le_refl _) fun n hn => nomatch hn
  | send bytes => exact .begin _ (Nat.le_refl _) fun n hn => nomatch hn
  | step i seen =>
    simp only [act]
    split
    · exact .refl
    · next p hp => exact .step hp (p.move seen s.endpoint) (p.limits_step seen s.endpoint)
  | fire timer =>
    simp only [act]
    split
    · refine .claim ?_ rfl
      rw [List.map_append]
      exact Endpoint.timeOut_passing ..
    · exact .refl
  | deliver i =>
    simp only [act]
    split
    · exact .refl
    · next callback hcallback => exact .claim (Endpoint.deliverTimeout_passing hcallback _) rfl
  | pop =>
    simp only [act]
    split
    · exact .refl
    · next hpop => exact .claim (.still rfl rfl rfl rfl) (Outbound.limits_pop? hpop)
  | pass ms => exact .claim (.still rfl rfl rfl rfl) rfl

theorem advance_run (s : Traffic α) (actions : List (TrafficAction α)) :
    Advance s (s.run actions) := by
  induction actions generalizing s with
  | nil => exact .refl
  | cons a actions ih => exact (s.advance_act a).trans (ih _)

theorem count_told_le (n : Nat) : s.told.count n ≤ s.places n := by
  simp only [told, places, Endpoint.numbers, List.count_append]
  omega

theorem count_decided_le (n : Nat) :
    s.decided.count n + (s.endpoint.entries.map (·.2.number)).count n ≤ s.places n := by
  have hhand : (s.parties.flatMap Party.hand).count n ≤
      (s.parties.flatMap Party.numbers).count n := by
    rw [List.count_flatMap, List.count_flatMap]
    exact List.sum_le_sum fun p _ => (List.sublist_append_right p.held p.hand).count_le n
  simp only [decided, told, places, Endpoint.numbers, List.count_append]
  omega

theorem Accounted.places_le_one (h : s.Accounted) (n : Nat) : s.places n ≤ 1 := by
  have hone : s.places n ≤ if n < s.endpoint.trace.nextCallback then 1 else 0 := h.count_le n
  split at hone <;> omega

theorem Accounted.places_eq_zero {n : Nat} (h : s.Accounted) (hlt : s'.places n + 1 ≤ s.places n) :
    s'.places n = 0 := by
  have hone := h.places_le_one n
  omega

theorem not_mem_told {n : Nat} (hn : n < s.endpoint.trace.nextCallback) (h : s.places n = 0)
    (more : List (TrafficAction α)) : n ∉ (s.run more).told := by
  have hle := (s.advance_run more).places_le n hn
  have htold := count_told_le (s := s.run more) n
  exact List.count_eq_zero.1 (by omega)

end Traffic

-- ---------------------------------------------------------------------------
-- What is decided can be told
-- ---------------------------------------------------------------------------

theorem Deciding.told_step {d : Deciding α} {n : Nat} (h : n ∈ d.hand) (e : Endpoint α) :
    n ∈ (d.step e).2.trace.told := by
  cases d with
  | telling call outcome =>
    rw [List.mem_singleton.1 h]
    simp only [step, Trace.told_finish]
    exact List.mem_append_right _ (List.mem_singleton_self _)
  | _ => cases h

theorem Deciding.ne_done_of_mem_hand {d : Deciding α} {n : Nat} (h : n ∈ d.hand) : d ≠ .done := by
  rintro rfl
  cases h

theorem Party.told_step {p : Party α} {n : Nat} (h : n ∈ p.hand) (seen : List UInt64)
    (e : Endpoint α) : n ∈ (p.step seen e).2.trace.told := by
  cases p with
  | invoke call =>
    obtain ⟨method, payload, timeout, callback, phase⟩ := call
    cases phase with
    | evicting id d =>
      simp only [step]
      rw [Invocation.step_evicting rfl (Deciding.ne_done_of_mem_hand h)]
      exact Deciding.told_step h e
    | _ => cases h
  | answer d => exact Deciding.told_step h e
  | close failure phase =>
    cases phase with
    | failing ids d =>
      simp only [step]
      rw [ClosingPhase.step_failing (Deciding.ne_done_of_mem_hand h)]
      exact Deciding.told_step h e
    | _ => cases h
  | send phase =>
    cases phase with
    | evicting d => exact Deciding.told_step h e
    | pushing bytes => cases h

namespace Traffic

variable {s : Traffic α}

theorem exists_told {n : Nat} (h : n ∈ s.decided) : ∃ more, n ∈ (s.run more).told := by
  rcases mem_decided.1 h with ⟨p, hp, hhand⟩ | hclaimed | htold
  · obtain ⟨i, hi⟩ := List.mem_iff_getElem?.1 hp
    refine ⟨[.step i []], ?_⟩
    simp only [run, List.foldl_cons, List.foldl_nil, act, hi]
    exact Party.told_step hhand [] s.endpoint
  · obtain ⟨callback, hmem, rfl⟩ := List.mem_map.1 hclaimed
    obtain ⟨i, hi⟩ := List.mem_iff_getElem?.1 hmem
    refine ⟨[.deliver i], ?_⟩
    simp only [run, List.foldl_cons, List.foldl_nil, act, hi]
    have htold := Trace.told_finish s.endpoint.trace callback (.error (.call .timedOut))
    exact (congrArg (callback.number ∈ ·) htold).mpr
      (List.mem_append_right _ (List.mem_singleton_self _))
  · exact ⟨[], htold⟩

end Traffic
end GraphRpc
