import Mathlib
import GraphRpc.Proofs.Calls.Moves
import GraphRpc.Proofs.Interleaving

/-!
# Every call is resolved once

A callback is never told twice, whoever takes its call: an answer, a deadline, a frame that makes
room, or closing. A call that is in the table while the connection is closed is looked after, by the
operation that issues it or by one that closes, so that none is left once all have returned.
-/

namespace GraphRpc

variable {α : Type}

def Party.numbers (p : Party α) : List Nat := p.held ++ p.hand

namespace Traffic

variable {s : Traffic α}

def ids (s : Traffic α) : List UInt64 := s.parties.filterMap Party.id?

def told (s : Traffic α) : List Nat := s.endpoint.trace.told

/-- The callbacks of calls that were taken out of the table to be told. -/
def decided (s : Traffic α) : List Nat :=
  s.parties.flatMap Party.hand ++ s.claimed.map (·.number) ++ s.told

-- ---------------------------------------------------------------------------
-- The invariant
-- ---------------------------------------------------------------------------

structure Accounted (s : Traffic α) : Prop where
  distinct : s.endpoint.connection.calls.Distinct
  /-- Each callback is at one place. -/
  count_le : ∀ n, (s.parties.flatMap Party.numbers).count n + s.endpoint.numbers.count n +
    (s.claimed.map (·.number)).count n ≤ if n < s.endpoint.trace.nextCallback then 1 else 0
  /-- A call that entered the table is still there, or decided. -/
  entered : ∀ p ∈ s.parties, ∀ x, p.entered? = some x →
    x ∈ s.endpoint.entries ∨ x.2.number ∈ s.decided
  /-- Nobody leaves a call in the table of a closed connection. -/
  guarded : s.endpoint.connection.closed → ∀ x ∈ s.endpoint.entries, ∃ p ∈ s.parties, p.guards x.1

theorem mem_decided {n : Nat} : n ∈ s.decided ↔
    (∃ p ∈ s.parties, n ∈ p.hand) ∨ n ∈ s.claimed.map (·.number) ∨ n ∈ s.told := by
  simp only [decided, List.mem_append, List.mem_flatMap, or_assoc]

theorem accounted_start (codec : Codec α) (outbound : Outbound) (callTimeout : Option Millis) :
    (start codec outbound callTimeout).Accounted where
  distinct := List.nodup_nil
  count_le _ := Nat.zero_le _
  entered _ hp := nomatch hp
  guarded _ _ hx := nomatch hx

theorem Accounted.step {i : Nat} {p p' : Party α} {e : Endpoint α} (h : s.Accounted)
    (hp : s.parties[i]? = some p) (hids : s.ids.Nodup) (hmove : Move p p' s.endpoint e) :
    Accounted { s with endpoint := e, parties := s.parties.set i p' } := by
  obtain ⟨others, hperm, hset⟩ := exists_perm hp
  have hset := hset p'
  have hmem : p ∈ s.parties := hperm.mem_iff.2 (List.mem_cons_self ..)
  -- Nobody else's call has the id of this one.
  have hother {q : Party α} (hq : q ∈ others) {id : UInt64} (hpid : p.id? = some id) :
      q.id? ≠ some id := by
    intro hqid
    have hnodup : ((p :: others).filterMap Party.id?).Nodup :=
      (hperm.filterMap Party.id?).nodup_iff.1 hids
    rw [List.filterMap_cons_some hpid, List.nodup_cons] at hnodup
    exact hnodup.1 (List.mem_filterMap.2 ⟨q, hq, hqid⟩)
  have hown {n : Nat} (hn : n ∈ p'.hand ++ e.trace.told) :
      n ∈ decided { s with endpoint := e, parties := s.parties.set i p' } := by
    rw [mem_decided]
    rcases List.mem_append.1 hn with hhand | htold
    · exact .inl ⟨p', hset.mem_iff.2 (List.mem_cons_self ..), hhand⟩
    · exact .inr (.inr htold)
  have hdecided {n : Nat} (hn : n ∈ s.decided) :
      n ∈ decided { s with endpoint := e, parties := s.parties.set i p' } := by
    rcases mem_decided.1 hn with ⟨q, hq, hhand⟩ | hclaimed | htold
    · rcases List.mem_cons.1 (hperm.mem_iff.1 hq) with rfl | hq
      · exact hown (hmove.told n (List.mem_append_left _ hhand))
      · exact mem_decided.2 (.inl ⟨q, hset.mem_iff.2 (List.mem_cons_of_mem _ hq), hhand⟩)
    · exact mem_decided.2 (.inr (.inl hclaimed))
    · exact hown (hmove.told n (List.mem_append_right _ htold))
  constructor
  case distinct => exact hmove.distinct h.distinct
  case count_le =>
    intro n
    have hbefore := h.count_le n
    have hstep := hmove.count_le n
    rw [(hperm.flatMap_right Party.numbers).count_eq] at hbefore
    dsimp only
    rw [(hset.flatMap_right Party.numbers).count_eq, hmove.next_eq]
    simp only [List.flatMap_cons, Party.numbers, List.count_append] at hbefore ⊢
    omega
  case entered =>
    intro q hq x hx
    rcases List.mem_cons.1 (hset.mem_iff.1 hq) with rfl | hq
    · rcases hmove.entered h.distinct x hx with hin | ⟨hbefore, hstay⟩
      · exact .inl hin
      · rcases h.entered p hmem x hbefore with hin | hdec
        · exact (hstay hin).imp_right hown
        · exact .inr (hdecided hdec)
    · rcases h.entered q (hperm.mem_iff.2 (List.mem_cons_of_mem _ hq)) x hx with hin | hdec
      · rcases hmove.kept h.distinct x hin with hleft | hout | hpid
        · exact .inl hleft
        · exact .inr (hown hout)
        · exact (hother hq hpid (Party.id?_of_entered? hx)).elim
      · exact .inr (hdecided hdec)
  case guarded =>
    intro hclosed x hx
    rcases hmove.guarded hclosed x hx with hg | ⟨hwas, hin, hnot⟩
    · exact ⟨p', hset.mem_iff.2 (List.mem_cons_self ..), hg⟩
    · obtain ⟨q, hq, hg⟩ := h.guarded hwas x hin
      rcases List.mem_cons.1 (hperm.mem_iff.1 hq) with rfl | hq
      · exact (hnot hg).elim
      · exact ⟨q, hset.mem_iff.2 (List.mem_cons_of_mem _ hq), hg⟩

theorem Accounted.claim {claimed : List Callback} {e : Endpoint α} (h : s.Accounted)
    (hpass : Passing (s.claimed.map (·.number)) (claimed.map (·.number)) s.endpoint e) :
    Accounted { s with endpoint := e, claimed } where
  distinct := hpass.distinct h.distinct
  count_le n := by
    have hbefore := h.count_le n
    have hstep := hpass.count_le n
    dsimp only
    rw [hpass.next_eq]
    omega
  entered p hp x hx := by
    have hdecided {n : Nat} (hn : n ∈ claimed.map (·.number) ++ e.trace.told) :
        n ∈ decided { s with endpoint := e, claimed } :=
      mem_decided.2 (.inr (List.mem_append.1 hn))
    rcases h.entered p hp x hx with hin | hdec
    · exact (hpass.kept h.distinct x hin).imp_right hdecided
    · rcases mem_decided.1 hdec with hhand | hdec
      · exact .inr (mem_decided.2 (.inl hhand))
      · exact .inr (hdecided (hpass.told _ (List.mem_append.2 hdec)))
  guarded hclosed x hx := by
    rw [hpass.closed_eq] at hclosed
    exact h.guarded hclosed x (hpass.mem_of_mem x hx)

theorem Accounted.begin {p : Party α} {next : Nat} (h : s.Accounted)
    (hcount : ∀ n, p.numbers.count n + (if n < s.endpoint.trace.nextCallback then 1 else 0) ≤
      if n < next then 1 else 0)
    (hentered : p.entered? = none) :
    Accounted { s with
      endpoint := { s.endpoint with trace := { s.endpoint.trace with nextCallback := next } }
      parties := s.parties ++ [p] } where
  distinct := h.distinct
  count_le n := by
    have hbefore := h.count_le n
    have hnew := hcount n
    have hnumbers : (s.parties ++ [p]).flatMap Party.numbers =
        s.parties.flatMap Party.numbers ++ p.numbers := by simp
    dsimp only [Endpoint.numbers, Endpoint.entries, Trace.told] at hbefore ⊢
    rw [hnumbers, List.count_append]
    omega
  entered q hq x hx := by
    rcases List.mem_append.1 hq with hq | hq
    · refine (h.entered q hq x hx).imp_right fun hdec => ?_
      rw [mem_decided] at hdec ⊢
      exact hdec.imp_left fun ⟨r, hr, hhand⟩ => ⟨r, List.mem_append_left _ hr, hhand⟩
    · rw [List.mem_singleton.1 hq, hentered] at hx
      cases hx
  guarded hclosed x hx := by
    obtain ⟨q, hq, hg⟩ := h.guarded hclosed x hx
    exact ⟨q, List.mem_append_left _ hq, hg⟩

-- ---------------------------------------------------------------------------
-- Ids
-- ---------------------------------------------------------------------------

theorem ids_act (a : TrafficAction α) : s.ids.Sublist (s.act a).ids := by
  have happend (p : Party α) : s.ids.Sublist ((s.parties ++ [p]).filterMap Party.id?) := by
    rw [List.filterMap_append]
    exact List.sublist_append_left ..
  cases a with
  | invoke | answer | close | send => exact happend _
  | step i seen =>
    simp only [act]
    split
    · exact List.Sublist.refl _
    · next p hp =>
      obtain ⟨pre, post, hparties, hset⟩ := exists_split hp
      simp only [ids, hset]
      rw [hparties, List.filterMap_append, List.filterMap_append]
      refine (List.Sublist.refl _).append ?_
      cases hid : p.id? with
      | none =>
        rw [List.filterMap_cons_none hid]
        exact (List.sublist_cons_self ..).filterMap _
      | some id =>
        rw [List.filterMap_cons_some hid,
          List.filterMap_cons_some ((p.move seen s.endpoint).id? id hid)]
  | fire | deliver | pop =>
    simp only [act]
    split <;> exact List.Sublist.refl _
  | pass ms => exact List.Sublist.refl _

theorem ids_run (actions : List (TrafficAction α)) : s.ids.Sublist (s.run actions).ids := by
  induction actions generalizing s with
  | nil => exact List.Sublist.refl _
  | cons a actions ih => exact (ids_act a).trans ih

-- ---------------------------------------------------------------------------
-- Runs
-- ---------------------------------------------------------------------------

theorem Accounted.act (h : s.Accounted) (hids : s.ids.Nodup) (a : TrafficAction α) :
    (s.act a).Accounted := by
  cases a with
  | invoke method payload timeout awaited =>
    refine h.begin (fun n => ?_) rfl
    have hnumbers : List.count n [s.endpoint.trace.nextCallback] =
        if s.endpoint.trace.nextCallback = n then 1 else 0 := by
      simp [List.count_singleton]
    refine Nat.le_trans (Nat.le_of_eq (congrArg (· + _) hnumbers)) ?_
    split <;> split <;> split <;> omega
  | answer message => exact h.begin (fun n => Nat.le_of_eq (Nat.zero_add _)) rfl
  | close failure => exact h.begin (fun n => Nat.le_of_eq (Nat.zero_add _)) rfl
  | send bytes => exact h.begin (fun n => Nat.le_of_eq (Nat.zero_add _)) rfl
  | step i seen =>
    simp only [Traffic.act]
    split
    · exact h
    · next p hp => exact h.step hp hids (p.move seen s.endpoint)
  | fire timer =>
    simp only [Traffic.act]
    split
    · refine h.claim ?_
      rw [List.map_append]
      exact Endpoint.timeOut_passing ..
    · exact h
  | deliver i =>
    simp only [Traffic.act]
    split
    · exact h
    · next callback hcallback => exact h.claim (Endpoint.deliverTimeout_passing hcallback _)
  | pop =>
    simp only [Traffic.act]
    split
    · exact h
    · exact h.claim (.still rfl rfl rfl rfl)
  | pass ms => exact h.claim (.still rfl rfl rfl rfl)

theorem Accounted.run (h : s.Accounted) {actions : List (TrafficAction α)}
    (hids : (s.run actions).ids.Nodup) : (s.run actions).Accounted := by
  induction actions generalizing s with
  | nil => exact h
  | cons a actions ih =>
    exact ih (h.act (hids.sublist ((ids_act a).trans (ids_run actions))) a) hids

-- ---------------------------------------------------------------------------
-- Once all is over
-- ---------------------------------------------------------------------------

theorem hand_of_finished {p : Party α} (h : p.finished) : p.hand = [] := by
  cases p with
  | invoke call =>
    obtain ⟨method, payload, timeout, callback, phase⟩ := call
    cases phase <;> first | rfl | cases h
  | answer d => cases d <;> first | rfl | cases h
  | close failure phase => cases phase <;> first | rfl | cases h
  | send phase =>
    cases phase with
    | pushing bytes => rfl
    | evicting d => cases d <;> first | rfl | cases h

theorem not_guards_of_finished {p : Party α} (h : p.finished) (id : UInt64) : ¬ p.guards id := by
  cases p with
  | invoke call =>
    obtain ⟨method, payload, timeout, callback, phase⟩ := call
    cases phase <;> first | exact False.elim | cases h
  | close failure phase => cases phase <;> first | exact False.elim | cases h
  | answer d => exact False.elim
  | send phase => exact False.elim

/-- The connection is closed, every operation has returned, and every callback that a deadline claimed
was told. -/
structure Settled (s : Traffic α) : Prop where
  closed : s.endpoint.connection.closed
  finished : ∀ p ∈ s.parties, p.finished
  claimed_eq_nil : s.claimed = []

/-- No callback was told twice, and once all is over, the callback of each call that was issued was
told. -/
structure ResolvedOnce (s : Traffic α) : Prop where
  nodup_told : s.told.Nodup
  pending_eq_nil : s.Settled → s.endpoint.connection.calls.pending = []
  count_told : s.Settled → ∀ (call : Invocation α) (id : Option UInt64) (id' : UInt64),
    .invoke call ∈ s.parties → call.phase = .returned id (.ok id') →
      s.told.count call.callback.number = 1

theorem Accounted.nodup_told (h : s.Accounted) : s.told.Nodup := by
  refine List.nodup_iff_count_le_one.2 fun n => ?_
  have hcount := h.count_le n
  rw [Endpoint.numbers, List.count_append] at hcount
  have hone : (if n < s.endpoint.trace.nextCallback then 1 else 0) ≤ 1 := by split <;> omega
  rw [told]
  omega

theorem Accounted.entries_eq_nil (h : s.Accounted) (hsettled : s.Settled) :
    s.endpoint.entries = [] := by
  refine List.eq_nil_iff_forall_not_mem.2 fun x hx => ?_
  obtain ⟨p, hp, hg⟩ := h.guarded hsettled.closed x hx
  exact not_guards_of_finished (hsettled.finished p hp) x.1 hg

theorem Accounted.resolvedOnce (h : s.Accounted) : s.ResolvedOnce where
  nodup_told := h.nodup_told
  pending_eq_nil hsettled := List.map_eq_nil_iff.1 (h.entries_eq_nil hsettled)
  count_told hsettled call id id' hcall hphase := by
    have hentered : (Party.invoke call).entered? = some (id', call.callback) := by
      rw [Party.entered?, hphase]
      rfl
    refine List.count_eq_one_of_mem h.nodup_told ?_
    rcases h.entered _ hcall _ hentered with hin | hdecided
    · rw [h.entries_eq_nil hsettled] at hin
      cases hin
    · rcases mem_decided.1 hdecided with ⟨p, hp, hhand⟩ | hclaimed | htold
      · rw [hand_of_finished (hsettled.finished p hp)] at hhand
        cases hhand
      · rw [hsettled.claimed_eq_nil] at hclaimed
        cases hclaimed
      · exact htold

/-- Whatever the order in which operations, deadlines and the transport take their steps, every call
is resolved once, as long as ids are not used again. -/
theorem run_resolvedOnce {codec : Codec α} {outbound : Outbound} {callTimeout : Option Millis}
    {actions : List (TrafficAction α)}
    (h : ((start codec outbound callTimeout).run actions).ids.Nodup) :
    ((start codec outbound callTimeout).run actions).ResolvedOnce :=
  ((accounted_start codec outbound callTimeout).run h).resolvedOnce

/-- The second call enters the table after the operation that closes has gone through it. -/
def lateEntry : List (TrafficAction Empty) :=
  .invoke "first" .empty none true :: .invoke "second" .empty none true :: .close .closed ::
    [0, 0, 0, 0, 0, 0, 0, 0, 1, 1, 1, 2, 2, 2, 2, 1, 2, 2, 2, 2, 2, 1, 1, 1, 1].map (.step · [1])

theorem run_resolvedOnce_lateEntry :
    ((start ⟨{}, .generic⟩ {} none).run lateEntry).ids.Nodup ∧
      ((start ⟨{}, .generic⟩ {} none).run lateEntry).ResolvedOnce := by
  have h : ((start ⟨{}, .generic⟩ {} none).run lateEntry).ids = [1, 2] := by cbv
  have hnodup : ((start ⟨{}, .generic⟩ {} none).run lateEntry).ids.Nodup := by
    rw [h]
    decide
  exact ⟨hnodup, run_resolvedOnce hnodup⟩

example : ((start ⟨{}, .generic⟩ {} none).run lateEntry).told = [0] := by cbv

end Traffic
end GraphRpc
