import Mathlib
import GraphRpc.Proofs.Calls.Advance

/-!
# Calls that fail

A call whose issuing fails is taken back, and its callback is never told. There is one exception: when
its frame is refused for want of room, somebody else may have taken the call before it is taken back,
and then its callback is told an outcome although issuing it failed.
-/

namespace GraphRpc

variable {α : Type}

-- ---------------------------------------------------------------------------
-- Calls in the table and the operations that issue them
-- ---------------------------------------------------------------------------

def InvokePhase.listed? : InvokePhase α → Option UInt64
  | refused id _ => some id
  | phase => phase.entered?

theorem InvokePhase.listed?_eq_some {phase : InvokePhase α} {id : UInt64} :
    phase.listed? = some id ↔
      phase.entered? = some id ∨ ∃ failure, phase = .refused id failure := by
  cases phase <;> simp [listed?, entered?]

def Party.listed? : Party α → Option (UInt64 × Callback)
  | invoke call => call.phase.listed?.map (·, call.callback)
  | answer _ | close .. | send _ => none

theorem InvokePhase.id?_of_listed? {phase : InvokePhase α} {id : UInt64}
    (h : phase.listed? = some id) : phase.id? = some id := by
  cases phase with
  | returned own result => cases result <;> simp_all [listed?, entered?, id?]
  | _ => simp_all [listed?, entered?, id?]

theorem Party.id?_of_listed? {p : Party α} {x : UInt64 × Callback} (h : p.listed? = some x) :
    p.id? = some x.1 := by
  cases p with
  | invoke call =>
    obtain ⟨id, hid, rfl⟩ := Option.map_eq_some_iff.1 h
    exact InvokePhase.id?_of_listed? hid
  | _ => cases h

/-- An entry that is there after a step either belongs to the operation that took it or was there before
and belongs to somebody else. -/
def Listing (p p' : Party α) (e e' : Endpoint α) : Prop :=
  ∀ x ∈ e'.entries, p'.listed? = some x ∨ x ∈ e.entries ∧ p.listed? ≠ some x

section
variable {p p' : Party α} {e e' : Endpoint α}

theorem Listing.of_subset (hmem : ∀ x ∈ e'.entries, x ∈ e.entries)
    (hlisted : ∀ x, p.listed? = some x → p'.listed? = some x) : Listing p p' e e' := by
  intro x hx
  by_cases hp : p.listed? = some x
  · exact .inl (hlisted x hp)
  · exact .inr ⟨hmem x hx, hp⟩

theorem Listing.of_unlisted (hmem : ∀ x ∈ e'.entries, x ∈ e.entries) (hnone : p.listed? = none) :
    Listing p p' e e' :=
  .of_subset hmem fun x hx => by
    rw [hnone] at hx
    cases hx

end

theorem Listing.withdraw {call : Invocation α} {id : UInt64} {taken : Option PendingCall}
    {p' : Party α} {e e' : Endpoint α} (hid : call.phase.listed? = some id)
    (hrun : (Endpoint.withdraw id).run e = (taken, e')) : Listing (.invoke call) p' e e' := by
  have hother {x : UInt64 × Callback} (hx : x.1 ≠ id) : (Party.invoke call).listed? ≠ some x := by
    intro hown
    simp only [Party.listed?, hid, Option.map_some, Option.some.injEq] at hown
    exact hx (congrArg Prod.fst hown).symm
  intro x hx
  obtain ⟨found, calls, htaken, hrun'⟩ | ⟨hnone, hrun'⟩ := withdraw_cases id e
  · cases hrun.symm.trans hrun'
    obtain ⟨hmem, hne⟩ := htaken.mem_of_mem hx
    exact .inr ⟨hmem, hother hne⟩
  · cases hrun.symm.trans hrun'
    exact .inr ⟨hx, hother (hnone x hx)⟩

theorem Invocation.listing (call : Invocation α) (e : Endpoint α) :
    Listing (.invoke call) (.invoke { call with phase := (call.step e).1 }) e (call.step e).2 := by
  obtain ⟨method, payload, timeout, callback, phase⟩ := call
  cases phase with
  | opening =>
    simp only [step]
    split <;> exact .of_unlisted (fun _ hx => hx) rfl
  | numbering => exact .of_unlisted (fun _ hx => hx) rfl
  | encoding id =>
    simp only [step]
    split <;> exact .of_unlisted (fun _ hx => hx) rfl
  | entering id bytes =>
    intro x hx
    have hentries (timeout : Option Millis) :
        ((Endpoint.enterCall id callback timeout).run e).2.entries =
          e.connection.calls.without id ++ [(id, callback)] := Calls.entries_insert
    simp only [step, hentries, List.mem_append] at hx
    rcases hx with hx | hx
    · refine .inr ⟨(Calls.mem_of_mem_without hx).1, fun hown => ?_⟩
      cases hown
    · rw [List.mem_singleton.1 hx]
      exact .inl rfl
  | pushing id bytes =>
    simp only [step]
    split
    · next hpush => exact .of_subset (Endpoint.push_passing hpush).mem_of_mem fun _ hx => hx
    · exact .of_subset (fun _ hx => hx) fun _ hx => hx
  | refused id failure => exact .withdraw rfl rfl
  | evicting id d =>
    by_cases hd : d = .done
    · subst hd
      exact .of_subset (fun _ hx => hx) fun _ hx => hx
    · rw [step_evicting rfl hd]
      exact .of_subset (d.passing e).mem_of_mem fun _ hx => hx
  | rechecking id =>
    simp only [step]
    split <;> exact .of_subset (fun _ hx => hx) fun _ hx => hx
  | withdrawing id =>
    simp only [step]
    split
    · next hrun => exact .withdraw rfl hrun
    · next hrun => exact .withdraw rfl hrun
  | arming id =>
    simp only [step]
    split
    · next after _ =>
      have hpass : Passing [] [] e ((Endpoint.arm id after).run e).2 := Endpoint.arm_passing ..
      exact .of_subset hpass.mem_of_mem fun _ hx => hx
    · exact .of_subset (fun _ hx => hx) fun _ hx => hx
  | returned id result => exact .of_subset (fun _ hx => hx) fun _ hx => hx

theorem ClosingPhase.mem_of_mem_step {phase : ClosingPhase α} {failure : Failure}
    {seen : List UInt64} {e : Endpoint α} {x : UInt64 × Callback}
    (hx : x ∈ (phase.step failure seen e).2.entries) : x ∈ e.entries := by
  cases phase with
  | swapping =>
    simp only [step] at hx
    split at hx <;> exact hx
  | signalling | clearing | listing | returned => exact hx
  | iterating present =>
    simp only [step] at hx
    split at hx <;> exact hx
  | failing ids d =>
    by_cases hd : d = .done
    · subst hd
      cases ids <;> exact hx
    · rw [step_failing hd] at hx
      exact (d.passing e).mem_of_mem x hx

theorem Party.listing (p : Party α) (seen : List UInt64) (e : Endpoint α) :
    Listing p (p.step seen e).1 e (p.step seen e).2 := by
  cases p with
  | invoke call => exact call.listing e
  | answer d => exact .of_unlisted (d.passing e).mem_of_mem rfl
  | close failure phase =>
    exact .of_unlisted (fun _ => ClosingPhase.mem_of_mem_step) rfl
  | send phase =>
    cases phase with
    | pushing bytes =>
      simp only [step, SendPhase.step]
      split
      · next hpush => exact .of_unlisted (Endpoint.push_passing hpush).mem_of_mem rfl
      · exact .of_unlisted (fun _ hx => hx) rfl
    | evicting d => exact .of_unlisted (d.passing e).mem_of_mem rfl

-- ---------------------------------------------------------------------------
-- How issuing a call fails
-- ---------------------------------------------------------------------------

section
variable {call : Invocation α} {id : UInt64} {failure : Failure} {e : Endpoint α}

theorem Invocation.step_refused (h : (call.step e).1 = .refused id failure) :
    (call.step e).2 = e ∧ call.phase.listed? = some id ∧
      failure = .link (.bufferFull e.limits.2) ∧ e.limits.1 = .rejectNew := by
  obtain ⟨method, payload, timeout, callback, phase⟩ := call
  cases phase with
  | pushing own bytes =>
    simp only [step] at h ⊢
    split at h
    · cases h
    · next fault hpush =>
      cases h
      obtain ⟨rfl, hpolicy⟩ := Endpoint.push_error hpush
      exact ⟨rfl, rfl, rfl, hpolicy⟩
  | evicting own d => cases d <;> cases h
  | opening | encoding | rechecking | withdrawing =>
    simp only [step] at h
    split at h <;> cases h
  | _ => cases h

theorem Invocation.step_failed {id : Option UInt64}
    (h : (call.step e).1 = .returned id (.error failure)) :
    (call.step e).2 = e ∧ (call.phase = .returned id (.error failure) ∨ call.phase.early) ∨
      ∃ own, call.phase.listed? = some own ∧ (call.step e).2 = ((Endpoint.withdraw own).run e).2 ∧
        (call.phase = .refused own failure ∨ ((Endpoint.withdraw own).run e).1.isSome) := by
  obtain ⟨method, payload, timeout, callback, phase⟩ := call
  cases phase with
  | opening =>
    simp only [step] at h ⊢
    split at h
    · next hclosed => exact .inl ⟨by rw [if_pos hclosed], .inr rfl⟩
    · cases h
  | encoding own =>
    simp only [step] at h ⊢
    split at h
    · cases h
    · exact .inl ⟨rfl, .inr rfl⟩
  | refused own why =>
    cases h
    exact .inr ⟨own, rfl, rfl, .inl rfl⟩
  | withdrawing own =>
    simp only [step] at h ⊢
    split at h
    · next hrun =>
      refine .inr ⟨own, rfl, (congrArg Prod.snd hrun).symm, .inr ?_⟩
      rw [hrun]
      rfl
    · cases h
  | returned own result =>
    cases h
    exact .inl ⟨rfl, .inl rfl⟩
  | evicting own d => cases d <;> cases h
  | pushing | rechecking =>
    simp only [step] at h
    split at h <;> cases h
  | _ => cases h

end

-- ---------------------------------------------------------------------------
-- The invariant
-- ---------------------------------------------------------------------------

namespace Traffic

variable {s s' : Traffic α} {room : OverflowPolicy × Nat} {call : Invocation α}

/-- Why a frame was refused. -/
def Refusal (room : OverflowPolicy × Nat) (failure : Failure) : Prop :=
  room.1 = .rejectNew ∧ failure = .link (.bufferFull room.2)

/-- Where the callback of a call can be, by how far issuing the call has come. -/
structure Traced (s : Traffic α) (room : OverflowPolicy × Nat) (call : Invocation α) : Prop where
  number_lt : call.callback.number < s.endpoint.trace.nextCallback
  listed : ∀ id, call.phase.listed? = some id →
    (id, call.callback) ∈ s.endpoint.entries ∨ call.callback.number ∈ s.decided
  refused : ∀ id failure, call.phase = .refused id failure → Refusal room failure
  failed : ∀ id failure, call.phase = .returned id (.error failure) →
    s.places call.callback.number = 0 ∨ call.callback.number ∈ s.decided ∧ Refusal room failure

structure Issued (s : Traffic α) (room : OverflowPolicy × Nat) : Prop where
  accounted : s.Accounted
  limits_eq : s.endpoint.limits = room
  owned : ∀ x ∈ s.endpoint.entries, ∃ p ∈ s.parties, p.listed? = some x
  traced : ∀ call, .invoke call ∈ s.parties → s.Traced room call

theorem issued_start (codec : Codec α) (outbound : Outbound) (callTimeout : Option Millis) :
    (start codec outbound callTimeout).Issued outbound.limits where
  accounted := accounted_start codec outbound callTimeout
  limits_eq := rfl
  owned _ hx := nomatch hx
  traced _ hcall := nomatch hcall

theorem Traced.failed_advance {id : Option UInt64} {failure : Failure} (h : s.Traced room call)
    (hadvance : Advance s s') (hphase : call.phase = .returned id (.error failure)) :
    s'.places call.callback.number = 0 ∨
      call.callback.number ∈ s'.decided ∧ Refusal room failure := by
  rcases h.failed id failure hphase with hnone | ⟨hdecided, hrefusal⟩
  · exact .inl (Nat.le_zero.1 (hnone ▸ hadvance.places_le _ h.number_lt))
  · exact .inr ⟨hadvance.decided _ hdecided, hrefusal⟩

theorem Traced.advance (h : s.Traced room call) (hadvance : Advance s s')
    (hkept : ∀ id, call.phase.listed? = some id → (id, call.callback) ∈ s.endpoint.entries →
      (id, call.callback) ∈ s'.endpoint.entries ∨ call.callback.number ∈ s'.decided) :
    s'.Traced room call where
  number_lt := Nat.lt_of_lt_of_le h.number_lt hadvance.next_le
  listed id hid := by
    rcases h.listed id hid with hin | hdecided
    · exact hkept id hid hin
    · exact .inr (hadvance.decided _ hdecided)
  refused := h.refused
  failed _ _ hphase := h.failed_advance hadvance hphase

theorem id?_ne_of_perm {p q : Party α} {others : List (Party α)} {id : UInt64}
    (hids : s.ids.Nodup) (hperm : s.parties.Perm (p :: others)) (hpid : p.id? = some id)
    (hq : q ∈ others) : q.id? ≠ some id := by
  intro hqid
  have hnodup : ((p :: others).filterMap Party.id?).Nodup :=
    (hperm.filterMap Party.id?).nodup_iff.1 hids
  rw [List.filterMap_cons_some hpid, List.nodup_cons] at hnodup
  exact hnodup.1 (List.mem_filterMap.2 ⟨q, hq, hqid⟩)

theorem eq_of_id? {p q : Party α} {id : UInt64} (hids : s.ids.Nodup) (hp : p ∈ s.parties)
    (hq : q ∈ s.parties) (hpid : p.id? = some id) (hqid : q.id? = some id) : p = q := by
  obtain ⟨i, hi⟩ := List.mem_iff_getElem?.1 hp
  obtain ⟨others, hperm, -⟩ := exists_perm hi
  rcases List.mem_cons.1 (hperm.mem_iff.1 hq) with rfl | hq
  · rfl
  · exact (id?_ne_of_perm hids hperm hpid hq hqid).elim

theorem Issued.callback_eq {id : UInt64} {callback : Callback} (h : s.Issued room)
    (hids : s.ids.Nodup) (hcall : .invoke call ∈ s.parties) (hid : call.phase.listed? = some id)
    (hx : (id, callback) ∈ s.endpoint.entries) : callback = call.callback := by
  have hown : (Party.invoke call).listed? = some (id, call.callback) := by
    rw [Party.listed?, hid]
    rfl
  obtain ⟨p, hp, hlisted⟩ := h.owned _ hx
  have hpid : p.id? = some id := Party.id?_of_listed? hlisted
  have hcallid : (Party.invoke call).id? = some id := Party.id?_of_listed? hown
  rw [eq_of_id? hids hp hcall hpid hcallid, hown] at hlisted
  cases hlisted
  rfl

section
variable {i : Nat} {id : UInt64}

theorem Issued.listed_step (h : s.Issued room) (hp : s.parties[i]? = some (.invoke call))
    (hid : (call.step s.endpoint).1.listed? = some id) :
    (id, call.callback) ∈ (call.step s.endpoint).2.entries ∨ call.callback.number ∈
      decided { s with
        endpoint := (call.step s.endpoint).2
        parties := s.parties.set i (.invoke { call with phase := (call.step s.endpoint).1 }) } := by
  have htraced := h.traced call (List.mem_of_getElem? hp)
  have hmove := call.move s.endpoint
  have hadvance := Advance.step hp hmove (call.limits_step s.endpoint)
  rcases InvokePhase.listed?_eq_some.1 hid with hentered | ⟨failure, hrefused⟩
  · have hafter : (Party.invoke { call with phase := (call.step s.endpoint).1 }).entered? =
        some (id, call.callback) := by
      rw [Party.entered?, hentered]
      rfl
    rcases hmove.entered h.accounted.distinct _ hafter with hin | ⟨hbefore, hstay⟩
    · exact .inl hin
    · obtain ⟨own, hown, heq⟩ := Option.map_eq_some_iff.1 hbefore
      cases heq
      rcases htraced.listed id (InvokePhase.listed?_eq_some.2 (.inl hown)) with hin | hdecided
      · exact (hstay hin).imp_right (decided_set hp)
      · exact .inr (hadvance.decided _ hdecided)
  · obtain ⟨hsame, hlisted, -⟩ := Invocation.step_refused hrefused
    rcases htraced.listed id hlisted with hin | hdecided
    · rw [← hsame] at hin
      exact .inl hin
    · exact .inr (hadvance.decided _ hdecided)

/-- A call that fails was nowhere else before it entered the table, or is taken back from there, unless
somebody else took it and its frame was refused. -/
theorem Issued.failed_step {id : Option UInt64} {failure : Failure} (h : s.Issued room)
    (hids : s.ids.Nodup) (hp : s.parties[i]? = some (.invoke call))
    (hphase : (call.step s.endpoint).1 = .returned id (.error failure)) :
    let s' : Traffic α := { s with
      endpoint := (call.step s.endpoint).2
      parties := s.parties.set i (.invoke { call with phase := (call.step s.endpoint).1 }) }
    s'.places call.callback.number = 0 ∨
      call.callback.number ∈ s'.decided ∧ Refusal room failure := by
  intro s'
  have hcall : .invoke call ∈ s.parties := List.mem_of_getElem? hp
  have htraced := h.traced call hcall
  have hadvance : Advance s s' := .step hp (call.move s.endpoint) (call.limits_step s.endpoint)
  have hgone : (Party.invoke { call with phase := (call.step s.endpoint).1 }).numbers = [] := by
    simp [Party.numbers, Party.held, Party.hand, hphase, InvokePhase.early, InvokePhase.hand]
  rcases Invocation.step_failed hphase with
    ⟨hsame, hreturned | hearly⟩ | ⟨own, hlisted, hend, hwhy⟩
  · exact htraced.failed_advance hadvance hreturned
  · refine .inl (h.accounted.places_eq_zero (places_set hp ?_))
    rw [hgone, hsame]
    simp [Party.numbers, Party.held, hearly]
  · obtain ⟨taken, calls, htaken, hrun⟩ | ⟨hnone, hrun⟩ := withdraw_cases own s.endpoint
    · have hcount := htaken.count_le call.callback.number
      rw [h.callback_eq hids hcall hlisted htaken.mem] at hcount
      refine .inl (h.accounted.places_eq_zero (places_set hp ?_))
      rw [hgone, hend, hrun]
      simp only [Endpoint.numbers, Endpoint.entries, List.count_append, List.count_nil,
        List.count_singleton_self] at hcount ⊢
      omega
    · rcases hwhy with hrefused | htook
      · rcases htraced.listed own hlisted with hin | hdecided
        · exact (hnone _ hin rfl).elim
        · exact .inr ⟨hadvance.decided _ hdecided, htraced.refused own failure hrefused⟩
      · rw [hrun] at htook
        cases htook

theorem Issued.traced_step (h : s.Issued room) (hids : s.ids.Nodup)
    (hp : s.parties[i]? = some (.invoke call)) :
    Traced { s with
      endpoint := (call.step s.endpoint).2
      parties := s.parties.set i (.invoke { call with phase := (call.step s.endpoint).1 }) } room
      { call with phase := (call.step s.endpoint).1 } where
  number_lt := by
    have hlt := (h.traced call (List.mem_of_getElem? hp)).number_lt
    rw [← (call.move s.endpoint).next_eq] at hlt
    exact hlt
  listed _ hid := h.listed_step hp hid
  refused _ _ hphase := by
    obtain ⟨-, -, hfailure, hpolicy⟩ := Invocation.step_refused hphase
    rw [h.limits_eq] at hfailure hpolicy
    exact ⟨hpolicy, hfailure⟩
  failed _ _ hphase := h.failed_step hids hp hphase

theorem Issued.step {p : Party α} (h : s.Issued room) (hids : s.ids.Nodup)
    (hp : s.parties[i]? = some p) (seen : List UInt64) :
    Issued { s with
      endpoint := (p.step seen s.endpoint).2
      parties := s.parties.set i (p.step seen s.endpoint).1 } room := by
  have hmove := p.move seen s.endpoint
  have hlimits := p.limits_step seen s.endpoint
  have hadvance := Advance.step hp hmove hlimits
  obtain ⟨others, hperm, hset⟩ := exists_perm hp
  have hset := hset (p.step seen s.endpoint).1
  constructor
  case accounted => exact h.accounted.step hp hids hmove
  case limits_eq => exact hlimits.trans h.limits_eq
  case owned =>
    intro x hx
    rcases p.listing seen s.endpoint x hx with hown | ⟨hin, hnot⟩
    · exact ⟨_, hset.mem_iff.2 (List.mem_cons_self ..), hown⟩
    · obtain ⟨q, hq, hlisted⟩ := h.owned x hin
      rcases List.mem_cons.1 (hperm.mem_iff.1 hq) with rfl | hq
      · exact (hnot hlisted).elim
      · exact ⟨q, hset.mem_iff.2 (List.mem_cons_of_mem _ hq), hlisted⟩
  case traced =>
    intro call hcall
    rcases List.mem_cons.1 (hset.mem_iff.1 hcall) with hown | hother
    · cases p with
      | invoke call =>
        cases hown
        exact h.traced_step hids hp
      | _ => cases hown
    · refine (h.traced call (hperm.mem_iff.2 (List.mem_cons_of_mem _ hother))).advance hadvance ?_
      intro id hid hin
      rcases hmove.kept h.accounted.distinct _ hin with hleft | hout | hpid
      · exact .inl hleft
      · exact .inr (decided_set hp hout)
      · have hcallid : (Party.invoke call).id? = some id := InvokePhase.id?_of_listed? hid
        exact (id?_ne_of_perm hids hperm hpid hother hcallid).elim

end

theorem Issued.begin {p : Party α} {next : Nat} (h : s.Issued room)
    (hnext : s.endpoint.trace.nextCallback ≤ next)
    (hnumbers : ∀ n ∈ p.numbers, s.endpoint.trace.nextCallback ≤ n)
    (hacc : Accounted { s with
      endpoint := { s.endpoint with trace := { s.endpoint.trace with nextCallback := next } }
      parties := s.parties ++ [p] })
    (hnew : ∀ call, p = .invoke call → call.phase = .opening ∧ call.callback.number < next) :
    Issued { s with
      endpoint := { s.endpoint with trace := { s.endpoint.trace with nextCallback := next } }
      parties := s.parties ++ [p] } room where
  accounted := hacc
  limits_eq := h.limits_eq
  owned x hx := by
    obtain ⟨q, hq, hlisted⟩ := h.owned x hx
    exact ⟨q, List.mem_append_left _ hq, hlisted⟩
  traced call hcall := by
    rcases List.mem_append.1 hcall with hcall | hcall
    · exact (h.traced call hcall).advance (.begin p hnext hnumbers) fun _ _ hin => .inl hin
    · obtain ⟨hphase, hlt⟩ := hnew call (List.mem_singleton.1 hcall).symm
      constructor
      case number_lt => exact hlt
      all_goals
        rw [hphase]
        nofun

theorem Issued.claim {claimed : List Callback} {e : Endpoint α} (h : s.Issued room)
    (hpass : Passing (s.claimed.map (·.number)) (claimed.map (·.number)) s.endpoint e)
    (hlimits : e.limits = s.endpoint.limits) :
    Issued { s with endpoint := e, claimed } room where
  accounted := h.accounted.claim hpass
  limits_eq := hlimits.trans h.limits_eq
  owned x hx := h.owned x (hpass.mem_of_mem x hx)
  traced call hcall := by
    refine (h.traced call hcall).advance (.claim hpass hlimits) fun id _ hin => ?_
    refine (hpass.kept h.accounted.distinct _ hin).imp_right fun hout => ?_
    exact mem_decided.2 (.inr (List.mem_append.1 hout))

theorem Issued.act (h : s.Issued room) (hids : s.ids.Nodup) (a : TrafficAction α) :
    (s.act a).Issued room := by
  have hacc := h.accounted.act hids a
  cases a with
  | invoke method payload timeout awaited =>
    refine h.begin (Nat.le_succ _) (fun n hn => ?_) hacc fun call hcall => ?_
    · exact Nat.le_of_eq (List.mem_singleton.1 hn).symm
    · cases hcall
      exact ⟨rfl, Nat.lt_succ_self _⟩
  | answer message => exact h.begin (Nat.le_refl _) (fun _ hn => nomatch hn) hacc fun _ => nofun
  | close failure => exact h.begin (Nat.le_refl _) (fun _ hn => nomatch hn) hacc fun _ => nofun
  | send bytes => exact h.begin (Nat.le_refl _) (fun _ hn => nomatch hn) hacc fun _ => nofun
  | step i seen =>
    simp only [Traffic.act]
    split
    · exact h
    · next p hp => exact h.step hids hp seen
  | fire timer =>
    simp only [Traffic.act]
    split
    · refine h.claim ?_ rfl
      rw [List.map_append]
      exact Endpoint.timeOut_passing ..
    · exact h
  | deliver i =>
    simp only [Traffic.act]
    split
    · exact h
    · next callback hcallback => exact h.claim (Endpoint.deliverTimeout_passing hcallback _) rfl
  | pop =>
    simp only [Traffic.act]
    split
    · exact h
    · next hpop => exact h.claim (.still rfl rfl rfl rfl) (Outbound.limits_pop? hpop)
  | pass ms => exact h.claim (.still rfl rfl rfl rfl) rfl

theorem Issued.run (h : s.Issued room) {actions : List (TrafficAction α)}
    (hids : (s.run actions).ids.Nodup) : (s.run actions).Issued room := by
  induction actions generalizing s with
  | nil => exact h
  | cons a actions ih =>
    exact ih (h.act (hids.sublist ((ids_act a).trans (ids_run actions))) a) hids

-- ---------------------------------------------------------------------------
-- Failing
-- ---------------------------------------------------------------------------

/-- What becomes of the callbacks of calls whose issuing failed. -/
structure FailuresSilent (s : Traffic α) (room : OverflowPolicy × Nat) : Prop where
  /-- It may be told if and only if somebody has taken the call out of the table to tell it. -/
  told_iff : ∀ (call : Invocation α) (id : Option UInt64) (failure : Failure),
    .invoke call ∈ s.parties → call.phase = .returned id (.error failure) →
      ((∃ more, call.callback.number ∈ (s.run more).told) ↔ call.callback.number ∈ s.decided)
  /-- Nobody has, unless a full buffer refused the frame. -/
  refusal : ∀ (call : Invocation α) (id : Option UInt64) (failure : Failure),
    .invoke call ∈ s.parties → call.phase = .returned id (.error failure) →
      call.callback.number ∈ s.decided → Refusal room failure
  /-- When a frame has been refused, the table says whether somebody has taken the call. -/
  decided_iff : ∀ (call : Invocation α) (id : UInt64) (failure : Failure),
    .invoke call ∈ s.parties → call.phase = .refused id failure →
      (call.callback.number ∈ s.decided ↔ (id, call.callback) ∉ s.endpoint.entries)

theorem Issued.failuresSilent (h : s.Issued room) : s.FailuresSilent room where
  told_iff call id failure hcall hphase := by
    refine ⟨fun ⟨more, htold⟩ => ?_, exists_told⟩
    rcases (h.traced call hcall).failed id failure hphase with hnone | ⟨hdecided, -⟩
    · exact (not_mem_told (h.traced call hcall).number_lt hnone more htold).elim
    · exact hdecided
  refusal call id failure hcall hphase hdecided := by
    rcases (h.traced call hcall).failed id failure hphase with hnone | ⟨-, hrefusal⟩
    · have hle := count_decided_le (s := s) call.callback.number
      have hpos := List.count_pos_iff.2 hdecided
      omega
    · exact hrefusal
  decided_iff call id failure hcall hphase := by
    constructor
    · intro hdecided hin
      have hle := count_decided_le (s := s) call.callback.number
      have hone : s.places call.callback.number ≤ 1 := h.accounted.places_le_one _
      have hpos := List.count_pos_iff.2 hdecided
      have hentry : call.callback.number ∈ s.endpoint.entries.map (·.2.number) :=
        List.mem_map.2 ⟨_, hin, rfl⟩
      have hentry := List.count_pos_iff.2 hentry
      omega
    · intro hnot
      have hlisted : call.phase.listed? = some id := by
        rw [hphase]
        rfl
      exact ((h.traced call hcall).listed id hlisted).resolve_left hnot

/-- Whatever the order in which operations, deadlines and the transport take their steps, a call whose
issuing failed is never told an outcome, unless somebody took it while its frame was being refused. -/
theorem run_failuresSilent {codec : Codec α} {outbound : Outbound} {callTimeout : Option Millis}
    {actions : List (TrafficAction α)}
    (h : ((start codec outbound callTimeout).run actions).ids.Nodup) :
    ((start codec outbound callTimeout).run actions).FailuresSilent outbound.limits :=
  ((issued_start codec outbound callTimeout).run h).failuresSilent

/-- A buffer with room for one frame. -/
def single : Outbound := { policy := .rejectNew, capacity := 1 }

/-- The call is in the table when the connection is closed and the buffer cleared. A frame that was on
its way fills the buffer. Whoever closes takes the call, and then its frame is refused. -/
def refusedWhileClosing : List (TrafficAction Empty) :=
  .invoke "call" .empty none true :: .send ⟨#[0]⟩ :: .close .closed ::
    [0, 0, 0, 0, 2, 2, 2, 1, 2, 2, 2, 2, 0, 0].map (.step · [1])

theorem run_failuresSilent_refusedWhileClosing :
    ((start ⟨{}, .generic⟩ single none).run refusedWhileClosing).ids.Nodup ∧
      ((start ⟨{}, .generic⟩ single none).run refusedWhileClosing).FailuresSilent single.limits := by
  have h : ((start ⟨{}, .generic⟩ single none).run refusedWhileClosing).ids = [1] := by cbv
  have hnodup : ((start ⟨{}, .generic⟩ single none).run refusedWhileClosing).ids.Nodup := by
    rw [h]
    decide
  exact ⟨hnodup, run_failuresSilent hnodup⟩

theorem run_refusedWhileClosing :
    ∃ call, .invoke call ∈ ((start ⟨{}, .generic⟩ single none).run refusedWhileClosing).parties ∧
      call.phase = .returned (some 1) (.error (.link (.bufferFull 1))) ∧
      call.callback.number ∉ ((start ⟨{}, .generic⟩ single none).run refusedWhileClosing).told ∧
      call.callback.number ∈
        ((start ⟨{}, .generic⟩ single none).run (refusedWhileClosing ++ [.step 2 []])).told := by
  have hfirst : ((start ⟨{}, .generic⟩ single none).run refusedWhileClosing).parties[0]? =
      some (.invoke ⟨"call", .empty, none, ⟨0, true⟩,
        .returned (some 1) (.error (.link (.bufferFull 1)))⟩) := by cbv
  have hbefore : ((start ⟨{}, .generic⟩ single none).run refusedWhileClosing).told = [] := by cbv
  have hafter : ((start ⟨{}, .generic⟩ single none).run
      (refusedWhileClosing ++ [.step 2 []])).told = [0] := by cbv
  refine ⟨_, List.mem_of_getElem? hfirst, rfl, ?_, ?_⟩
  · rw [hbefore]
    exact List.not_mem_nil
  · rw [hafter]
    exact List.mem_singleton_self 0

end Traffic
end GraphRpc
