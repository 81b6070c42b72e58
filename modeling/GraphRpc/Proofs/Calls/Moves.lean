import Mathlib
import GraphRpc.Proofs.Calls.Table
import GraphRpc.Proofs.Calls.Traffic

/-!
# What operations do to calls

Each callback is at one place at a time: with the operation that issues its call, in the table, in
the hand of whoever took the call out, or told. A step of an operation moves at most one callback
from one place to the next.
-/

namespace GraphRpc

variable {α : Type}

-- ---------------------------------------------------------------------------
-- What was told
-- ---------------------------------------------------------------------------

def Effect.told? : Effect α → Option Nat
  | resolved callback _ => some callback.number
  | _ => none

def Trace.told (t : Trace α) : List Nat := t.effects.filterMap Effect.told?

theorem Trace.told_emit (t : Trace α) (effect : Effect α) :
    (t.emit effect).told = t.told ++ effect.told?.toList := by
  simp only [told, emit, List.filterMap_append, List.filterMap_cons, List.filterMap_nil]
  cases effect.told? <;> rfl

@[simp] theorem Trace.told_finish (t : Trace α) (callback : Callback)
    (outcome : Except Failure (Payload α)) :
    (t.finish callback outcome).told = t.told ++ [callback.number] := by
  rw [finish, told_emit]
  rfl

namespace Endpoint

def entries (e : Endpoint α) : List (UInt64 × Callback) := e.connection.calls.entries

/-- The callbacks in the table and those that were told. -/
def numbers (e : Endpoint α) : List Nat := e.entries.map (·.2.number) ++ e.trace.told

end Endpoint

-- ---------------------------------------------------------------------------
-- Where a call stands with an operation
-- ---------------------------------------------------------------------------

/-- The callback of the call that was taken and not yet told. -/
def Deciding.hand : Deciding α → List Nat
  | telling call _ => [call.callback.number]
  | taking .. | done => []

/-- Whether it is to take the call under `id`. -/
def Deciding.aims : Deciding α → UInt64 → Prop
  | taking target _, id => target = id
  | telling _ _, _ | done, _ => False

namespace InvokePhase

def early : InvokePhase α → Bool
  | opening | numbering | encoding _ | entering .. => true
  | _ => false

def hand : InvokePhase α → List Nat
  | evicting _ d => d.hand
  | _ => []

def id? : InvokePhase α → Option UInt64
  | opening | numbering => none
  | encoding id | entering id _ | pushing id _ | refused id _ | evicting id _ | rechecking id
  | withdrawing id | arming id => some id
  | returned _ (.ok id) => some id
  | returned id (.error _) => id

/-- The id, once the call is in the table and unless it is to be taken back for sure. -/
def entered? : InvokePhase α → Option UInt64
  | pushing id _ | evicting id _ | rechecking id | withdrawing id | arming id => some id
  | returned _ (.ok id) => some id
  | _ => none

/-- Whether it still looks after the call under `id`, should the connection be closed. -/
def guards : InvokePhase α → UInt64 → Prop
  | pushing own _, id | refused own _, id | evicting own _, id | rechecking own, id
  | withdrawing own, id => own = id
  | _, _ => False

end InvokePhase

namespace ClosingPhase

def hand : ClosingPhase α → List Nat
  | failing _ d => d.hand
  | _ => []

/-- Whether it is going to take the call under `id`. -/
def guards : ClosingPhase α → UInt64 → Prop
  | signalling, _ | clearing, _ | listing, _ => True
  | iterating present, id => id ∈ present
  | failing ids d, id => id ∈ ids ∨ d.aims id
  | swapping, _ | returned, _ => False

end ClosingPhase

namespace Party

def held : Party α → List Nat
  | invoke call => if call.phase.early then [call.callback.number] else []
  | answer _ | close .. | send _ => []

def hand : Party α → List Nat
  | invoke call => call.phase.hand
  | answer d => d.hand
  | close _ phase => phase.hand
  | send (.evicting d) => d.hand
  | send (.pushing _) => []

def id? : Party α → Option UInt64
  | invoke call => call.phase.id?
  | answer _ | close .. | send _ => none

def entered? : Party α → Option (UInt64 × Callback)
  | invoke call => call.phase.entered?.map (·, call.callback)
  | answer _ | close .. | send _ => none

def guards : Party α → UInt64 → Prop
  | invoke call, id => call.phase.guards id
  | close _ phase, id => phase.guards id
  | answer _, _ | send _, _ => False

theorem id?_of_entered? {p : Party α} {x : UInt64 × Callback} (h : p.entered? = some x) :
    p.id? = some x.1 := by
  cases p with
  | invoke call =>
    simp only [entered?, Option.map_eq_some_iff] at h
    obtain ⟨id, hid, rfl⟩ := h
    revert hid
    simp only [id?]
    cases call.phase with
    | returned id' result => cases result <;> simp [InvokePhase.entered?, InvokePhase.id?]
    | _ => simp [InvokePhase.entered?, InvokePhase.id?]
  | _ => simp [entered?] at h

end Party

-- ---------------------------------------------------------------------------
-- Taking calls out to tell them
-- ---------------------------------------------------------------------------

/-- From `e` to `e'` no call enters the table, and one that leaves it comes into the hand or is told
from there. -/
structure Passing (hand hand' : List Nat) (e e' : Endpoint α) : Prop where
  next_eq : e'.trace.nextCallback = e.trace.nextCallback
  closed_eq : e'.connection.closed = e.connection.closed
  count_le : ∀ n, hand'.count n + e'.numbers.count n ≤ hand.count n + e.numbers.count n
  distinct : e.connection.calls.Distinct → e'.connection.calls.Distinct
  mem_of_mem : ∀ x ∈ e'.entries, x ∈ e.entries
  kept : e.connection.calls.Distinct →
    ∀ x ∈ e.entries, x ∈ e'.entries ∨ x.2.number ∈ hand' ++ e'.trace.told
  told : ∀ n ∈ hand ++ e.trace.told, n ∈ hand' ++ e'.trace.told

theorem Passing.still {hand : List Nat} {e e' : Endpoint α} (hentries : e'.entries = e.entries)
    (htold : e'.trace.told = e.trace.told) (hnext : e'.trace.nextCallback = e.trace.nextCallback)
    (hclosed : e'.connection.closed = e.connection.closed) : Passing hand hand e e' where
  next_eq := hnext
  closed_eq := hclosed
  count_le n := Nat.le_of_eq (by rw [Endpoint.numbers, Endpoint.numbers, hentries, htold])
  distinct hd := by
    rw [Calls.Distinct] at hd ⊢
    exact (congrArg (fun l => (l.map Prod.fst).Nodup) hentries).mpr hd
  mem_of_mem x hx := hentries ▸ hx
  kept _ x hx := .inl (hentries ▸ hx)
  told n hn := htold ▸ hn

theorem Passing.refl {hand : List Nat} {e : Endpoint α} : Passing hand hand e e :=
  .still rfl rfl rfl rfl

theorem Passing.trans {a b c : List Nat} {e e' e'' : Endpoint α} (h : Passing a b e e')
    (h' : Passing b c e' e'') : Passing a c e e'' where
  next_eq := h'.next_eq.trans h.next_eq
  closed_eq := h'.closed_eq.trans h.closed_eq
  count_le n := Nat.le_trans (h'.count_le n) (h.count_le n)
  distinct hd := h'.distinct (h.distinct hd)
  mem_of_mem x hx := h.mem_of_mem x (h'.mem_of_mem x hx)
  kept hd x hx := by
    rcases h.kept hd x hx with hleft | htold
    · exact h'.kept (h.distinct hd) x hleft
    · exact .inr (h'.told _ htold)
  told n hn := h'.told n (h.told n hn)

theorem withdraw_cases (id : UInt64) (e : Endpoint α) :
    (∃ call calls, e.connection.calls.Taken id call calls ∧ (Endpoint.withdraw id).run e =
      (some call, { e with connection := { e.connection with calls } })) ∨
    ((∀ x ∈ e.entries, x.1 ≠ id) ∧ (Endpoint.withdraw id).run e = (none, e)) := by
  cases h : e.connection.calls.take? id with
  | some taken =>
    obtain ⟨call, calls⟩ := taken
    refine .inl ⟨call, calls, Calls.take?_some h, ?_⟩
    rw [Endpoint.withdraw_run, h]
  | none =>
    refine .inr ⟨Calls.take?_none h, ?_⟩
    rw [Endpoint.withdraw_run, h]

theorem Calls.Taken.passing {e : Endpoint α} {id : UInt64} {call : PendingCall} {calls : Calls}
    (h : e.connection.calls.Taken id call calls) (hand : List Nat) :
    Passing hand (hand ++ [call.callback.number]) e
      { e with connection := { e.connection with calls } } where
  next_eq := rfl
  closed_eq := rfl
  count_le n := by
    have hle := h.count_le n
    simp only [Endpoint.numbers, Endpoint.entries, List.count_append]
    omega
  distinct := h.distinct
  mem_of_mem _ hx := (h.mem_of_mem hx).1
  kept hd x hx := by
    rcases h.kept hd hx with hleft | rfl
    · exact .inl hleft
    · exact .inr (List.mem_append_left _ (List.mem_append_right _ (List.mem_singleton_self _)))
  told n hn := by
    rcases List.mem_append.1 hn with hhand | htold
    · exact List.mem_append_left _ (List.mem_append_left _ hhand)
    · exact List.mem_append_right _ htold

theorem Endpoint.finish_passing {hand rest : List Nat} {callback : Callback}
    (h : hand.Perm (callback.number :: rest)) (outcome : Except Failure (Payload α))
    (e : Endpoint α) :
    Passing hand rest e { e with trace := e.trace.finish callback outcome } where
  next_eq := rfl
  closed_eq := rfl
  count_le n := by
    simp only [h.count_eq, numbers, entries, Trace.told_finish, List.count_append, List.count_cons,
      List.count_nil]
    omega
  distinct := id
  mem_of_mem _ hx := hx
  kept _ _ hx := .inl hx
  told n hn := by
    simp only [Trace.told_finish]
    rcases List.mem_append.1 hn with hhand | htold
    · rcases List.mem_cons.1 (h.mem_iff.1 hhand) with rfl | hrest
      · exact List.mem_append_right _ (List.mem_append_right _ (List.mem_singleton_self _))
      · exact List.mem_append_left _ hrest
    · exact List.mem_append_right _ (List.mem_append_left _ htold)

theorem Deciding.passing (d : Deciding α) (e : Endpoint α) :
    Passing d.hand (d.step e).1.hand e (d.step e).2 := by
  cases d with
  | taking id outcome =>
    obtain ⟨call, calls, htaken, hrun⟩ | ⟨-, hrun⟩ := withdraw_cases id e
    · simp only [step, hrun]
      exact htaken.passing []
    · simp only [step, hrun]
      exact .refl
  | telling call outcome => exact Endpoint.finish_passing (.refl _) outcome e
  | done => exact .refl

/-- Whether it took the call or found nothing, it is not in the table any more. -/
theorem Deciding.not_aims (d : Deciding α) (e : Endpoint α) {x : UInt64 × Callback}
    (hx : x ∈ (d.step e).2.entries) : ¬ d.aims x.1 := by
  cases d with
  | taking id outcome =>
    obtain ⟨call, calls, htaken, hrun⟩ | ⟨hnone, hrun⟩ := withdraw_cases id e
    · simp only [step, hrun] at hx
      exact fun haims => (htaken.mem_of_mem hx).2 haims.symm
    · simp only [step, hrun] at hx
      exact fun haims => hnone x hx haims.symm
  | telling call outcome => exact id
  | done => exact id

theorem Deciding.hand_ofEvicted {evicted : Option OutboundFrame} :
    (ofEvicted evicted : Deciding α).hand = [] := by
  unfold ofEvicted
  split <;> rfl

theorem Endpoint.push_passing {e e' : Endpoint α} {frame : OutboundFrame} {d : Deciding α}
    (h : e.push frame = .ok (d, e')) : Passing [] d.hand e e' := by
  unfold push at h
  split at h
  · cases h
  · next evicted outbound hpush =>
    simp only [Except.ok.injEq, Prod.mk.injEq] at h
    obtain ⟨rfl, rfl⟩ := h
    rw [Deciding.hand_ofEvicted]
    refine .still rfl ?_ rfl rfl
    exact (Trace.told_emit ..).trans (List.append_nil _)

theorem Endpoint.arm_passing {hand : List Nat} (id : UInt64) (after : Millis) (e : Endpoint α) :
    Passing hand hand e ((arm id after).run e).2 := by
  have hentries : (e.connection.calls.arm id (e.trace.now + after)).2.entries = e.entries :=
    Calls.entries_arm
  simp only [arm, StateT.run, modify, modifyGet, MonadStateOf.modifyGet, StateT.modifyGet]
  revert hentries
  generalize e.connection.calls.arm id (e.trace.now + after) = armed
  obtain ⟨timer, calls⟩ := armed
  intro hentries
  cases timer with
  | none => exact .still hentries rfl rfl rfl
  | some timer =>
    refine .still hentries ?_ rfl rfl
    exact (Trace.told_emit ..).trans (List.append_nil _)

theorem Endpoint.timeOut_run {e : Endpoint α} {timer : Timer} {call : Option PendingCall}
    {calls : Calls} (h : e.connection.calls.fire timer = (call, calls)) :
    (timeOut timer).run e =
      (call.map (·.callback), { e with connection := { e.connection with calls } }) := by
  simp only [timeOut, StateT.run, modifyGet, MonadStateOf.modifyGet, StateT.modifyGet, h]
  rfl

theorem Endpoint.timeOut_passing (hand : List Nat) (timer : Timer) (e : Endpoint α) :
    Passing hand (hand ++ ((timeOut timer).run e).1.toList.map (·.number)) e
      ((timeOut timer).run e).2 := by
  cases hfire : e.connection.calls.fire timer with
  | mk call calls =>
    rw [timeOut_run hfire]
    cases call with
    | none =>
      have hpass : Passing hand hand e { e with connection := { e.connection with calls } } :=
        .still (Calls.fire_none hfire) rfl rfl rfl
      exact (List.append_nil hand).symm ▸ hpass
    | some call => exact (Calls.fire_some hfire).passing hand

theorem Endpoint.deliverTimeout_passing {claimed : List Callback} {i : Nat} {callback : Callback}
    (h : claimed[i]? = some callback) (e : Endpoint α) :
    Passing (claimed.map (·.number)) ((claimed.eraseIdx i).map (·.number)) e
      ((deliverTimeout callback).run e).2 := by
  obtain ⟨hi, rfl⟩ := List.getElem?_eq_some_iff.1 h
  exact finish_passing ((List.getElem_cons_eraseIdx_perm hi).symm.map (·.number)) _ e

-- ---------------------------------------------------------------------------
-- Steps of one operation
-- ---------------------------------------------------------------------------

/-- What a step of an operation, from `p` to `p'`, may do to the calls. Only its own call may it take
back or put in the place of another. -/
structure Move (p p' : Party α) (e e' : Endpoint α) : Prop where
  next_eq : e'.trace.nextCallback = e.trace.nextCallback
  count_le : ∀ n, p'.held.count n + p'.hand.count n + e'.numbers.count n ≤
    p.held.count n + p.hand.count n + e.numbers.count n
  distinct : e.connection.calls.Distinct → e'.connection.calls.Distinct
  id? : ∀ id, p.id? = some id → p'.id? = some id
  told : ∀ n ∈ p.hand ++ e.trace.told, n ∈ p'.hand ++ e'.trace.told
  kept : e.connection.calls.Distinct → ∀ x ∈ e.entries,
    x ∈ e'.entries ∨ x.2.number ∈ p'.hand ++ e'.trace.told ∨ p.id? = some x.1
  entered : e.connection.calls.Distinct → ∀ x, p'.entered? = some x → x ∈ e'.entries ∨
    p.entered? = some x ∧ (x ∈ e.entries → x ∈ e'.entries ∨ x.2.number ∈ p'.hand ++ e'.trace.told)
  guarded : e'.connection.closed → ∀ x ∈ e'.entries,
    p'.guards x.1 ∨ e.connection.closed ∧ x ∈ e.entries ∧ ¬ p.guards x.1

section
variable {p p' : Party α} {e e' : Endpoint α}

theorem Move.of_passing (h : Passing p.hand p'.hand e e')
    (hheld : ∀ n, p'.held.count n ≤ p.held.count n)
    (hid : ∀ id, p.id? = some id → p'.id? = some id)
    (hentered : ∀ x, p'.entered? = some x → p.entered? = some x)
    (hguards : e.connection.closed → ∀ x ∈ e'.entries, p.guards x.1 → p'.guards x.1) :
    Move p p' e e' where
  next_eq := h.next_eq
  count_le n := by
    have hcount := h.count_le n
    have hheld := hheld n
    omega
  distinct := h.distinct
  id? := hid
  told := h.told
  kept hd x hx := (h.kept hd x hx).imp_right .inl
  entered hd x hx := .inr ⟨hentered x hx, h.kept hd x⟩
  guarded hclosed x hx := by
    rw [h.closed_eq] at hclosed
    by_cases hp : p.guards x.1
    · exact .inl (hguards hclosed x hx hp)
    · exact .inr ⟨hclosed, h.mem_of_mem x hx, hp⟩

end

section
open InvokePhase

variable {call : Invocation α} {phase : InvokePhase α} {e e' : Endpoint α}

theorem Move.invoke (h : Passing call.phase.hand phase.hand e e')
    (hearly : phase.early → call.phase.early)
    (hid : ∀ id, call.phase.id? = some id → phase.id? = some id)
    (hentered : ∀ id, phase.entered? = some id → call.phase.entered? = some id)
    (hguards : e.connection.closed → ∀ x ∈ e'.entries, call.phase.guards x.1 → phase.guards x.1) :
    Move (.invoke call) (.invoke { call with phase }) e e' := by
  refine .of_passing h (fun n => ?_) hid (fun x hx => ?_) hguards
  · simp only [Party.held]
    by_cases hphase : phase.early
    · exact Nat.le_of_eq (by rw [if_pos hphase, if_pos (hearly hphase)])
    · rw [if_neg hphase]
      exact Nat.zero_le _
  · simp only [Party.entered?, Option.map_eq_some_iff] at hx ⊢
    obtain ⟨id, hphase, hx⟩ := hx
    exact ⟨id, hentered id hphase, hx⟩

theorem Move.enter {id : UInt64} {bytes : ByteArray} {timeout : Option Millis}
    (hphase : call.phase = .entering id bytes) :
    Move (.invoke call) (.invoke { call with phase := .pushing id bytes }) e
      ((Endpoint.enterCall id call.callback timeout).run e).2 := by
  have hentries : ((Endpoint.enterCall id call.callback timeout).run e).2.entries =
      e.connection.calls.without id ++ [(id, call.callback)] := Calls.entries_insert
  have htold : ((Endpoint.enterCall id call.callback timeout).run e).2.trace.told = e.trace.told :=
    rfl
  constructor
  case next_eq => rfl
  case count_le =>
    intro n
    have hle : ((e.connection.calls.without id).map (·.2.number)).count n ≤
        (e.entries.map (·.2.number)).count n := (List.filter_sublist.map _).count_le n
    simp only [Party.held, Party.hand, hphase, InvokePhase.early, InvokePhase.hand, if_true,
      Bool.false_eq_true, if_false, Endpoint.numbers, hentries, htold, List.map_append, List.map_cons,
      List.map_nil, List.count_append, List.count_nil]
    omega
  case distinct => exact Calls.Distinct.insert
  case id? => simp [Party.id?, InvokePhase.id?, hphase]
  case told => simp [Party.hand, InvokePhase.hand, hphase, htold]
  case kept =>
    intro _ x hx
    rw [hentries]
    rcases Calls.mem_without_or id hx with hleft | rfl
    · exact .inl (List.mem_append_left _ hleft)
    · exact .inr (.inr (by simp [Party.id?, InvokePhase.id?, hphase]))
  case entered =>
    intro _ x hx
    simp only [Party.entered?, InvokePhase.entered?, Option.map_some, Option.some.injEq] at hx
    rw [hentries, ← hx]
    exact .inl (List.mem_append_right _ (List.mem_singleton_self _))
  case guarded =>
    intro hclosed x hx
    rw [hentries, List.mem_append] at hx
    rcases hx with hx | hx
    · exact .inr ⟨hclosed, (Calls.mem_of_mem_without hx).1,
        by simp [Party.guards, InvokePhase.guards, hphase]⟩
    · rw [List.mem_singleton.1 hx]
      exact .inl rfl

theorem Move.withdraw {id : UInt64} {taken : PendingCall} {calls : Calls} {failure : Failure}
    (htaken : e.connection.calls.Taken id taken calls) (hhand : call.phase.hand = [])
    (hid : call.phase.id? = some id) (hguards : ∀ i, call.phase.guards i → id = i) :
    Move (.invoke call) (.invoke { call with phase := .returned id (.error failure) }) e
      { e with connection := { e.connection with calls } } := by
  constructor
  case next_eq => rfl
  case count_le =>
    intro n
    have hle := htaken.count_le n
    simp only [Party.held, Party.hand, InvokePhase.early, InvokePhase.hand, Bool.false_eq_true,
      if_false, Endpoint.numbers, Endpoint.entries, List.count_append, List.count_nil]
    omega
  case distinct => exact htaken.distinct
  case id? =>
    intro i hi
    simp only [Party.id?, hid] at hi ⊢
    exact hi
  case told =>
    intro n hn
    rw [Party.hand, hhand] at hn
    exact hn
  case kept =>
    intro hd x hx
    rcases htaken.kept hd hx with hleft | rfl
    · exact .inl hleft
    · exact .inr (.inr hid)
  case entered => simp [Party.entered?, InvokePhase.entered?]
  case guarded =>
    intro hclosed x hx
    obtain ⟨hmem, hne⟩ := htaken.mem_of_mem hx
    exact .inr ⟨hclosed, hmem, fun hg => hne (hguards _ hg).symm⟩

theorem Invocation.move (call : Invocation α) (e : Endpoint α) :
    Move (.invoke call) (.invoke { call with phase := (call.step e).1 }) e (call.step e).2 := by
  obtain ⟨method, payload, timeout, callback, phase⟩ := call
  cases phase with
  | opening =>
    simp only [step]
    split
    · exact .invoke .refl (by simp [early]) (by simp [id?]) (by simp [entered?]) (by simp [guards])
    · exact .invoke .refl (by simp [early]) (by simp [id?]) (by simp [entered?]) (by simp [guards])
  | numbering =>
    simp only [step, Endpoint.takeCallId_run]
    exact .invoke (.still rfl rfl rfl rfl) (by simp [early]) (by simp [id?]) (by simp [entered?])
      (by simp [guards])
  | encoding id =>
    simp only [step]
    split
    · exact .invoke .refl (by simp [early]) (by simp [id?]) (by simp [entered?]) (by simp [guards])
    · exact .invoke .refl (by simp [early]) (by simp [id?]) (by simp [entered?]) (by simp [guards])
  | entering id bytes => exact .enter rfl
  | pushing id bytes =>
    simp only [step]
    split
    · next d e' hpush =>
      exact .invoke (Endpoint.push_passing hpush) (by simp [early]) (by simp [id?])
        (by simp [entered?]) (by simp [guards])
    · exact .invoke .refl (by simp [early]) (by simp [id?]) (by simp [entered?]) (by simp [guards])
  | refused id failure =>
    obtain ⟨taken, calls, htaken, hrun⟩ | ⟨hnone, hrun⟩ := withdraw_cases id e
    · simp only [step, hrun]
      exact .withdraw htaken rfl rfl (by simp [guards])
    · simp only [step, hrun]
      exact .invoke .refl (by simp [early]) (by simp [id?]) (by simp [entered?])
        fun _ x hx hg => hnone x hx hg.symm
  | evicting id d =>
    by_cases hd : d = .done
    · subst hd
      simp only [step]
      exact .invoke .refl (by simp [early]) (by simp [id?]) (by simp [entered?]) (by simp [guards])
    · rw [step_evicting rfl hd]
      exact .invoke (d.passing e) (by simp [early]) (by simp [id?]) (by simp [entered?])
        (by simp [guards])
  | rechecking id =>
    simp only [step]
    split
    · exact .invoke .refl (by simp [early]) (by simp [id?]) (by simp [entered?]) (by simp [guards])
    · next hopen =>
      -- Whoever closes later goes through the table after this call has entered it.
      exact .invoke .refl (by simp [early]) (by simp [id?]) (by simp [entered?])
        fun hclosed => (hopen hclosed).elim
  | withdrawing id =>
    obtain ⟨taken, calls, htaken, hrun⟩ | ⟨hnone, hrun⟩ := withdraw_cases id e
    · simp only [step, hrun]
      exact .withdraw htaken rfl rfl (by simp [guards])
    · simp only [step, hrun]
      exact .invoke .refl (by simp [early]) (by simp [id?]) (by simp [entered?])
        fun _ x hx hg => hnone x hx hg.symm
  | arming id =>
    have hcount (e : Endpoint α) :
        Passing [] [] e ((Endpoint.count Counters.callIssued).run e).2 := .still rfl rfl rfl rfl
    simp only [step]
    split
    · next after _ =>
      exact .invoke ((Endpoint.arm_passing id after e).trans (hcount _)) (by simp [early])
        (by simp [id?]) (by simp [entered?]) (by simp [guards])
    · exact .invoke (hcount e) (by simp [early]) (by simp [id?]) (by simp [entered?])
        (by simp [guards])
  | returned id result =>
    exact .invoke .refl (fun h => h) (fun _ h => h) (fun _ h => h) (fun _ _ _ h => h)

end

section
variable {failure : Failure} {phase phase' : ClosingPhase α} {e e' : Endpoint α}

theorem Move.close (h : Passing phase.hand phase'.hand e e')
    (hguards : e.connection.closed → ∀ x ∈ e'.entries, phase.guards x.1 → phase'.guards x.1) :
    Move (.close failure phase) (.close failure phase') e e' :=
  .of_passing h (fun _ => Nat.le_refl _) (fun _ hid => hid) (fun _ hx => hx) hguards

/-- The step that makes the connection closed. From then on the operation looks after every call. -/
theorem Move.swap :
    Move (.close failure .swapping) (.close failure .signalling) e
      { e with connection := { e.connection with closed := true } } where
  next_eq := rfl
  count_le _ := Nat.le_refl _
  distinct := id
  id? _ hid := hid
  told _ hn := hn
  kept _ _ hx := .inl hx
  entered _ _ hx := nomatch hx
  guarded _ _ _ := .inl trivial

theorem ClosingPhase.move (phase : ClosingPhase α) (failure : Failure) (seen : List UInt64)
    (e : Endpoint α) :
    Move (.close failure phase) (.close failure (phase.step failure seen e).1) e
      (phase.step failure seen e).2 := by
  cases phase with
  | swapping =>
    simp only [step]
    split
    · exact .close .refl fun _ _ _ hg => hg
    · exact .swap
  | signalling =>
    have htold : (e.trace.emit .closeSignalled).told = e.trace.told :=
      (Trace.told_emit ..).trans (List.append_nil _)
    exact .close (.still rfl htold rfl rfl) fun _ _ _ _ => trivial
  | clearing => exact .close (.still rfl rfl rfl rfl) fun _ _ _ _ => trivial
  | listing =>
    refine .close .refl fun _ x hx _ => ?_
    obtain ⟨call, hcall, rfl⟩ := List.mem_map.1 hx
    exact List.mem_map_of_mem hcall
  | iterating present =>
    simp only [step]
    split
    · next hseen =>
      -- A call that was there when it began and is there now, was there all the time.
      refine .close .refl fun _ x hx hg => .inl ?_
      have hfound := List.all_eq_true.1 hseen x.1 hg
      have hcontains : e.connection.calls.contains x.1 := Calls.contains_iff.2 ⟨x, hx, rfl⟩
      simpa [hcontains] using hfound
    · exact .close .refl fun _ _ _ hg => hg
  | failing ids d =>
    by_cases hd : d = .done
    · subst hd
      cases ids with
      | nil => exact .close .refl fun _ _ _ hg => hg.elim (nomatch ·) id
      | cons id ids =>
        refine .close .refl fun _ x _ hg => ?_
        rcases hg with hmem | haims
        · rcases List.mem_cons.1 hmem with rfl | hmem
          · exact .inr rfl
          · exact .inl hmem
        · exact haims.elim
    · rw [step_failing hd]
      refine .close (d.passing e) fun _ x hx hg => .inl ?_
      exact hg.resolve_right (d.not_aims e hx)
  | returned => exact .close .refl fun _ _ _ hg => hg

end

theorem Party.move (p : Party α) (seen : List UInt64) (e : Endpoint α) :
    Move p (p.step seen e).1 e (p.step seen e).2 := by
  cases p with
  | invoke call => exact call.move e
  | answer d =>
    exact .of_passing (d.passing e) (fun _ => Nat.le_refl _) (fun _ hid => hid) (fun _ hx => hx)
      fun _ _ _ hg => hg
  | close failure phase => exact phase.move failure seen e
  | send phase =>
    have hpass : Passing (Party.send phase).hand (Party.send (phase.step e).1).hand e
        (phase.step e).2 := by
      cases phase with
      | pushing bytes =>
        simp only [SendPhase.step]
        split
        · next hpush => exact Endpoint.push_passing hpush
        · exact .refl
      | evicting d => exact d.passing e
    exact .of_passing hpass (fun _ => Nat.le_refl _) (fun _ hid => hid) (fun _ hx => hx)
      fun _ _ _ hg => hg

end GraphRpc
