import Mathlib
import GraphRpc.Proofs.Lanes.Order

/-!
# What a shutdown leaves behind

Whoever shuts a pool down, and whenever, every entry is refused, on its way, queued, in hand,
dispatched or dropped, and is only one of these. At rest nothing is queued any more, with one
exception: a call that finds its lane occupied relies on the worker there to look again, but a worker
that found the pool shut down has looked for the last time when it drops what waits. An entry pushed
between that and the moment the lane is idle stays in its lane.
-/

namespace GraphRpc

variable {ε : Type}

-- ---------------------------------------------------------------------------
-- Every entry is somewhere
-- ---------------------------------------------------------------------------

def CallPhase.keeps : CallPhase → Bool
  | checking | pushing => true
  | claiming | returned | refused => false

instance WorkerPhase.decidableGone : (w : WorkerPhase ε) → Decidable (w = .gone)
  | gone => .isTrue rfl
  | scheduled | checking | popping | holding _ | leaving | rechecking | reclaiming | clearing
  | stopping => .isFalse nofun

namespace ShutdownPhase

def finished : ShutdownPhase → Bool
  | returned => true
  | swapping | clearing .. => false

/-- How many entries the call dropped without having counted them yet. -/
def uncounted : ShutdownPhase → Nat
  | clearing _ dropped => dropped
  | swapping | returned => 0

end ShutdownPhase

theorem EnqueueCall.step_balance (call : EnqueueCall ε) (shutdown : Bool) (lane : Lane ε) :
    let next := call.step shutdown lane
    next.call.phase.keeps.toNat + next.lane.queue.length + next.dropped =
      call.phase.keeps.toNat + lane.queue.length := by
  obtain ⟨entry, phase⟩ := call
  cases phase with
  | checking => cases shutdown <;> simp [EnqueueCall.step, CallPhase.keeps]; omega
  | pushing =>
    simp [EnqueueCall.step, CallPhase.keeps, Lane.push]
    omega
  | claiming =>
    simp only [EnqueueCall.step, Lane.exchange, CallPhase.keeps]
    split <;> rfl
  | returned | refused => rfl

theorem WorkerPhase.step_balance (w : WorkerPhase ε) (shutdown : Bool) (lane : Lane ε) :
    let next := w.step shutdown lane
    next.phase.hand.length + next.lane.queue.length + next.dispatched.length + next.dropped =
      w.hand.length + lane.queue.length := by
  cases w with
  | checking => cases shutdown <;> rfl
  | popping =>
    cases hq : lane.queue with
    | nil => simp [WorkerPhase.step, Lane.pop?, hq, WorkerPhase.hand]
    | cons entry rest => simp [WorkerPhase.step, Lane.pop?, hq, WorkerPhase.hand, Nat.add_comm]
  | holding entry => simp [WorkerPhase.step, WorkerPhase.hand, Nat.add_comm]
  | rechecking =>
    simp only [WorkerPhase.step]
    split <;> rfl
  | reclaiming =>
    simp only [WorkerPhase.step, Lane.exchange]
    split <;> rfl
  | clearing => simp [WorkerPhase.step, Lane.clear, WorkerPhase.hand]
  | scheduled | leaving | stopping | gone => rfl

namespace Lanes

theorem queued_eq_sum (l : Lanes ε) : l.queued = (l.lanes.toList.map (·.queue.length)).sum := by
  rw [queued, ← Array.foldl_toList, List.sum_eq_foldl, List.foldl_map]

theorem queued_put {l : Lanes ε} (h : l.lanes[k]? = some lane) (lane' : Lane ε) :
    (l.put k lane').queued + lane.queue.length = l.queued + lane'.queue.length := by
  rw [← Array.getElem?_toList] at h
  obtain ⟨pre, post, hlanes, hset⟩ := exists_split h
  have hput : (l.put k lane').lanes.toList = l.lanes.toList.set k lane' := by
    rw [put, modify, Array.toList_modify, List.modify_eq_set]
  rw [queued_eq_sum, queued_eq_sum, hput, hset, hlanes]
  simp only [List.map_append, List.map_cons, List.sum_append, List.sum_cons]
  omega

end Lanes

namespace Pool

variable {connection : ε → Nat} {s : Pool ε}

/-- Every entry for which there was a call is at one place. -/
def Balanced (s : Pool ε) : Prop :=
  s.calls.length = (s.calls.map (·.phase.keeps.toNat)).sum + s.lanes.queued +
    (s.workers.map (·.phase.hand.length)).sum + s.dispatched.length + s.dropped +
    (s.closers.map ShutdownPhase.uncounted).sum

theorem balanced_ofWorkers (workers : Nat) : (ofWorkers workers : Pool ε).Balanced := by
  simp [Balanced, ofWorkers, Lanes.queued_eq_sum, Lanes.ofWorkers]

theorem Balanced.step_call (h : s.Balanced) (i : Nat) : (s.stepCall connection i).Balanced := by
  unfold stepCall
  cases hcall : s.calls[i]? with
  | none => exact h
  | some call =>
    dsimp only
    cases hlane : s.lanes.lanes[s.lanes.laneOf (connection call.entry)]? with
    | none => exact h
    | some lane =>
      obtain ⟨pre, post, hcalls, hset⟩ := exists_split hcall
      have hstep := call.step_balance s.lanes.shutdown lane
      have hput := Lanes.queued_put hlane (call.step s.lanes.shutdown lane).lane
      have hnew (spawned : Bool) (k : Nat) :
          ((if spawned then s.workers ++ [{ lane := k }] else s.workers).map
            (·.phase.hand.length)).sum = (s.workers.map (·.phase.hand.length)).sum := by
        cases spawned <;> simp [WorkerPhase.hand]
      simp only [Balanced, hset, hnew]
      simp only [Balanced, hcalls, List.length_append, List.length_cons, List.map_append, List.map_cons,
        List.sum_append, List.sum_cons] at h ⊢
      omega

theorem Balanced.step_worker (h : s.Balanced) (i : Nat) : (s.stepWorker i).Balanced := by
  unfold stepWorker
  cases hworker : s.workers[i]? with
  | none => exact h
  | some worker =>
    dsimp only
    cases hlane : s.lanes.lanes[worker.lane]? with
    | none => exact h
    | some lane =>
      obtain ⟨before, after, hworkers, hset⟩ := exists_split hworker
      have hstep := worker.phase.step_balance s.lanes.shutdown lane
      have hput := Lanes.queued_put hlane (worker.phase.step s.lanes.shutdown lane).lane
      simp only [Balanced, hset]
      simp only [Balanced, hworkers, List.length_append, List.length_map, List.map_append,
        List.map_cons, List.sum_append, List.sum_cons] at h ⊢
      omega

theorem Balanced.step_closer (h : s.Balanced) (i : Nat) : (s.stepCloser i).Balanced := by
  unfold stepCloser
  cases hcloser : s.closers[i]? with
  | none => exact h
  | some phase =>
    obtain ⟨pre, post, hclosers, hset⟩ := exists_split hcloser
    simp only [Balanced, hclosers, List.map_append, List.map_cons, List.sum_append,
      List.sum_cons] at h
    cases phase with
    | swapping =>
      dsimp only
      split
      all_goals
        simp only [Balanced, hset, List.map_append, List.map_cons, List.sum_append, List.sum_cons]
        exact h
    | clearing k dropped =>
      dsimp only
      cases hlane : s.lanes.lanes[k]? with
      | none =>
        simp only [Balanced, hset, List.map_append, List.map_cons, List.sum_append, List.sum_cons,
          ShutdownPhase.uncounted] at h ⊢
        omega
      | some lane =>
        have hput := Lanes.queued_put hlane lane.clear.2
        simp only [Balanced, hset, List.map_append, List.map_cons, List.sum_append, List.sum_cons,
          ShutdownPhase.uncounted, Lane.clear, List.length_nil] at h hput ⊢
        omega
    | returned =>
      simpa only [Balanced, hclosers, List.map_append, List.map_cons, List.sum_append,
        List.sum_cons] using h

theorem Balanced.step (h : s.Balanced) (action : PoolAction ε) :
    (s.step connection action).Balanced := by
  cases action with
  | enqueue entry =>
    have hkept : CallPhase.keeps .checking = true := rfl
    simp only [Pool.step, Balanced, List.length_append, List.length_singleton, List.map_append,
      List.map_singleton, List.sum_append, List.sum_singleton, hkept, Bool.toNat_true] at h ⊢
    omega
  | shutdown =>
    simpa only [Pool.step, Balanced, List.map_append, List.map_singleton, List.sum_append,
      List.sum_singleton, ShutdownPhase.uncounted, Nat.add_zero] using h
  | call i => exact h.step_call i
  | work i => exact h.step_worker i
  | close i => exact h.step_closer i

theorem Balanced.run (h : s.Balanced) (actions : List (PoolAction ε)) :
    (s.run connection actions).Balanced := by
  induction actions generalizing s with
  | nil => exact h
  | cons action actions ih => exact ih (h.step action)

def AtRest (s : Pool ε) : Prop := s.Quiet ∧ ∀ c ∈ s.closers, c.finished

instance decidableAtRest (s : Pool ε) : Decidable s.AtRest :=
  inferInstanceAs (Decidable (((∀ call ∈ s.calls, call.phase.finished) ∧
    ∀ w ∈ s.workers, w.phase = .gone) ∧ ∀ c ∈ s.closers, c.finished))

theorem Balanced.length_calls (h : s.Balanced) (hrest : s.AtRest) :
    s.calls.length = s.dispatched.length + s.dropped + s.lanes.queued := by
  obtain ⟨⟨hcalls, hworkers⟩, hclosers⟩ := hrest
  have hkept : (s.calls.map (·.phase.keeps.toNat)).sum = 0 := by
    refine List.sum_eq_zero ?_
    simp only [List.forall_mem_map]
    intro call hmem
    have hfinished := hcalls call hmem
    cases hphase : call.phase with
    | returned | refused => rfl
    | checking | pushing | claiming =>
      rw [hphase] at hfinished
      cases hfinished
  have hhands : (s.workers.map (·.phase.hand.length)).sum = 0 := by
    refine List.sum_eq_zero ?_
    simp only [List.forall_mem_map]
    intro worker hmem
    rw [hworkers worker hmem]
    rfl
  have hcounted : (s.closers.map ShutdownPhase.uncounted).sum = 0 := by
    refine List.sum_eq_zero ?_
    simp only [List.forall_mem_map]
    intro closer hmem
    have hfinished := hclosers closer hmem
    cases closer with
    | returned => rfl
    | swapping | clearing k dropped => cases hfinished
  rw [Balanced, hkept, hhands, hcounted] at h
  omega

end Pool

-- ---------------------------------------------------------------------------
-- Who is still to look at a lane
-- ---------------------------------------------------------------------------

namespace WorkerPhase

/-- Whether the worker has dropped what waited, and will not look at the queue again. -/
def blind : WorkerPhase ε → Bool
  | stopping => true
  | _ => false

theorem owns_of_blind {w : WorkerPhase ε} (h : w.blind) : w.owns := by
  cases w <;> first | rfl | cases h

end WorkerPhase

/-- Someone is still to look at a lane with entries in its queue, while it is idle or its worker will
not look at it again. -/
structure Watched (lane : Lane ε) (calls : List (EnqueueCall ε)) (workers : List (WorkerPhase ε)) :
    Prop where
  owned : Owned lane.state (workers.filter WorkerPhase.owns)
  noticed : lane.queue ≠ [] → lane.state = .idle →
    (∃ call ∈ calls, call.phase = .claiming) ∨ ∃ w ∈ workers, w.rousable
  relieved : lane.queue ≠ [] → (∃ w ∈ workers, w.blind) → ∃ call ∈ calls, call.phase = .claiming

namespace Watched

variable {lane lane' : Lane ε} {calls pre post : List (EnqueueCall ε)} {call : EnqueueCall ε}
  {workers before after : List (WorkerPhase ε)} {w w' : WorkerPhase ε}

theorem fresh : Watched ({} : Lane ε) [] [] where
  owned := rfl
  noticed := by simp
  relieved := by simp

theorem new_call (h : Watched lane calls workers) (call : EnqueueCall ε) :
    Watched lane (calls ++ [call]) workers where
  owned := h.owned
  noticed hq hidle := (h.noticed hq hidle).imp_left fun ⟨call, hmem, hc⟩ =>
    ⟨call, List.mem_append_left _ hmem, hc⟩
  relieved hq hw :=
    have ⟨call, hmem, hc⟩ := h.relieved hq hw
    ⟨call, List.mem_append_left _ hmem, hc⟩

theorem empty (h : Watched lane calls workers) (hstate : lane'.state = lane.state)
    (hq : lane'.queue = []) : Watched lane' calls workers where
  owned := hstate ▸ h.owned
  noticed hq' := (hq' hq).elim
  relieved hq' := (hq' hq).elim

theorem owner_step (h : Watched lane calls (before ++ w :: after)) (hw : w.owns) (hw' : w'.owns)
    (howned : Owned lane'.state [w']) (hblind : w'.blind = false ∨ lane'.queue = []) :
    Watched lane' calls (before ++ w' :: after) := by
  obtain ⟨hb, ha, -⟩ := h.owned.alone hw
  constructor
  case owned =>
    rw [filter_owns_middle hb ha, List.filter_singleton, hw']
    exact howned
  case noticed =>
    intro _ hidle
    rw [hidle] at howned
    cases howned
  case relieved =>
    rintro hq ⟨u, hmem, hu⟩
    have howns := WorkerPhase.owns_of_blind hu
    rcases List.mem_append.1 hmem with hmem | hmem
    · exact (List.filter_eq_nil_iff.1 hb u hmem howns).elim
    rcases List.mem_cons.1 hmem with rfl | hmem
    · rcases hblind with hseeing | hempty
      · rw [hseeing] at hu
        cases hu
      · exact (hq hempty).elim
    · exact (List.filter_eq_nil_iff.1 ha u hmem howns).elim

theorem leave (h : Watched lane calls (before ++ w :: after)) (hw : w.owns) (hw' : w'.owns = false)
    (hseen : lane.queue ≠ [] → (∃ call ∈ calls, call.phase = .claiming) ∨ w'.rousable) :
    Watched (lane.enter .idle) calls (before ++ w' :: after) := by
  obtain ⟨hb, ha, -⟩ := h.owned.alone hw
  have hnone : (before ++ w' :: after).filter WorkerPhase.owns = [] := by
    rw [filter_owns_middle hb ha, List.filter_singleton, hw']
    rfl
  constructor
  case owned => exact hnone
  case noticed => exact fun hq _ => (hseen hq).imp_right fun hr => ⟨w', by simp, hr⟩
  case relieved =>
    rintro _ ⟨u, hmem, hu⟩
    exact (List.filter_eq_nil_iff.1 hnone u hmem (WorkerPhase.owns_of_blind hu)).elim

theorem other_step (h : Watched lane calls (before ++ w :: after)) (hw : w.owns = false)
    (hw' : w'.owns = false)
    (hrouse : w.rousable → lane.queue ≠ [] → lane.state = .idle → w'.rousable) :
    Watched lane calls (before ++ w' :: after) := by
  constructor
  case owned =>
    have howned := h.owned
    simp only [List.filter_append, List.filter_cons, hw, hw'] at howned ⊢
    exact howned
  case noticed =>
    intro hq hidle
    refine (h.noticed hq hidle).imp_right ?_
    rintro ⟨u, hu, hr⟩
    rcases List.mem_append.1 hu with hu | hu
    · exact ⟨u, List.mem_append_left _ hu, hr⟩
    rcases List.mem_cons.1 hu with rfl | hu
    · exact ⟨w', by simp, hrouse hr hq hidle⟩
    · exact ⟨u, List.mem_append_right _ (List.mem_cons_of_mem _ hu), hr⟩
  case relieved =>
    rintro hq ⟨u, hmem, hu⟩
    refine h.relieved hq ⟨u, ?_, hu⟩
    rcases List.mem_append.1 hmem with hmem | hmem
    · exact List.mem_append_left _ hmem
    rcases List.mem_cons.1 hmem with rfl | hmem
    · rw [WorkerPhase.owns_of_blind hu] at hw'
      cases hw'
    · exact List.mem_append_right _ (List.mem_cons_of_mem _ hmem)

theorem own {calls' : List (EnqueueCall ε)} (before others after : List (WorkerPhase ε))
    (h : Watched lane calls (before ++ others ++ after)) (hidle : lane.state = .idle) (hw : w.owns)
    (hblind : w.blind = false) (howned : Owned state [w]) :
    Watched (lane.enter state) calls' (before ++ w :: after) := by
  have hnone := h.owned
  rw [hidle] at hnone
  have hnone : (before ++ others ++ after).filter WorkerPhase.owns = [] := hnone
  rw [List.filter_append, List.filter_append, List.append_eq_nil_iff, List.append_eq_nil_iff] at hnone
  obtain ⟨⟨hb, -⟩, ha⟩ := hnone
  constructor
  case owned =>
    rw [filter_owns_middle hb ha, List.filter_singleton, hw]
    exact howned
  case noticed =>
    intro _ (hstate : state = .idle)
    rw [hstate] at howned
    cases howned
  case relieved =>
    rintro _ ⟨u, hmem, hu⟩
    have howns := WorkerPhase.owns_of_blind hu
    rcases List.mem_append.1 hmem with hmem | hmem
    · exact (List.filter_eq_nil_iff.1 hb u hmem howns).elim
    rcases List.mem_cons.1 hmem with rfl | hmem
    · rw [hblind] at hu
      cases hu
    · exact (List.filter_eq_nil_iff.1 ha u hmem howns).elim

theorem step_worker (h : Watched lane calls (before ++ w :: after)) (shutdown : Bool) :
    let next := w.step shutdown lane
    Watched next.lane calls (before ++ next.phase :: after) := by
  have hstays {w' : WorkerPhase ε} (hw : w.draining) (hw' : w'.draining) : Owned lane.state [w'] := by
    rw [h.owned.state_eq hw]
    exact ⟨_, rfl, hw'⟩
  cases w with
  | scheduled => exact h.owner_step rfl rfl ⟨_, rfl, rfl⟩ (.inl rfl)
  | checking => cases shutdown <;> exact h.owner_step rfl rfl (hstays rfl rfl) (.inl rfl)
  | popping =>
    cases hq : lane.queue with
    | nil =>
      simp only [WorkerPhase.step, Lane.pop?, hq]
      exact h.owner_step rfl rfl (hstays rfl rfl) (.inl rfl)
    | cons entry rest =>
      simp only [WorkerPhase.step, Lane.pop?, hq]
      exact h.owner_step rfl rfl (hstays rfl rfl) (.inl rfl)
  | holding entry => exact h.owner_step rfl rfl (hstays rfl rfl) (.inl rfl)
  | leaving => exact h.leave rfl rfl fun _ => .inr rfl
  | rechecking =>
    dsimp only [WorkerPhase.step]
    split
    · next hempty => exact h.other_step rfl rfl fun _ hq _ => (hq (List.isEmpty_iff.1 hempty)).elim
    · exact h.other_step rfl rfl fun _ _ _ => rfl
  | reclaiming =>
    by_cases hidle : lane.state = .idle
    · simp only [WorkerPhase.step, Lane.exchange, hidle, if_true]
      have hw : Watched lane calls (before ++ [.reclaiming] ++ after) := by
        rwa [List.append_assoc, List.singleton_append]
      exact own before [.reclaiming] after hw hidle rfl rfl ⟨_, rfl, rfl⟩
    · simp only [WorkerPhase.step, Lane.exchange, hidle, if_false]
      exact h.other_step rfl rfl fun _ _ hstate => (hidle hstate).elim
  | clearing => exact h.owner_step rfl rfl (hstays rfl rfl) (.inr rfl)
  | stopping =>
    -- Whoever pushed after the lane was cleared still has to look at its state.
    exact h.leave rfl rfl fun hq => .inl (h.relieved hq ⟨.stopping, by simp, rfl⟩)
  | gone => exact h

theorem replace_call {phase : CallPhase} (h : Watched lane (pre ++ call :: post) workers)
    (hc : call.phase ≠ .claiming) : Watched lane (pre ++ { call with phase } :: post) workers := by
  have hkeep : (∃ c ∈ pre ++ call :: post, c.phase = .claiming) →
      ∃ c ∈ pre ++ { call with phase } :: post, c.phase = .claiming := by
    rintro ⟨c, hmem, hclaiming⟩
    rcases List.mem_append.1 hmem with hmem | hmem
    · exact ⟨c, List.mem_append_left _ hmem, hclaiming⟩
    rcases List.mem_cons.1 hmem with rfl | hmem
    · exact (hc hclaiming).elim
    · exact ⟨c, List.mem_append_right _ (List.mem_cons_of_mem _ hmem), hclaiming⟩
  exact ⟨h.owned, fun hq hidle => (h.noticed hq hidle).imp_left hkeep, fun hq hw =>
    hkeep (h.relieved hq hw)⟩

theorem push (h : Watched lane (pre ++ ⟨entry, .pushing⟩ :: post) workers) :
    Watched (lane.push entry) (pre ++ ⟨entry, .claiming⟩ :: post) workers where
  owned := h.owned
  noticed _ _ := .inl ⟨⟨entry, .claiming⟩, by simp, rfl⟩
  relieved _ _ := ⟨⟨entry, .claiming⟩, by simp, rfl⟩

theorem claim (h : Watched lane (pre ++ ⟨entry, .claiming⟩ :: post) workers)
    (hseen : ¬∃ w ∈ workers, w.blind) :
    Watched (lane.exchange .idle .scheduled).2 (pre ++ ⟨entry, .returned⟩ :: post)
      (if (lane.exchange .idle .scheduled).1 then workers ++ [.scheduled] else workers) := by
  by_cases hidle : lane.state = .idle
  · rw [show lane.exchange .idle .scheduled = (true, lane.enter .scheduled) from if_pos hidle]
    exact own workers [] [] (by simpa using h) hidle rfl rfl rfl
  · rw [show lane.exchange .idle .scheduled = (false, lane) from if_neg hidle]
    exact ⟨h.owned, fun _ hstate => (hidle hstate).elim, fun _ hw => (hseen hw).elim⟩

theorem step_call (h : Watched lane (pre ++ call :: post) workers) (shutdown : Bool)
    (hseen : call.phase = .claiming → ¬∃ w ∈ workers, w.blind) :
    let next := call.step shutdown lane
    Watched next.lane (pre ++ next.call :: post)
      (if next.spawned then workers ++ [.scheduled] else workers) := by
  obtain ⟨entry, phase⟩ := call
  cases phase with
  | checking => cases shutdown <;> exact h.replace_call nofun
  | pushing => exact h.push
  | claiming => exact h.claim (hseen rfl)
  | returned | refused => exact h

end Watched

-- ---------------------------------------------------------------------------
-- All lanes
-- ---------------------------------------------------------------------------

namespace Pool

variable {connection : ε → Nat} {s : Pool ε}

/-- With this step a call finds its lane occupied by a worker that will not look at it again. -/
def overlooks (connection : ε → Nat) (s : Pool ε) : PoolAction ε → Bool
  | .call i => s.calls[i]?.any fun call =>
    call.phase = .claiming ∧ (s.workersAt (s.lanes.laneOf (connection call.entry))).any (·.blind)
  | _ => false

/-- No call does, on the way. -/
def Unmissed (connection : ε → Nat) (s : Pool ε) : List (PoolAction ε) → Prop
  | [] => True
  | action :: actions =>
    s.overlooks connection action = false ∧ (s.step connection action).Unmissed connection actions

instance decidableUnmissed (connection : ε → Nat) : (s : Pool ε) → (actions : List (PoolAction ε)) →
    Decidable (s.Unmissed connection actions)
  | _, [] => inferInstanceAs (Decidable True)
  | s, action :: actions =>
    have := decidableUnmissed connection (s.step connection action) actions
    inferInstanceAs (Decidable (_ ∧ _))

def AllWatched (connection : ε → Nat) (s : Pool ε) : Prop :=
  ∀ k lane, s.lanes.lanes[k]? = some lane → Watched lane (s.callsAt connection k) (s.workersAt k)

theorem allWatched_ofWorkers (workers : Nat) : (ofWorkers workers).AllWatched connection := by
  intro k lane h
  obtain ⟨_, hfresh⟩ := Array.getElem?_eq_some_iff.1 h
  simp only [ofWorkers, Lanes.ofWorkers, Array.getElem_replicate] at hfresh
  subst hfresh
  exact .fresh

theorem AllWatched.new_call (h : s.AllWatched connection) (entry : ε) :
    (s.step connection (.enqueue entry)).AllWatched connection := by
  intro k lane hlane
  have hcalls : (s.step connection (.enqueue entry)).callsAt connection k =
      s.callsAt connection k ++
        [{ entry := entry }].filter fun call => s.lanes.laneOf (connection call.entry) = k :=
    List.filter_append ..
  rw [hcalls, List.filter_singleton]
  cases decide (s.lanes.laneOf (connection entry) = k) with
  | true => exact (h k lane hlane).new_call _
  | false =>
    rw [cond_false, List.append_nil]
    exact h k lane hlane

theorem AllWatched.step_call (h : s.AllWatched connection) {i : Nat}
    (hseen : s.overlooks connection (.call i) = false) :
    (s.stepCall connection i).AllWatched connection := by
  intro k lane' hlane'
  obtain ⟨hlane, hcalls, hworkers, -⟩ | ⟨call, lane, pre, post, hcall, hk, hlane, hcalls, rfl,
    hcalls', hworkers', -⟩ := stepCall_cases hlane'
  · rw [hcalls, hworkers]
    exact h k lane' hlane
  · have hw := h k lane hlane
    rw [hcalls] at hw
    rw [hcalls', hworkers']
    refine hw.step_call s.lanes.shutdown fun hclaiming hblind => ?_
    have hoverlooks : s.overlooks connection (.call i) = true := by
      simpa [overlooks, hcall, hclaiming, hk] using hblind
    rw [hoverlooks] at hseen
    cases hseen

theorem AllWatched.step_worker (h : s.AllWatched connection) (i : Nat) :
    (s.stepWorker i).AllWatched connection := by
  intro k lane' hlane'
  obtain ⟨hlane, hcalls, hworkers, -⟩ | ⟨w, lane, before, after, hlane, hworkers, rfl, hcalls,
    hworkers', -⟩ := stepWorker_cases connection hlane'
  · rw [hcalls, hworkers]
    exact h k lane' hlane
  · have hw := h k lane hlane
    rw [hworkers] at hw
    rw [hcalls, hworkers']
    exact hw.step_worker s.lanes.shutdown

theorem AllWatched.step_closer (h : s.AllWatched connection) (i : Nat) :
    (s.stepCloser i).AllWatched connection := by
  unfold stepCloser
  cases hcloser : s.closers[i]? with
  | none => exact h
  | some phase =>
    cases phase with
    | swapping =>
      dsimp only
      split <;> exact h
    | clearing k dropped =>
      dsimp only
      cases hlane : s.lanes.lanes[k]? with
      | none => exact h
      | some lane =>
        intro j lane' hj
        dsimp only at hj
        rw [Lanes.lanes_put hlane] at hj
        have hcalls : callsAt connection { s with lanes := s.lanes.put k lane.clear.2 } j =
            s.callsAt connection j := by
          simp only [callsAt, Lanes.laneOf_put]
        split at hj
        · next hkj =>
          subst hkj
          cases hj
          exact hcalls ▸ (h k lane hlane).empty rfl rfl
        · exact hcalls ▸ h j lane' hj
    | returned => exact h

theorem AllWatched.step (h : s.AllWatched connection) {action : PoolAction ε}
    (hseen : s.overlooks connection action = false) :
    (s.step connection action).AllWatched connection := by
  cases action with
  | enqueue entry => exact h.new_call entry
  | shutdown => exact h
  | call i => exact h.step_call hseen
  | work i => exact h.step_worker i
  | close i => exact h.step_closer i

theorem AllWatched.run (h : s.AllWatched connection) {actions : List (PoolAction ε)}
    (hseen : s.Unmissed connection actions) : (s.run connection actions).AllWatched connection := by
  induction actions generalizing s with
  | nil => exact h
  | cons action actions ih => exact ih (h.step hseen.1) hseen.2

-- ---------------------------------------------------------------------------
-- At rest
-- ---------------------------------------------------------------------------

theorem AllWatched.queue_eq_nil {k : Nat} {lane : Lane ε} (h : s.AllWatched connection)
    (hquiet : s.Quiet) (hlane : s.lanes.lanes[k]? = some lane) : lane.queue = [] := by
  have hw := h k lane hlane
  have hidle : lane.state = .idle := hw.owned.idle hquiet.gone
  by_contra hq
  obtain ⟨call, hmem, hclaiming⟩ | ⟨w, hmem, hrouse⟩ := hw.noticed hq hidle
  · have hfinished := hquiet.finished call hmem
    rw [hclaiming] at hfinished
    cases hfinished
  · rw [hquiet.gone w hmem] at hrouse
    cases hrouse

/-- Whatever the order of their steps, enqueue calls, workers and shutdown calls lose no entry without
counting it, except what stays in a lane. -/
theorem run_length_calls (connection : ε → Nat) (workers : Nat) (actions : List (PoolAction ε)) :
    let s := (ofWorkers workers).run connection actions
    s.AtRest → s.calls.length = s.dispatched.length + s.dropped + s.lanes.queued :=
  ((balanced_ofWorkers workers).run actions).length_calls

/-- Nothing stays in a lane, unless a call overlooked that nobody was to look there again. -/
theorem run_counted (workers : Nat) {actions : List (PoolAction ε)}
    (hseen : (ofWorkers workers).Unmissed connection actions) :
    let s := (ofWorkers workers).run connection actions
    s.AtRest → (∀ lane ∈ s.lanes.lanes, lane.queue = []) ∧
      s.calls.length = s.dispatched.length + s.dropped := by
  intro s hrest
  have hempty : ∀ lane ∈ s.lanes.lanes, lane.queue = [] := by
    intro lane hmem
    obtain ⟨k, hk, hlane⟩ := Array.getElem_of_mem hmem
    exact ((allWatched_ofWorkers workers).run hseen).queue_eq_nil hrest.1
      (Array.getElem?_eq_some_iff.2 ⟨hk, hlane⟩)
  have hqueued : s.lanes.queued = 0 := by
    rw [Lanes.queued_eq_sum]
    refine List.sum_eq_zero (List.forall_mem_map.2 fun lane hmem => ?_)
    rw [hempty lane (Array.mem_toList_iff.1 hmem)]
    rfl
  have hlen := run_length_calls connection workers actions hrest
  exact ⟨hempty, by rw [hlen, hqueued, Nat.add_zero]⟩

/-- An entry is in hand and another one queued when the pool is shut down. -/
def shutWhileBusy : List (PoolAction Nat) :=
  [.enqueue 5, .enqueue 7, .call 0, .call 0, .call 0, .call 1, .call 1, .call 1, .work 0, .work 0,
    .work 0, .shutdown, .close 0, .close 0, .close 0, .work 0, .work 0, .work 0, .work 0]

theorem run_counted_shutWhileBusy : (ofWorkers 1).Unmissed id shutWhileBusy ∧
    ((ofWorkers 1).run id shutWhileBusy).AtRest ∧
    (∀ lane ∈ ((ofWorkers 1).run id shutWhileBusy).lanes.lanes, lane.queue = []) ∧
    ((ofWorkers 1).run id shutWhileBusy).calls.length =
      ((ofWorkers 1).run id shutWhileBusy).dispatched.length +
        ((ofWorkers 1).run id shutWhileBusy).dropped := by
  have hseen : (ofWorkers 1).Unmissed id shutWhileBusy := by decide
  have hrest : ((ofWorkers 1).run id shutWhileBusy).AtRest := by decide
  exact ⟨hseen, hrest, run_counted 1 hseen hrest⟩

/-- A call that saw the pool running pushes between the moments when the worker drops what waits and
when it makes the lane idle. -/
def shutBeforePush : List (PoolAction Nat) :=
  [.enqueue 5, .enqueue 7, .call 0, .call 0, .call 0, .work 0, .call 1, .shutdown, .close 0, .close 0,
    .close 0, .work 0, .work 0, .call 1, .call 1, .work 0]

theorem run_shutBeforePush : ((ofWorkers 1).run id shutBeforePush).AtRest ∧
    ((ofWorkers 1).run id shutBeforePush).lanes.lanes.toList.map Lane.queue = [[7]] ∧
    ((ofWorkers 1).run id shutBeforePush).calls.length = 2 ∧
    ((ofWorkers 1).run id shutBeforePush).dispatched = [] ∧
    ((ofWorkers 1).run id shutBeforePush).dropped = 1 := by
  decide

end Pool
end GraphRpc
