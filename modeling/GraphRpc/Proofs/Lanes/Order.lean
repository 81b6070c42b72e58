import Mathlib
import GraphRpc.Proofs.Lanes.Pool

/-!
# Order within a lane

While nobody shuts a pool down, a lane that is not idle has one worker, which is the only one to
take entries from it. A lane with entries in its queue is not left idle for good: someone is still
to look at it. So every entry is dispatched once, in the order in which the entries were pushed.
-/

namespace GraphRpc

variable {ε : Type}

-- ---------------------------------------------------------------------------
-- Owners
-- ---------------------------------------------------------------------------

namespace WorkerPhase

/-- Whether the lane is not idle on account of the worker. -/
def owns : WorkerPhase ε → Bool
  | scheduled => true
  | w => w.draining

/-- Whether the worker has yet to see if something was pushed after it made the lane idle. -/
def rousable : WorkerPhase ε → Bool
  | rechecking | reclaiming => true
  | _ => false

def halting : WorkerPhase ε → Bool
  | clearing | stopping => true
  | _ => false

end WorkerPhase

/-- A lane is in this state when these workers own it. -/
def Owned : LaneState → List (WorkerPhase ε) → Prop
  | .idle, ws => ws = []
  | .scheduled, ws => ws = [.scheduled]
  | .draining, ws => ∃ w, ws = [w] ∧ w.draining

section
variable {state : LaneState} {before after ws : List (WorkerPhase ε)} {w : WorkerPhase ε}

theorem Owned.length_le (h : Owned state ws) : ws.length ≤ 1 := by
  cases state with
  | idle => simp [show ws = [] from h]
  | scheduled => simp [show ws = [.scheduled] from h]
  | draining =>
    obtain ⟨w, rfl, -⟩ := h
    simp

theorem Owned.idle (h : Owned state (ws.filter WorkerPhase.owns)) (hgone : ∀ w ∈ ws, w = .gone) :
    state = .idle := by
  have hnone : ws.filter WorkerPhase.owns = [] := by
    refine List.filter_eq_nil_iff.2 fun w hmem => ?_
    rw [hgone w hmem]
    exact Bool.false_ne_true
  rw [hnone] at h
  cases state with
  | idle => rfl
  | scheduled => cases h
  | draining =>
    obtain ⟨w, hw, -⟩ := h
    cases hw

theorem Owned.alone (h : Owned state ((before ++ w :: after).filter WorkerPhase.owns))
    (hw : w.owns) : before.filter WorkerPhase.owns = [] ∧ after.filter WorkerPhase.owns = [] ∧
      Owned state [w] := by
  rw [List.filter_append, List.filter_cons_of_pos hw] at h
  have hlen := h.length_le
  rw [List.length_append, List.length_cons] at hlen
  have hb : before.filter WorkerPhase.owns = [] := List.length_eq_zero_iff.1 (by omega)
  have ha : after.filter WorkerPhase.owns = [] := List.length_eq_zero_iff.1 (by omega)
  rw [hb, ha] at h
  exact ⟨hb, ha, h⟩

theorem Owned.state_eq (h : Owned state ((before ++ w :: after).filter WorkerPhase.owns))
    (hw : w.draining) : state = .draining := by
  have howns : w.owns := by cases w <;> first | rfl | cases hw
  obtain ⟨-, -, h⟩ := h.alone howns
  cases state with
  | idle => cases h
  | scheduled =>
    obtain rfl : w = .scheduled := List.head_eq_of_cons_eq h
    cases hw
  | draining => rfl

theorem filter_owns_middle (hb : before.filter WorkerPhase.owns = [])
    (ha : after.filter WorkerPhase.owns = []) :
    (before ++ w :: after).filter WorkerPhase.owns = [w].filter WorkerPhase.owns := by
  rw [← List.singleton_append, List.filter_append, List.filter_append, hb, ha, List.append_nil,
    List.nil_append]

theorem hand_of_notOwns (h : ws.filter WorkerPhase.owns = []) : ws.flatMap WorkerPhase.hand = [] := by
  rw [List.flatMap_eq_nil_iff]
  intro w hw
  have hnot := List.filter_eq_nil_iff.1 h w hw
  cases w with
  | holding entry => exact (hnot rfl).elim
  | _ => rfl

theorem draining_of_owns : ws.filter WorkerPhase.draining =
    (ws.filter WorkerPhase.owns).filter WorkerPhase.draining := by
  rw [List.filter_filter]
  congr 1
  funext w
  cases w <;> rfl

end

-- ---------------------------------------------------------------------------
-- One lane
-- ---------------------------------------------------------------------------

/-- A lane, its enqueue calls and its workers, and what was pushed to it and dispatched from it so
far, when nobody shuts the lanes down. -/
structure Tended (lane : Lane ε) (calls : List (EnqueueCall ε)) (workers : List (WorkerPhase ε))
    (pushed dispatched : List ε) : Prop where
  owned : Owned lane.state (workers.filter WorkerPhase.owns)
  order : dispatched ++ workers.flatMap WorkerPhase.hand ++ lane.queue = pushed
  /-- Entries in the queue of an idle lane are still to be noticed. -/
  noticed : lane.queue ≠ [] → lane.state = .idle →
    (∃ call ∈ calls, call.phase = .claiming) ∨ ∃ w ∈ workers, w.rousable
  accepted : ∀ call ∈ calls, call.phase ≠ .refused
  unhalted : ∀ w ∈ workers, w.halting = false
  arrived : pushed.Perm ((calls.filter (·.phase.past)).map (·.entry))

namespace Tended

variable {lane lane' : Lane ε} {calls pre post : List (EnqueueCall ε)} {call : EnqueueCall ε}
  {workers before after : List (WorkerPhase ε)} {w w' : WorkerPhase ε}
  {pushed dispatched dispatched' : List ε}

theorem fresh : Tended ({} : Lane ε) [] [] [] [] where
  owned := rfl
  order := rfl
  noticed := by simp
  accepted := by simp
  unhalted := by simp
  arrived := .nil

theorem new_call (h : Tended lane calls workers pushed dispatched) (entry : ε) :
    Tended lane (calls ++ [{ entry := entry }]) workers pushed dispatched where
  owned := h.owned
  order := h.order
  noticed hq hidle := (h.noticed hq hidle).imp_left fun ⟨call, hmem, hc⟩ =>
    ⟨call, List.mem_append_left _ hmem, hc⟩
  accepted := List.forall_mem_append.2 ⟨h.accepted, by simp⟩
  unhalted := h.unhalted
  arrived := by simpa [CallPhase.past] using h.arrived

theorem owner_step (h : Tended lane calls (before ++ w :: after) pushed dispatched) (hw : w.owns)
    (hw' : w'.owns) (hhalt : w'.halting = false) (howned : Owned lane'.state [w'])
    (horder : dispatched' ++ w'.hand ++ lane'.queue = dispatched ++ w.hand ++ lane.queue) :
    Tended lane' calls (before ++ w' :: after) pushed dispatched' := by
  obtain ⟨hb, ha, -⟩ := h.owned.alone hw
  have hhand (u : WorkerPhase ε) : (before ++ u :: after).flatMap WorkerPhase.hand = u.hand := by
    rw [List.flatMap_append, List.flatMap_cons, hand_of_notOwns hb, hand_of_notOwns ha,
      List.append_nil, List.nil_append]
  constructor
  case owned =>
    rw [filter_owns_middle hb ha, List.filter_singleton, hw']
    exact howned
  case order =>
    rw [hhand, horder, ← h.order, hhand]
  case noticed =>
    intro _ hidle
    rw [hidle] at howned
    cases howned
  case accepted => exact h.accepted
  case unhalted =>
    have hu := h.unhalted
    simp only [List.forall_mem_append, List.forall_mem_cons] at hu ⊢
    exact ⟨hu.1, hhalt, hu.2.2⟩
  case arrived => exact h.arrived

theorem other_step (h : Tended lane calls (before ++ w :: after) pushed dispatched)
    (hw : w.owns = false) (hw' : w'.owns = false) (hhalt : w'.halting = false)
    (hrouse : w.rousable → lane.queue ≠ [] → lane.state = .idle → w'.rousable) :
    Tended lane calls (before ++ w' :: after) pushed dispatched := by
  have hhand {u : WorkerPhase ε} (hu : u.owns = false) : u.hand = [] := by
    have hnone : [u].filter WorkerPhase.owns = [] := by simp [hu]
    simpa using hand_of_notOwns hnone
  constructor
  case owned =>
    have howned := h.owned
    simp only [List.filter_append, List.filter_cons, hw, hw'] at howned ⊢
    exact howned
  case order =>
    have horder := h.order
    simp only [List.flatMap_append, List.flatMap_cons, hhand hw, hhand hw'] at horder ⊢
    exact horder
  case noticed =>
    intro hq hidle
    refine (h.noticed hq hidle).imp_right ?_
    rintro ⟨u, hu, hr⟩
    rcases List.mem_append.1 hu with hu | hu
    · exact ⟨u, List.mem_append_left _ hu, hr⟩
    rcases List.mem_cons.1 hu with rfl | hu
    · exact ⟨w', by simp, hrouse hr hq hidle⟩
    · exact ⟨u, List.mem_append_right _ (List.mem_cons_of_mem _ hu), hr⟩
  case accepted => exact h.accepted
  case unhalted =>
    have hu := h.unhalted
    simp only [List.forall_mem_append, List.forall_mem_cons] at hu ⊢
    exact ⟨hu.1, hhalt, hu.2.2⟩
  case arrived => exact h.arrived

theorem leave (h : Tended lane calls (before ++ .leaving :: after) pushed dispatched) :
    Tended (lane.enter .idle) calls (before ++ .rechecking :: after) pushed dispatched := by
  obtain ⟨hb, ha, -⟩ := h.owned.alone rfl
  constructor
  case owned =>
    rw [filter_owns_middle hb ha]
    rfl
  case order =>
    have horder := h.order
    rw [List.flatMap_append, List.flatMap_cons] at horder ⊢
    exact horder
  case noticed => exact fun _ _ => .inr ⟨.rechecking, by simp, rfl⟩
  case accepted => exact h.accepted
  case unhalted =>
    have hu := h.unhalted
    simp only [List.forall_mem_append, List.forall_mem_cons] at hu ⊢
    exact ⟨hu.1, rfl, hu.2.2⟩
  case arrived => exact h.arrived

theorem own (before others after : List (WorkerPhase ε))
    (h : Tended lane calls (before ++ others ++ after) pushed dispatched)
    (hidle : lane.state = .idle) (hw : w.owns) (hhand : w.hand = []) (hhalt : w.halting = false)
    (howned : Owned state [w]) :
    Tended (lane.enter state) calls (before ++ w :: after) pushed dispatched := by
  have hnone := h.owned
  rw [hidle] at hnone
  have hnone : (before ++ others ++ after).filter WorkerPhase.owns = [] := hnone
  have hhands := hand_of_notOwns hnone
  rw [List.filter_append, List.filter_append, List.append_eq_nil_iff, List.append_eq_nil_iff] at hnone
  obtain ⟨⟨hb, -⟩, ha⟩ := hnone
  constructor
  case owned =>
    rw [filter_owns_middle hb ha, List.filter_singleton, hw]
    exact howned
  case order =>
    rw [List.flatMap_append, List.flatMap_cons, hand_of_notOwns hb, hand_of_notOwns ha, hhand,
      ← h.order, hhands]
    rfl
  case noticed =>
    intro _ (hstate : state = .idle)
    rw [hstate] at howned
    cases howned
  case accepted => exact h.accepted
  case unhalted =>
    have hu := h.unhalted
    simp only [List.forall_mem_append, List.forall_mem_cons] at hu ⊢
    exact ⟨hu.1.1, hhalt, hu.2⟩
  case arrived => exact h.arrived

theorem step_worker (h : Tended lane calls (before ++ w :: after) pushed dispatched) :
    let next := w.step false lane
    Tended next.lane calls (before ++ next.phase :: after) pushed (dispatched ++ next.dispatched) := by
  cases w with
  | scheduled =>
    dsimp only [WorkerPhase.step]
    exact h.owner_step rfl rfl rfl ⟨_, rfl, rfl⟩ (by rw [List.append_nil]; rfl)
  | checking =>
    dsimp only [WorkerPhase.step]
    have hstate := h.owned.state_eq rfl
    refine h.owner_step rfl rfl rfl ?_ (by rw [List.append_nil]; rfl)
    rw [hstate]
    exact ⟨_, rfl, rfl⟩
  | popping =>
    have hstate := h.owned.state_eq rfl
    cases hq : lane.queue with
    | nil =>
      simp only [WorkerPhase.step, Lane.pop?, hq]
      refine h.owner_step rfl rfl rfl ?_ (by rw [List.append_nil]; rfl)
      rw [hstate]
      exact ⟨_, rfl, rfl⟩
    | cons entry rest =>
      simp only [WorkerPhase.step, Lane.pop?, hq]
      refine h.owner_step rfl rfl rfl ?_ (by simp [WorkerPhase.hand, hq])
      rw [hstate]
      exact ⟨_, rfl, rfl⟩
  | holding entry =>
    dsimp only [WorkerPhase.step]
    have hstate := h.owned.state_eq rfl
    refine h.owner_step rfl rfl rfl ?_ (by simp [WorkerPhase.hand])
    rw [hstate]
    exact ⟨_, rfl, rfl⟩
  | leaving =>
    dsimp only [WorkerPhase.step]
    rw [List.append_nil]
    exact h.leave
  | rechecking =>
    dsimp only [WorkerPhase.step]
    rw [List.append_nil]
    -- An empty queue leaves nothing to be noticed, and at any other the worker stays to reclaim the lane.
    split
    · next hempty =>
      refine h.other_step rfl rfl rfl fun _ hq _ => (hq ?_).elim
      exact List.isEmpty_iff.1 hempty
    · exact h.other_step rfl rfl rfl fun _ _ _ => rfl
  | reclaiming =>
    by_cases hidle : lane.state = .idle
    · simp only [WorkerPhase.step, Lane.exchange, hidle, if_true, List.append_nil]
      refine own before [.reclaiming] after ?_ hidle rfl rfl rfl ⟨_, rfl, rfl⟩
      rwa [List.append_assoc, List.singleton_append]
    · simp only [WorkerPhase.step, Lane.exchange, hidle, if_false, List.append_nil]
      exact h.other_step rfl rfl rfl fun _ _ hstate => (hidle hstate).elim
  | clearing => cases h.unhalted .clearing (by simp)
  | stopping => cases h.unhalted .stopping (by simp)
  | gone =>
    dsimp only [WorkerPhase.step]
    rw [List.append_nil]
    exact h

-- A call takes a step. Its new phase is `phase`.

theorem accepted_replace (phase : CallPhase)
    (h : ∀ c ∈ pre ++ call :: post, c.phase ≠ .refused) (hp : phase ≠ .refused) :
    ∀ c ∈ pre ++ { call with phase } :: post, c.phase ≠ .refused := by
  simp only [List.forall_mem_append, List.forall_mem_cons] at h ⊢
  exact ⟨h.1, hp, h.2.2⟩

theorem arrived_replace (call : EnqueueCall ε) (phase : CallPhase)
    (hp : phase.past = call.phase.past) :
    ((pre ++ { call with phase } :: post).filter (·.phase.past)).map (·.entry) =
      ((pre ++ call :: post).filter (·.phase.past)).map (·.entry) := by
  simp only [List.filter_append, List.filter_cons, hp]
  split <;> simp

theorem arrived_push {phase : CallPhase} (hc : call.phase.past = false) (hp : phase.past)
    (h : pushed.Perm (((pre ++ call :: post).filter (·.phase.past)).map (·.entry))) :
    (pushed ++ [call.entry]).Perm
      (((pre ++ { call with phase } :: post).filter (·.phase.past)).map (·.entry)) := by
  have hrest : (pre ++ call :: post).filter (·.phase.past) = (pre ++ post).filter (·.phase.past) := by
    simp only [List.filter_append, List.filter_cons, hc]
    rfl
  have hnew : ({ call with phase } :: (pre ++ post)).filter (·.phase.past) =
      { call with phase } :: (pre ++ post).filter (·.phase.past) := List.filter_cons_of_pos hp
  rw [hrest] at h
  calc (pushed ++ [call.entry]).Perm (call.entry :: pushed) := List.perm_append_singleton ..
    _ |>.Perm (call.entry :: ((pre ++ post).filter (·.phase.past)).map (·.entry)) := h.cons _
    _ |>.Perm ((({ call with phase } :: (pre ++ post)).filter (·.phase.past)).map (·.entry)) := by
      rw [hnew]
      rfl
    _ |>.Perm _ := (List.perm_middle.symm.filter _).map _

theorem check (h : Tended lane (pre ++ ⟨entry, .checking⟩ :: post) workers pushed dispatched) :
    Tended lane (pre ++ ⟨entry, .pushing⟩ :: post) workers pushed dispatched := by
  refine { h with noticed := ?noticed, accepted := ?accepted, arrived := ?arrived }
  case noticed =>
    intro hq hidle
    refine (h.noticed hq hidle).imp_left ?_
    rintro ⟨c, hmem, hc⟩
    rcases List.mem_append.1 hmem with hmem | hmem
    · exact ⟨c, List.mem_append_left _ hmem, hc⟩
    rcases List.mem_cons.1 hmem with rfl | hmem
    · cases hc
    · exact ⟨c, List.mem_append_right _ (List.mem_cons_of_mem _ hmem), hc⟩
  case accepted => exact accepted_replace _ h.accepted (by simp)
  case arrived =>
    rw [arrived_replace ⟨entry, .checking⟩ .pushing rfl]
    exact h.arrived

theorem push (h : Tended lane (pre ++ ⟨entry, .pushing⟩ :: post) workers pushed dispatched) :
    Tended (lane.push entry) (pre ++ ⟨entry, .claiming⟩ :: post) workers (pushed ++ [entry])
      dispatched := by
  refine { h with order := ?order, noticed := ?noticed, accepted := ?accepted, arrived := ?arrived }
  case order => rw [← h.order, Lane.push, List.append_assoc _ lane.queue]
  case noticed => exact fun _ _ => .inl ⟨⟨entry, .claiming⟩, by simp, rfl⟩
  case accepted => exact accepted_replace _ h.accepted (by simp)
  case arrived => exact arrived_push rfl rfl h.arrived

/-- Pushing to an idle lane sends a worker there. Any other lane has an owner, who will look. -/
theorem claim (h : Tended lane (pre ++ ⟨entry, .claiming⟩ :: post) workers pushed dispatched) :
    Tended (lane.exchange .idle .scheduled).2 (pre ++ ⟨entry, .returned⟩ :: post)
      (if (lane.exchange .idle .scheduled).1 then workers ++ [.scheduled] else workers)
      pushed dispatched := by
  have harrived : pushed.Perm
      (((pre ++ ⟨entry, .returned⟩ :: post).filter (·.phase.past)).map (·.entry)) := by
    rw [arrived_replace ⟨entry, .claiming⟩ .returned rfl]
    exact h.arrived
  have haccepted := accepted_replace .returned h.accepted (by simp)
  by_cases hidle : lane.state = .idle
  · have hw : Tended (lane.enter .scheduled) (pre ++ ⟨entry, .claiming⟩ :: post)
        (workers ++ [.scheduled]) pushed dispatched :=
      own workers [] [] (by simpa using h) hidle rfl rfl rfl rfl
    rw [show lane.exchange .idle .scheduled = (true, lane.enter .scheduled) from if_pos hidle]
    exact { hw with
      noticed := fun _ hstate => nomatch hstate
      accepted := haccepted
      arrived := harrived }
  · rw [show lane.exchange .idle .scheduled = (false, lane) from if_neg hidle]
    exact { h with
      noticed := fun _ hstate => (hidle hstate).elim
      accepted := haccepted
      arrived := harrived }

theorem step_call (h : Tended lane (pre ++ call :: post) workers pushed dispatched) :
    let next := call.step false lane
    Tended next.lane (pre ++ next.call :: post)
      (if next.spawned then workers ++ [.scheduled] else workers) (pushed ++ next.pushed)
      dispatched := by
  obtain ⟨entry, phase⟩ := call
  cases phase with
  | checking =>
    simp only [EnqueueCall.step, Bool.false_eq_true, if_false, List.append_nil]
    exact h.check
  | pushing =>
    simp only [EnqueueCall.step]
    exact h.push
  | claiming =>
    simp only [EnqueueCall.step, List.append_nil]
    exact h.claim
  | returned =>
    simp only [EnqueueCall.step, List.append_nil]
    exact h
  | refused => exact (h.accepted ⟨entry, .refused⟩ (by simp) rfl).elim

end Tended

-- ---------------------------------------------------------------------------
-- All lanes
-- ---------------------------------------------------------------------------

namespace Pool

variable {connection : ε → Nat} {s : Pool ε}

structure Orderly (connection : ε → Nat) (s : Pool ε) : Prop where
  nonempty : 0 < s.lanes.size
  running : s.lanes.shutdown = false
  closers : s.closers = []
  tended : ∀ k lane, s.lanes.lanes[k]? = some lane →
    Tended lane (s.callsAt connection k) (s.workersAt k) (logAt k s.pushed) (logAt k s.dispatched)

theorem orderly_ofWorkers (workers : Nat) : (ofWorkers workers).Orderly connection where
  nonempty := by
    simp only [ofWorkers, Lanes.ofWorkers, Lanes.size, Array.size_replicate]
    omega
  running := rfl
  closers := rfl
  tended k lane h := by
    obtain ⟨_, hfresh⟩ := Array.getElem?_eq_some_iff.1 h
    simp only [ofWorkers, Lanes.ofWorkers, Array.getElem_replicate] at hfresh
    subst hfresh
    exact Tended.fresh

theorem Orderly.new_call (h : s.Orderly connection) (entry : ε) :
    (s.step connection (.enqueue entry)).Orderly connection where
  nonempty := h.nonempty
  running := h.running
  closers := h.closers
  tended k lane hlane := by
    have ht := h.tended k lane hlane
    have hcalls : (s.step connection (.enqueue entry)).callsAt connection k =
        s.callsAt connection k ++
          [{ entry := entry }].filter fun call => s.lanes.laneOf (connection call.entry) = k :=
      List.filter_append ..
    rw [hcalls, List.filter_singleton]
    cases decide (s.lanes.laneOf (connection entry) = k) with
    | true => exact ht.new_call entry
    | false =>
      rw [cond_false, List.append_nil]
      exact ht

theorem Orderly.step_call (h : s.Orderly connection) (i : Nat) :
    (s.stepCall connection i).Orderly connection := by
  obtain ⟨hsize, hshutdown, hclosers, hdispatched⟩ := stepCall_frame connection s i
  refine ⟨hsize ▸ h.nonempty, hshutdown ▸ h.running, hclosers ▸ h.closers, fun k lane' hlane' => ?_⟩
  rw [hdispatched]
  obtain ⟨hlane, hcalls, hworkers, hpushed⟩ | ⟨call, lane, pre, post, -, -, hlane, hcalls, rfl,
    hcalls', hworkers', hpushed'⟩ := stepCall_cases hlane'
  · rw [hcalls, hworkers, hpushed]
    exact h.tended k lane' hlane
  · have ht := h.tended k lane hlane
    rw [hcalls] at ht
    rw [hcalls', hworkers', hpushed', h.running]
    exact ht.step_call

theorem Orderly.step_worker (h : s.Orderly connection) (i : Nat) :
    (s.stepWorker i).Orderly connection := by
  obtain ⟨hsize, hshutdown, hclosers, hpushed⟩ := stepWorker_frame s i
  refine ⟨hsize ▸ h.nonempty, hshutdown ▸ h.running, hclosers ▸ h.closers, fun k lane' hlane' => ?_⟩
  rw [hpushed]
  obtain ⟨hlane, hcalls, hworkers, hlog⟩ | ⟨w, lane, before, after, hlane, hworkers, rfl, hcalls,
    hworkers', hlog'⟩ := stepWorker_cases connection hlane'
  · rw [hcalls, hworkers, hlog]
    exact h.tended k lane' hlane
  · have ht := h.tended k lane hlane
    rw [hworkers] at ht
    rw [hcalls, hworkers', hlog', h.running]
    exact ht.step_worker

theorem Orderly.step (h : s.Orderly connection) {action : PoolAction ε} (ha : action ≠ .shutdown) :
    (s.step connection action).Orderly connection := by
  cases action with
  | enqueue entry => exact h.new_call entry
  | shutdown => exact (ha rfl).elim
  | call i => exact h.step_call i
  | work i => exact h.step_worker i
  | close i =>
    simp only [Pool.step, stepCloser, h.closers]
    exact h

theorem Orderly.run (h : s.Orderly connection) {actions : List (PoolAction ε)}
    (ha : ∀ a ∈ actions, a ≠ .shutdown) : (s.run connection actions).Orderly connection := by
  induction actions generalizing s with
  | nil => exact h
  | cons action actions ih =>
    obtain ⟨ha, has⟩ := List.forall_mem_cons.1 ha
    exact ih (h.step ha) has

-- ---------------------------------------------------------------------------
-- Coming to rest
-- ---------------------------------------------------------------------------

variable {k : Nat} {lane : Lane ε}

theorem Quiet.finished (h : s.Quiet) : ∀ call ∈ s.callsAt connection k, call.phase.finished :=
  fun call hmem => h.1 call (List.mem_filter.1 hmem).1

theorem Quiet.gone (h : s.Quiet) : ∀ w ∈ s.workersAt k, w = .gone := by
  intro w hmem
  obtain ⟨worker, hworker, rfl⟩ := List.mem_map.1 hmem
  exact h.2 worker (List.mem_filter.1 hworker).1

theorem hand_of_gone {ws : List (WorkerPhase ε)} (h : ∀ w ∈ ws, w = .gone) :
    ws.flatMap WorkerPhase.hand = [] := by
  rw [List.flatMap_eq_nil_iff]
  intro w hmem
  rw [h w hmem]
  rfl

theorem Orderly.queue_eq_nil (h : s.Orderly connection) (hquiet : s.Quiet)
    (hlane : s.lanes.lanes[k]? = some lane) : lane.queue = [] := by
  have ht := h.tended k lane hlane
  by_contra hq
  obtain ⟨call, hmem, hclaiming⟩ | ⟨w, hmem, hrouse⟩ := ht.noticed hq (ht.owned.idle hquiet.gone)
  · have hfinished := hquiet.finished call hmem
    rw [hclaiming] at hfinished
    cases hfinished
  · rw [hquiet.gone w hmem] at hrouse
    cases hrouse

theorem Orderly.filter_past (h : s.Orderly connection) (hquiet : s.Quiet)
    (hlane : s.lanes.lanes[k]? = some lane) :
    (s.callsAt connection k).filter (·.phase.past) = s.callsAt connection k := by
  refine List.filter_eq_self.2 fun call hmem => ?_
  have hfinished := hquiet.finished call hmem
  have haccepted := (h.tended k lane hlane).accepted call hmem
  cases hphase : call.phase with
  | refused => exact (haccepted hphase).elim
  | claiming | returned => rfl
  | checking | pushing =>
    rw [hphase] at hfinished
    cases hfinished

/-- What is in the hands of the workers of lane `k`. -/
def inHandAt (s : Pool ε) (k : Nat) : List ε := (s.workersAt k).flatMap WorkerPhase.hand

/-- What was pushed to lane `k` is dispatched from there, once, in that order and by one worker at
a time, and nothing stays behind. -/
structure InOrderAt (connection : ε → Nat) (s : Pool ε) (k : Nat) (lane : Lane ε) : Prop where
  one_draining : ((s.workersAt k).filter WorkerPhase.draining).length ≤ 1
  pushed_eq : logAt k s.dispatched ++ s.inHandAt k ++ lane.queue = logAt k s.pushed
  pushed_perm :
    (logAt k s.pushed).Perm (((s.callsAt connection k).filter (·.phase.past)).map (·.entry))
  queue_eq_nil : s.Quiet → lane.queue = []
  dispatched_eq : s.Quiet → logAt k s.dispatched = logAt k s.pushed
  dispatched_perm : s.Quiet →
    (logAt k s.dispatched).Perm ((s.callsAt connection k).map (·.entry))

structure InOrder (connection : ε → Nat) (s : Pool ε) : Prop where
  laneOf_lt : ∀ c, s.lanes.laneOf c < s.lanes.size
  inOrderAt : ∀ (k : Nat) (lane : Lane ε), s.lanes.lanes[k]? = some lane →
    s.InOrderAt connection k lane

theorem Orderly.inOrderAt (h : s.Orderly connection) (hlane : s.lanes.lanes[k]? = some lane) :
    s.InOrderAt connection k lane := by
  have ht := h.tended k lane hlane
  have hdone (hquiet : s.Quiet) : logAt k s.dispatched = logAt k s.pushed := by
    have horder := ht.order
    rw [hand_of_gone hquiet.gone, h.queue_eq_nil hquiet hlane, List.append_nil,
      List.append_nil] at horder
    exact horder
  constructor
  case one_draining =>
    rw [draining_of_owns]
    exact Nat.le_trans (List.length_filter_le ..) ht.owned.length_le
  case pushed_eq => exact ht.order
  case pushed_perm => exact ht.arrived
  case queue_eq_nil => exact fun hquiet => h.queue_eq_nil hquiet hlane
  case dispatched_eq => exact hdone
  case dispatched_perm =>
    intro hquiet
    have harrived := ht.arrived
    rw [h.filter_past hquiet hlane, ← hdone hquiet] at harrived
    exact harrived

/-- Whatever the order of their steps, enqueue calls and workers keep the order of each lane and
lose nothing, as long as nobody shuts the pool down. -/
theorem run_inOrder (workers : Nat) {actions : List (PoolAction ε)}
    (ha : ∀ a ∈ actions, a ≠ .shutdown) :
    ((ofWorkers workers).run connection actions).InOrder connection := by
  have h : ((ofWorkers workers).run connection actions).Orderly connection :=
    (orderly_ofWorkers workers).run ha
  exact ⟨fun c => Nat.mod_lt c h.nonempty, fun _ _ hlane => h.inOrderAt hlane⟩

/-- Two entries for one lane, the second pushed after the worker found the queue empty. -/
def lateArrival : List (PoolAction Nat) :=
  [.enqueue 5, .enqueue 7, .call 0, .call 0, .call 0, .work 0, .work 0, .work 0, .work 0, .work 0,
    .work 0, .call 1, .call 1, .call 1, .work 0, .work 0, .work 0, .work 0, .work 0, .work 0, .work 0,
    .work 0, .work 0, .work 0]

theorem run_inOrder_lateArrival : (∀ a ∈ lateArrival, a ≠ .shutdown) ∧
    ((ofWorkers 1).run id lateArrival).InOrder id := by
  have ha : ∀ a ∈ lateArrival, a ≠ .shutdown := by simp [lateArrival]
  exact ⟨ha, run_inOrder 1 ha⟩

example : ((ofWorkers 1).run id lateArrival).dispatched = [(0, 5), (0, 7)] := by decide

end Pool
end GraphRpc
