import Mathlib
import GraphRpc.Lanes
import GraphRpc.Proofs.Interleaving

/-!
# Pools

Enqueue calls, workers and shutdown calls at the same lanes, each taking its own atomic steps in any
order between those of the others. Letting one of them take all its steps at once gives the
operations on lanes as a whole.
-/

namespace GraphRpc

variable {ε : Type}

-- ---------------------------------------------------------------------------
-- Enqueue calls
-- ---------------------------------------------------------------------------

/-- The next step of an enqueue call, if it has one. -/
inductive CallPhase where
  | checking
  | pushing
  | claiming
  | returned
  | refused
deriving DecidableEq, Repr

namespace CallPhase

def finished : CallPhase → Bool
  | returned | refused => true
  | checking | pushing | claiming => false

def past : CallPhase → Bool
  | claiming | returned => true
  | checking | pushing | refused => false

end CallPhase

structure EnqueueCall (ε : Type) where
  entry : ε
  phase : CallPhase := .checking

/-- What a step of an enqueue call does to the call and to its lane. -/
structure CallStep (ε : Type) where
  call : EnqueueCall ε
  lane : Lane ε
  pushed : List ε := []
  spawned : Bool := false
  dropped : Nat := 0

namespace EnqueueCall

def step (call : EnqueueCall ε) (shutdown : Bool) (lane : Lane ε) : CallStep ε :=
  match call.phase with
  | .checking =>
    if shutdown then { call := { call with phase := .refused }, lane, dropped := 1 }
    else { call := { call with phase := .pushing }, lane }
  | .pushing =>
    { call := { call with phase := .claiming }, lane := lane.push call.entry, pushed := [call.entry] }
  | .claiming =>
    let (claimed, lane) := lane.exchange .idle .scheduled
    { call := { call with phase := .returned }, lane, spawned := claimed }
  | .returned | .refused => { call, lane }

theorem entry_step {call : EnqueueCall ε} : (call.step shutdown lane).call.entry = call.entry := by
  obtain ⟨entry, phase⟩ := call
  cases phase with
  | checking => cases shutdown <;> rfl
  | _ => rfl

end EnqueueCall

-- ---------------------------------------------------------------------------
-- Workers
-- ---------------------------------------------------------------------------

/-- The next step of a worker, if it has one. -/
inductive WorkerPhase (ε : Type) where
  | scheduled
  | checking
  | popping
  | holding (entry : ε)
  | leaving
  | rechecking
  | reclaiming
  | clearing
  | stopping
  | gone

structure WorkerStep (ε : Type) where
  phase : WorkerPhase ε
  lane : Lane ε
  dispatched : List ε := []
  dropped : Nat := 0

namespace WorkerPhase

def hand : WorkerPhase ε → List ε
  | holding entry => [entry]
  | _ => []

def draining : WorkerPhase ε → Bool
  | checking | popping | holding _ | leaving | clearing | stopping => true
  | scheduled | rechecking | reclaiming | gone => false

def step (phase : WorkerPhase ε) (shutdown : Bool) (lane : Lane ε) : WorkerStep ε :=
  match phase with
  | scheduled => { phase := checking, lane := lane.enter .draining }
  | checking => { phase := if shutdown then clearing else popping, lane }
  | popping =>
    match lane.pop? with
    | some (entry, lane) => { phase := holding entry, lane }
    | none => { phase := leaving, lane }
  | holding entry => { phase := checking, lane, dispatched := [entry] }
  | leaving => { phase := rechecking, lane := lane.enter .idle }
  | rechecking => { phase := if lane.queue.isEmpty then gone else reclaiming, lane }
  | reclaiming =>
    let (claimed, lane) := lane.exchange .idle .draining
    { phase := if claimed then checking else gone, lane }
  | clearing =>
    let (dropped, lane) := lane.clear
    { phase := stopping, lane, dropped }
  | stopping => { phase := gone, lane := lane.enter .idle }
  | gone => { phase := gone, lane }

/-- Up to `n` steps in a row, until the worker has an entry in hand or is gone. -/
def steps (phase : WorkerPhase ε) (shutdown : Bool) (lane : Lane ε) : (n : Nat) → WorkerStep ε
  | 0 => { phase, lane }
  | n + 1 =>
    match phase with
    | holding _ | gone => { phase, lane }
    | _ =>
      let next := phase.step shutdown lane
      let last := next.phase.steps shutdown next.lane n
      { last with dropped := next.dropped + last.dropped }

end WorkerPhase

namespace Lanes

def put (l : Lanes ε) (k : Nat) (lane : Lane ε) : Lanes ε := l.modify k fun _ => lane

theorem lanes_put {l : Lanes ε} (h : l.lanes[k]? = some lane) :
    (l.put k lane').lanes[j]? = if k = j then some lane' else l.lanes[j]? := by
  rw [put, modify, Array.getElem?_modify]
  split
  · next hj =>
    subst hj
    rw [h]
    rfl
  · rfl

@[simp] theorem size_put {l : Lanes ε} : (l.put k lane).size = l.size := by
  simp [size, put, modify]

@[simp] theorem laneOf_put {l : Lanes ε} (connection : Nat) :
    (l.put k lane).laneOf connection = l.laneOf connection := by
  simp [laneOf]

theorem modify_eq_put {l : Lanes ε} (h : l.lanes[k]? = some lane) (f : Lane ε → Lane ε) :
    l.modify k f = l.put k (f lane) := by
  simp only [put, modify, mk.injEq, and_true]
  apply Array.ext_getElem?
  intro i
  rw [Array.getElem?_modify, Array.getElem?_modify]
  split
  · next hi =>
    subst hi
    rw [h]
    rfl
  · rfl

theorem put_self {l : Lanes ε} (h : l.lanes[k]? = some lane) : l.put k lane = l := by
  have hlanes : (l.put k lane).lanes = l.lanes := by
    apply Array.ext_getElem?
    intro j
    rw [lanes_put h]
    split
    · next hj => rw [← hj, h]
    · rfl
  exact congrArg (mk · l.shutdown) hlanes

/-- An entry is added by the steps of one call in a row. -/
theorem enqueue_eq_steps {l : Lanes ε} (h : l.lanes[k]? = some lane) (entry : ε) :
    let checked := EnqueueCall.step { entry := entry } l.shutdown lane
    let pushed := checked.call.step l.shutdown checked.lane
    let last := pushed.call.step l.shutdown pushed.lane
    l.enqueue k entry =
      (if last.call.phase = .refused then none else some last.spawned, l.put k last.lane) := by
  cases hs : l.shutdown with
  | true => simp [enqueue, hs, EnqueueCall.step, put_self h]
  | false =>
    simp only [enqueue, hs, h, EnqueueCall.step]
    rfl

/-- A worker looks for work by its steps in a row. -/
theorem next_eq_steps {l : Lanes ε} (h : l.lanes[k]? = some lane) :
    let last := WorkerPhase.checking.steps l.shutdown lane 4
    l.next k = (match last.phase with
      | .holding entry => .entry entry
      | _ => if l.shutdown then .stopped last.dropped else .drained, l.put k last.lane) := by
  cases hs : l.shutdown with
  | true =>
    simp [next, h, hs, WorkerPhase.steps, WorkerPhase.step, put]
  | false =>
    cases hq : lane.queue with
    | nil =>
      have hidle : (lane.enter .idle).queue = [] := hq
      simp [next, h, hs, WorkerPhase.steps, WorkerPhase.step, Lane.pop?, hq, hidle, modify_eq_put h]
    | cons entry rest =>
      simp [next, h, hs, WorkerPhase.steps, WorkerPhase.step, Lane.pop?, hq, modify_eq_put h]

end Lanes

structure Worker (ε : Type) where
  lane : Nat
  phase : WorkerPhase ε := .scheduled

-- ---------------------------------------------------------------------------
-- The pool
-- ---------------------------------------------------------------------------

/-- The next step of a shutdown call, if it has one. -/
inductive ShutdownPhase where
  | swapping
  /-- To drop what waits in lane `k`, after `dropped` entries of the lanes before. -/
  | clearing (k dropped : Nat)
  | returned

structure Pool (ε : Type) where
  lanes : Lanes ε
  calls : List (EnqueueCall ε) := []
  workers : List (Worker ε) := []
  closers : List ShutdownPhase := []
  /-- What was pushed and dispatched so far, oldest first, with the lane it was pushed to or
  dispatched from. -/
  pushed : List (Nat × ε) := []
  dispatched : List (Nat × ε) := []
  dropped : Nat := 0

inductive PoolAction (ε : Type) where
  | enqueue (entry : ε)
  | shutdown
  | call (i : Nat)
  | work (i : Nat)
  | close (i : Nat)

namespace Pool

variable (connection : ε → Nat)

def ofWorkers (workers : Nat) : Pool ε := { lanes := .ofWorkers workers }

def stepCall (s : Pool ε) (i : Nat) : Pool ε :=
  match s.calls[i]? with
  | none => s
  | some call =>
    let k := s.lanes.laneOf (connection call.entry)
    match s.lanes.lanes[k]? with
    | none => s
    | some lane =>
      let next := call.step s.lanes.shutdown lane
      { s with
        lanes := s.lanes.put k next.lane
        calls := s.calls.set i next.call
        workers := if next.spawned then s.workers ++ [{ lane := k }] else s.workers
        pushed := s.pushed ++ next.pushed.map (k, ·)
        dropped := s.dropped + next.dropped }

def stepWorker (s : Pool ε) (i : Nat) : Pool ε :=
  match s.workers[i]? with
  | none => s
  | some worker =>
    match s.lanes.lanes[worker.lane]? with
    | none => s
    | some lane =>
      let next := worker.phase.step s.lanes.shutdown lane
      { s with
        lanes := s.lanes.put worker.lane next.lane
        workers := s.workers.set i { worker with phase := next.phase }
        dispatched := s.dispatched ++ next.dispatched.map (worker.lane, ·)
        dropped := s.dropped + next.dropped }

def stepCloser (s : Pool ε) (i : Nat) : Pool ε :=
  match s.closers[i]? with
  | none => s
  | some .swapping =>
    if s.lanes.shutdown then { s with closers := s.closers.set i .returned }
    else
      { s with
        lanes := { s.lanes with shutdown := true }
        closers := s.closers.set i (.clearing 0 0) }
  | some (.clearing k dropped) =>
    match s.lanes.lanes[k]? with
    | none => { s with closers := s.closers.set i .returned, dropped := s.dropped + dropped }
    | some lane =>
      { s with
        lanes := s.lanes.put k lane.clear.2
        closers := s.closers.set i (.clearing (k + 1) (dropped + lane.clear.1)) }
  | some .returned => s

def step (s : Pool ε) : PoolAction ε → Pool ε
  | .enqueue entry => { s with calls := s.calls ++ [{ entry := entry }] }
  | .shutdown => { s with closers := s.closers ++ [.swapping] }
  | .call i => s.stepCall connection i
  | .work i => s.stepWorker i
  | .close i => s.stepCloser i

def run (s : Pool ε) (actions : List (PoolAction ε)) : Pool ε := actions.foldl (step connection) s

def callsAt (s : Pool ε) (k : Nat) : List (EnqueueCall ε) :=
  s.calls.filter fun call => s.lanes.laneOf (connection call.entry) = k

def workersAt (s : Pool ε) (k : Nat) : List (WorkerPhase ε) :=
  (s.workers.filter (·.lane = k)).map (·.phase)

def logAt (k : Nat) (log : List (Nat × ε)) : List ε := (log.filter (·.1 = k)).map Prod.snd

/-- All enqueue calls have returned and no worker is scheduled or running. -/
def Quiet (s : Pool ε) : Prop :=
  (∀ call ∈ s.calls, call.phase.finished) ∧ ∀ w ∈ s.workers, w.phase = .gone

-- ---------------------------------------------------------------------------
-- What a step means to a lane
-- ---------------------------------------------------------------------------

section
variable {j k : Nat}

@[simp] theorem logAt_append (log log' : List (Nat × ε)) :
    logAt k (log ++ log') = logAt k log ++ logAt k log' := by
  simp [logAt]

@[simp] theorem logAt_map_self (out : List ε) : logAt k (out.map (k, ·)) = out := by
  simp [logAt, List.filter_map, Function.comp_def]

theorem logAt_map_ne (h : k ≠ j) (out : List ε) : logAt j (out.map (k, ·)) = [] := by
  simp [logAt, List.filter_map, Function.comp_def, h]

end

section
variable {connection : ε → Nat} {s : Pool ε} {i j : Nat} {lane' : Lane ε}

theorem stepCall_frame (connection : ε → Nat) (s : Pool ε) (i : Nat) : let s' := s.stepCall connection i
    s'.lanes.size = s.lanes.size ∧ s'.lanes.shutdown = s.lanes.shutdown ∧ s'.closers = s.closers ∧
      s'.dispatched = s.dispatched := by
  unfold stepCall
  cases s.calls[i]? with
  | none => exact ⟨rfl, rfl, rfl, rfl⟩
  | some call =>
    dsimp only
    split
    · exact ⟨rfl, rfl, rfl, rfl⟩
    · exact ⟨Lanes.size_put, rfl, rfl, rfl⟩

theorem stepWorker_frame (s : Pool ε) (i : Nat) : let s' := s.stepWorker i
    s'.lanes.size = s.lanes.size ∧ s'.lanes.shutdown = s.lanes.shutdown ∧ s'.closers = s.closers ∧
      s'.pushed = s.pushed := by
  unfold stepWorker
  cases s.workers[i]? with
  | none => exact ⟨rfl, rfl, rfl, rfl⟩
  | some worker =>
    dsimp only
    split
    · exact ⟨rfl, rfl, rfl, rfl⟩
    · exact ⟨Lanes.size_put, rfl, rfl, rfl⟩

/-- A step of a call leaves a lane, its calls and its workers as they are, or it is what the call does
to its own lane. -/
theorem stepCall_cases (hj : (s.stepCall connection i).lanes.lanes[j]? = some lane') :
    let s' := s.stepCall connection i
    (s.lanes.lanes[j]? = some lane' ∧ s'.callsAt connection j = s.callsAt connection j ∧
      s'.workersAt j = s.workersAt j ∧ logAt j s'.pushed = logAt j s.pushed) ∨
    ∃ call lane pre post, s.calls[i]? = some call ∧ s.lanes.laneOf (connection call.entry) = j ∧
      s.lanes.lanes[j]? = some lane ∧ s.callsAt connection j = pre ++ call :: post ∧
      let next := call.step s.lanes.shutdown lane
      next.lane = lane' ∧ s'.callsAt connection j = pre ++ next.call :: post ∧
      s'.workersAt j = (if next.spawned then s.workersAt j ++ [.scheduled] else s.workersAt j) ∧
      logAt j s'.pushed = logAt j s.pushed ++ next.pushed := by
  dsimp only
  cases hcall : s.calls[i]? with
  | none =>
    simp only [stepCall, hcall, and_true] at hj ⊢
    exact .inl hj
  | some call =>
    generalize hk : s.lanes.laneOf (connection call.entry) = k
    cases hlane : s.lanes.lanes[k]? with
    | none =>
      simp only [stepCall, hcall, hk, hlane, and_true] at hj ⊢
      exact .inl hj
    | some lane =>
      obtain ⟨pre, post, hcalls, hset⟩ := exists_split hcall
      simp only [stepCall, hcall, hk, hlane, Lanes.lanes_put hlane] at hj
      simp only [stepCall, hcall, hk, hlane, callsAt, workersAt, hset, Lanes.laneOf_put,
        List.filter_append, List.filter_cons, EnqueueCall.entry_step, logAt_append]
      by_cases hkj : k = j
      · subst hkj
        rw [if_pos rfl] at hj
        let here (call : EnqueueCall ε) : Bool := s.lanes.laneOf (connection call.entry) = k
        refine .inr ⟨call, lane, pre.filter here, post.filter here, rfl, hk, hlane, ?_,
          Option.some.inj hj, ?_, ?_, ?_⟩
        · rw [hcalls]
          simp only [List.filter_append, List.filter_cons, hk, decide_true, if_true, here]
        · simp only [decide_true, if_true, here]
        · cases (call.step s.lanes.shutdown lane).spawned <;> simp
        · rw [logAt_map_self]
      · rw [if_neg hkj] at hj
        refine .inl ⟨hj, ?_, ?_, ?_⟩
        · rw [hcalls]
          simp only [List.filter_append, List.filter_cons, hk, hkj, decide_false,
            Bool.false_eq_true, if_false]
        · cases (call.step s.lanes.shutdown lane).spawned <;> simp [hkj]
        · rw [logAt_map_ne hkj, List.append_nil]

/-- A step of a worker leaves a lane, its calls and its workers as they are, or it is what the worker
does to its own lane. -/
theorem stepWorker_cases (connection : ε → Nat)
    (hj : (s.stepWorker i).lanes.lanes[j]? = some lane') :
    let s' := s.stepWorker i
    (s.lanes.lanes[j]? = some lane' ∧ s'.callsAt connection j = s.callsAt connection j ∧
      s'.workersAt j = s.workersAt j ∧ logAt j s'.dispatched = logAt j s.dispatched) ∨
    ∃ w lane before after, s.lanes.lanes[j]? = some lane ∧ s.workersAt j = before ++ w :: after ∧
      let next := w.step s.lanes.shutdown lane
      next.lane = lane' ∧ s'.callsAt connection j = s.callsAt connection j ∧
      s'.workersAt j = before ++ next.phase :: after ∧
      logAt j s'.dispatched = logAt j s.dispatched ++ next.dispatched := by
  dsimp only
  cases hworker : s.workers[i]? with
  | none =>
    simp only [stepWorker, hworker, and_true] at hj ⊢
    exact .inl hj
  | some worker =>
    obtain ⟨k, w⟩ := worker
    cases hlane : s.lanes.lanes[k]? with
    | none =>
      simp only [stepWorker, hworker, hlane, and_true] at hj ⊢
      exact .inl hj
    | some lane =>
      obtain ⟨before, after, hworkers, hset⟩ := exists_split hworker
      simp only [stepWorker, hworker, hlane, Lanes.lanes_put hlane] at hj
      simp only [stepWorker, hworker, hlane, callsAt, workersAt, hset, Lanes.laneOf_put,
        List.filter_append, List.filter_cons, logAt_append]
      by_cases hkj : k = j
      · subst hkj
        rw [if_pos rfl] at hj
        refine .inr ⟨w, lane, (before.filter (·.lane = k)).map (·.phase),
          (after.filter (·.lane = k)).map (·.phase), hlane, ?_, Option.some.inj hj, trivial, ?_, ?_⟩
        · rw [hworkers]
          simp only [List.filter_append, List.filter_cons, decide_true, if_true, List.map_append,
            List.map_cons]
        · simp only [decide_true, if_true, List.map_append, List.map_cons]
        · rw [logAt_map_self]
      · rw [if_neg hkj] at hj
        refine .inl ⟨hj, trivial, ?_, ?_⟩
        · rw [hworkers]
          simp only [List.filter_append, List.filter_cons, hkj, decide_false, Bool.false_eq_true,
            if_false]
        · rw [logAt_map_ne hkj, List.append_nil]

end

end Pool
end GraphRpc
