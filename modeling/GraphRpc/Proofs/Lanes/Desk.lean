import Mathlib
import GraphRpc.Proofs.Lanes.Order

/-!
# Desks

Where the entries that a reader takes in are dispatched: at the reader itself, or by the workers of a
pool, to which the reader hands over one entry after another. Either way one entry is dispatched at a
time, in the order in which the reader took them in.
-/

namespace GraphRpc

variable {ε : Type}

-- ---------------------------------------------------------------------------
-- A pool with one reader
-- ---------------------------------------------------------------------------

theorem EnqueueCall.filter_past_step (call : EnqueueCall ε) (shutdown : Bool) (lane : Lane ε) :
    ([(call.step shutdown lane).call].filter (·.phase.past)).map (·.entry) =
      ([call].filter (·.phase.past)).map (·.entry) ++ (call.step shutdown lane).pushed := by
  obtain ⟨entry, phase⟩ := call
  cases phase with
  | checking => cases shutdown <;> rfl
  | _ => rfl

theorem WorkerPhase.dispatched_step (w : WorkerPhase ε) (shutdown : Bool) (lane : Lane ε) :
    (w.step shutdown lane).dispatched = w.hand := by
  cases w with
  | popping =>
    simp only [step]
    cases lane.pop? <;> rfl
  | _ => rfl

namespace Pool

/-- A pool with a single reader, of this connection, which waits until an enqueue call has returned. -/
structure Serial (connection : Nat) (s : Pool ε) : Prop where
  orderly : s.Orderly fun _ => connection
  lane_eq : ∀ w ∈ s.workers, w.lane = s.lanes.laneOf connection
  returned : ∀ call ∈ s.calls.dropLast, call.phase = .returned
  pushed_eq : logAt (s.lanes.laneOf connection) s.pushed =
    (s.calls.filter (·.phase.past)).map (·.entry)

/-- What was handed over and has not been dispatched yet, oldest first. -/
def waiting (connection : Nat) (s : Pool ε) : List ε :=
  (s.calls.map (·.entry)).drop (logAt (s.lanes.laneOf connection) s.dispatched).length

def handOf (s : Pool ε) (i : Nat) : List ε := (s.workers[i]?.map (·.phase.hand)).getD []

variable {connection : Nat} {s : Pool ε} {i j : Nat}

theorem serial_ofWorkers (connection workers : Nat) : (ofWorkers workers : Pool ε).Serial connection where
  orderly := orderly_ofWorkers workers
  lane_eq := List.forall_mem_nil _
  returned := List.forall_mem_nil _
  pushed_eq := rfl

theorem Serial.tended (h : s.Serial connection) :
    ∃ lane, s.lanes.lanes[s.lanes.laneOf connection]? = some lane ∧
      Tended lane s.calls (s.workers.map (·.phase)) (logAt (s.lanes.laneOf connection) s.pushed)
        (logAt (s.lanes.laneOf connection) s.dispatched) := by
  obtain ⟨lane, hlane⟩ : ∃ lane, s.lanes.lanes[s.lanes.laneOf connection]? = some lane :=
    ⟨_, Array.getElem?_eq_getElem (Nat.mod_lt connection h.orderly.nonempty)⟩
  have hcalls : s.callsAt (fun _ => connection) (s.lanes.laneOf connection) = s.calls := by
    simp [callsAt]
  have hworkers : s.workersAt (s.lanes.laneOf connection) = s.workers.map (·.phase) := by
    rw [workersAt, List.filter_eq_self.2 fun w hw => decide_eq_true (h.lane_eq w hw)]
  have htended := h.orderly.tended _ lane hlane
  rw [hcalls, hworkers] at htended
  exact ⟨lane, hlane, htended⟩

/-- What is in hand was handed over after all that was dispatched and before the rest. -/
theorem Serial.entries_eq (h : s.Serial connection) : ∃ later, s.calls.map (·.entry) =
    logAt (s.lanes.laneOf connection) s.dispatched ++
      (s.workers.map (·.phase)).flatMap WorkerPhase.hand ++ later := by
  obtain ⟨lane, -, htended⟩ := h.tended
  have horder := htended.order
  rw [h.pushed_eq] at horder
  have hpast : ∃ rest, s.calls.map (·.entry) = (s.calls.filter (·.phase.past)).map (·.entry) ++ rest := by
    have hfirst : s.calls.dropLast.filter (·.phase.past) = s.calls.dropLast :=
      List.filter_eq_self.2 fun call hcall => by rw [h.returned call hcall, CallPhase.past]
    have hsplit := List.dropLast_append_getLast? (l := s.calls)
    cases hlast : s.calls.getLast? with
    | none =>
      rw [List.getLast?_eq_none_iff.1 hlast]
      exact ⟨[], rfl⟩
    | some last =>
      rw [← hsplit last hlast, List.filter_append, hfirst, List.filter_singleton]
      cases last.phase.past with
      | true => exact ⟨[], (List.append_nil _).symm⟩
      | false =>
        refine ⟨[last.entry], ?_⟩
        rw [List.map_append, cond_false, List.append_nil]
        rfl
  obtain ⟨rest, hrest⟩ := hpast
  exact ⟨lane.queue ++ rest, by rw [hrest, ← horder, List.append_assoc]⟩

theorem handOf_eq {w : Worker ε} (h : s.workers[i]? = some w) : s.handOf i = w.phase.hand := by
  rw [handOf, h]
  rfl

theorem handOf_of_none (h : s.workers[i]? = none) : s.handOf i = [] := by
  rw [handOf, h]
  rfl

theorem Serial.alone (h : s.Serial connection) (hi : s.handOf i ≠ []) :
    (s.workers.map (·.phase)).flatMap WorkerPhase.hand = s.handOf i ∧
      ∀ j, s.handOf j ≠ [] → j = i := by
  cases hw : s.workers[i]? with
  | none => exact (hi (handOf_of_none hw)).elim
  | some w =>
    rw [handOf_eq hw] at hi ⊢
    have howns : w.phase.owns := by
      cases hphase : w.phase with
      | holding entry => rfl
      | _ =>
        rw [hphase] at hi
        exact (hi rfl).elim
    have hphase : (s.workers.map (·.phase))[i]? = some w.phase := by
      rw [List.getElem?_map, hw]
      rfl
    obtain ⟨before, after, hphases, hset⟩ := exists_split hphase
    obtain ⟨lane, -, htended⟩ := h.tended
    have howned := htended.owned
    rw [hphases] at howned
    obtain ⟨hb, ha, -⟩ := howned.alone howns
    constructor
    · rw [hphases, List.flatMap_append, List.flatMap_cons, hand_of_notOwns hb, hand_of_notOwns ha,
        List.append_nil, List.nil_append]
    · intro j hj
      by_contra hne
      -- With this worker gone, nobody would have anything in hand.
      have hnone : ((s.workers.map (·.phase)).set i .gone).filter WorkerPhase.owns = [] := by
        rw [hset, filter_owns_middle hb ha]
        rfl
      refine hj ?_
      cases hw' : s.workers[j]? with
      | none => exact handOf_of_none hw'
      | some w' =>
        have hmem : ((s.workers.map (·.phase)).set i .gone)[j]? = some w'.phase := by
          rw [List.getElem?_set_ne (Ne.symm hne), List.getElem?_map, hw']
          rfl
        rw [handOf_eq hw']
        exact List.flatMap_eq_nil_iff.1 (hand_of_notOwns hnone) _ (List.mem_of_getElem? hmem)

-- ---------------------------------------------------------------------------
-- Steps of a pool with one reader
-- ---------------------------------------------------------------------------

theorem Serial.give (h : s.Serial connection) (hready : ∀ call ∈ s.calls, call.phase.finished)
    (entry : ε) : (s.step (fun _ => connection) (.enqueue entry)).Serial connection ∧
      (s.step (fun _ => connection) (.enqueue entry)).waiting connection =
        s.waiting connection ++ [entry] := by
  obtain ⟨lane, -, htended⟩ := h.tended
  have hreturned : ∀ call ∈ s.calls, call.phase = .returned := by
    intro call hcall
    have hfinished := hready call hcall
    have haccepted := htended.accepted call hcall
    cases hphase : call.phase with
    | returned => rfl
    | refused => exact (haccepted hphase).elim
    | _ =>
      rw [hphase] at hfinished
      cases hfinished
  refine ⟨⟨h.orderly.new_call entry, h.lane_eq, ?_, ?_⟩, ?_⟩
  · simpa [step] using hreturned
  · have hnew : (s.calls ++ [(⟨entry, .checking⟩ : EnqueueCall ε)]).filter (·.phase.past) =
        s.calls.filter (·.phase.past) := by simp [CallPhase.past]
    simp only [step, hnew]
    exact h.pushed_eq
  · have hle : (logAt (s.lanes.laneOf connection) s.dispatched).length ≤
        (s.calls.map (·.entry)).length := by
      obtain ⟨later, hentries⟩ := h.entries_eq
      rw [hentries, List.append_assoc, List.length_append]
      exact Nat.le_add_right ..
    simp only [step, waiting, List.map_append, List.map_cons, List.map_nil]
    rw [List.drop_append_of_le_length hle]

theorem handOf_spawn (s : Pool ε) (k i : Nat) :
    handOf { s with workers := s.workers ++ [{ lane := k }] } i = s.handOf i := by
  by_cases hi : i < s.workers.length
  · rw [handOf, handOf, List.getElem?_append_left hi]
  · rw [handOf, handOf, List.getElem?_append_right (Nat.le_of_not_lt hi),
      List.getElem?_eq_none (Nat.le_of_not_lt hi)]
    cases i - s.workers.length <;> rfl

theorem Serial.step_call (h : s.Serial connection) :
    let s' := s.stepCall (fun _ => connection) (s.calls.length - 1)
    s'.Serial connection ∧ s'.waiting connection = s.waiting connection ∧
      ∀ i, s'.handOf i = s.handOf i := by
  have horderly := h.orderly.step_call (s.calls.length - 1)
  obtain ⟨lane, hlane, -⟩ := h.tended
  dsimp only
  -- The reader waits for each call to return, so only the last one can still have steps to take.
  rcases List.eq_nil_or_concat' s.calls with hnil | ⟨earlier, last, hcalls⟩
  · have hstep : s.stepCall (fun _ => connection) (s.calls.length - 1) = s := by
      rw [stepCall, hnil]
      rfl
    rw [hstep]
    exact ⟨h, rfl, fun _ => rfl⟩
  · have hlast : s.calls[s.calls.length - 1]? = some last := by simp [hcalls]
    have hset (call : EnqueueCall ε) :
        s.calls.set (s.calls.length - 1) call = earlier ++ [call] := by simp [hcalls]
    have hreturned := h.returned
    have hpushed := h.pushed_eq
    rw [hcalls, List.dropLast_concat] at hreturned
    rw [hcalls, List.filter_append, List.map_append] at hpushed
    simp only [stepCall, hlast, hlane, hset] at horderly ⊢
    refine ⟨⟨horderly, ?_, ?_, ?_⟩, ?_, fun i => ?_⟩
    · intro w hw
      rw [Lanes.laneOf_put]
      dsimp only at hw
      split at hw
      · rcases List.mem_append.1 hw with hw | hw
        · exact h.lane_eq w hw
        · rw [List.mem_singleton.1 hw]
      · exact h.lane_eq w hw
    · rw [List.dropLast_concat]
      exact hreturned
    · rw [Lanes.laneOf_put, logAt_append, logAt_map_self, hpushed, List.filter_append, List.map_append,
        EnqueueCall.filter_past_step, List.append_assoc]
    · simp only [waiting, Lanes.laneOf_put, hcalls, List.map_append, List.map_cons, List.map_nil,
        EnqueueCall.entry_step]
    · split
      · exact handOf_spawn s _ i
      · rfl

theorem Serial.step_worker (h : s.Serial connection) (i : Nat) :
    (s.stepWorker i).Serial connection ∧
      s.waiting connection = s.handOf i ++ (s.stepWorker i).waiting connection ∧
      ∀ j, j ≠ i → (s.stepWorker i).handOf j = s.handOf j := by
  have horderly := h.orderly.step_worker i
  cases hw : s.workers[i]? with
  | none =>
    have hstep : s.stepWorker i = s := by rw [stepWorker, hw]
    rw [hstep, handOf_of_none hw]
    exact ⟨h, rfl, fun _ _ => rfl⟩
  | some w =>
    obtain ⟨lane, hlane, -⟩ := h.tended
    have hat : w.lane = s.lanes.laneOf connection := h.lane_eq w (List.mem_of_getElem? hw)
    simp only [stepWorker, hw, hat, hlane] at horderly ⊢
    refine ⟨⟨horderly, ?_, h.returned, ?_⟩, ?_, fun j hj => ?_⟩
    · intro w' hw'
      rw [Lanes.laneOf_put]
      rcases List.mem_or_eq_of_mem_set hw' with hw' | rfl
      · exact h.lane_eq w' hw'
      · rfl
    · rw [Lanes.laneOf_put]
      exact h.pushed_eq
    · rw [handOf_eq hw]
      simp only [waiting, Lanes.laneOf_put, logAt_append, logAt_map_self, WorkerPhase.dispatched_step]
      by_cases hhand : w.phase.hand = []
      · rw [hhand, List.append_nil, List.nil_append]
      · obtain ⟨later, hentries⟩ := h.entries_eq
        rw [(h.alone (i := i) (by rwa [handOf_eq hw])).1, handOf_eq hw] at hentries
        rw [hentries, List.drop_left, List.append_assoc, List.drop_left]
    · rw [handOf, handOf, List.getElem?_set_ne (Ne.symm hj)]

end Pool

-- ---------------------------------------------------------------------------
-- Desks
-- ---------------------------------------------------------------------------

/-- Who is at work at a desk. -/
inductive Hand where
  | reader
  | worker (i : Nat)
deriving DecidableEq, Repr

inductive Desk (ε : Type) where
  | inline (hand : Option ε)
  | pooled (connection : Nat) (pool : Pool ε)

namespace Desk

def ofKind (kind : StrategyKind) (workers connection : Nat) : Desk ε :=
  match kind with
  | .inline => inline none
  | .pooled => pooled connection (.ofWorkers workers)

def ready : Desk ε → Bool
  | inline hand => hand.isNone
  | pooled _ pool => pool.calls.all (·.phase.finished)

def give (d : Desk ε) (entry : ε) : Desk ε :=
  match d with
  | inline _ => inline (some entry)
  | pooled connection pool => pooled connection (pool.step (fun _ => connection) (.enqueue entry))

def held : Desk ε → Hand → List ε
  | inline hand, .reader => hand.toList
  | pooled _ pool, .worker i => pool.handOf i
  | inline _, .worker _ | pooled _ _, .reader => []

/-- The next step of somebody, who is done with what it had in hand, if anything. -/
def step : Desk ε → Hand → Desk ε
  | inline _, .reader => inline none
  | inline hand, .worker _ => inline hand
  | pooled connection pool, .reader =>
    pooled connection (pool.stepCall (fun _ => connection) (pool.calls.length - 1))
  | pooled connection pool, .worker i => pooled connection (pool.stepWorker i)

def waiting : Desk ε → List ε
  | inline hand => hand.toList
  | pooled connection pool => pool.waiting connection

def Kept : Desk ε → Prop
  | inline _ => True
  | pooled connection pool => pool.Serial connection

variable {d : Desk ε} {hand hand' : Hand}

theorem kept_ofKind (kind : StrategyKind) (workers connection : Nat) :
    (ofKind kind workers connection : Desk ε).Kept := by
  cases kind with
  | inline => trivial
  | pooled => exact Pool.serial_ofWorkers ..

theorem waiting_ofKind (kind : StrategyKind) (workers connection : Nat) :
    (ofKind kind workers connection : Desk ε).waiting = [] := by
  cases kind <;> rfl

theorem Kept.give (h : d.Kept) (hready : d.ready) (entry : ε) :
    (d.give entry).Kept ∧ (d.give entry).waiting = d.waiting ++ [entry] ∧
      ∀ hand, d.held hand ≠ [] → (d.give entry).held hand = d.held hand := by
  cases d with
  | inline own =>
    obtain rfl := Option.isNone_iff_eq_none.1 hready
    refine ⟨trivial, rfl, fun hand hheld => ?_⟩
    cases hand with
    | reader => exact (hheld rfl).elim
    | worker i => rfl
  | pooled connection pool =>
    obtain ⟨hserial, hwaiting⟩ := Pool.Serial.give h (List.all_eq_true.1 hready) entry
    refine ⟨hserial, hwaiting, fun hand _ => ?_⟩
    cases hand <;> rfl

/-- Entries leave a desk in the order in which they came to it. -/
theorem Kept.step (h : d.Kept) (hand : Hand) :
    (d.step hand).Kept ∧ d.waiting = d.held hand ++ (d.step hand).waiting ∧
      ∀ hand', hand' ≠ hand → (d.step hand).held hand' = d.held hand' := by
  cases d with
  | inline own =>
    cases hand with
    | reader =>
      refine ⟨trivial, (List.append_nil _).symm, fun hand' hne => ?_⟩
      cases hand' with
      | reader => exact (hne rfl).elim
      | worker i => rfl
    | worker i => exact ⟨trivial, rfl, fun _ _ => rfl⟩
  | pooled connection pool =>
    cases hand with
    | reader =>
      obtain ⟨hserial, hwaiting, hhands⟩ := Pool.Serial.step_call h
      refine ⟨hserial, hwaiting.symm, fun hand' _ => ?_⟩
      cases hand' with
      | reader => rfl
      | worker j => exact hhands j
    | worker i =>
      obtain ⟨hserial, hwaiting, hhands⟩ := Pool.Serial.step_worker h i
      refine ⟨hserial, hwaiting, fun hand' hne => ?_⟩
      cases hand' with
      | reader => rfl
      | worker j => exact hhands j fun heq => hne (congrArg Hand.worker heq)

theorem Kept.alone (h : d.Kept) (hheld : d.held hand ≠ []) (hheld' : d.held hand' ≠ []) :
    hand' = hand := by
  cases d with
  | inline own =>
    cases hand <;> cases hand' <;> first | rfl | exact (hheld rfl).elim | exact (hheld' rfl).elim
  | pooled connection pool =>
    cases hand with
    | reader => exact (hheld rfl).elim
    | worker i =>
      cases hand' with
      | reader => exact (hheld' rfl).elim
      | worker j => exact congrArg Hand.worker ((Pool.Serial.alone h hheld).2 j hheld')

theorem held_cases (d : Desk ε) (hand : Hand) : d.held hand = [] ∨ ∃ entry, d.held hand = [entry] := by
  cases d with
  | inline own =>
    cases hand with
    | reader => cases own <;> simp [held]
    | worker i => exact .inl rfl
  | pooled connection pool =>
    cases hand with
    | reader => exact .inl rfl
    | worker i =>
      simp only [held, Pool.handOf]
      cases pool.workers[i]? with
      | none => exact .inl rfl
      | some w => cases hphase : w.phase <;> simp [hphase, WorkerPhase.hand]

end Desk
end GraphRpc
