import Mathlib
import GraphRpc.Proofs.Race.Telling

/-!
# The first event decides a call

Timers run on their own, and a call is in a table that many reach for. All the same, the table does
what the story of each call says: operation by operation, and through the clock millisecond by
millisecond. Main statement: after any operations, the calls in the table are those that wait, and
each call was told what its story says, at the time its story says.
-/

namespace GraphRpc.Race

variable {α : Type}

-- ---------------------------------------------------------------------------
-- The table in step with the story
-- ---------------------------------------------------------------------------

def Story.waits (s : Story α) : Waits := fun id => (s.fate id).waiting?

theorem Story.waits_apply (s : Story α) (id : UInt64) : s.waits id = (s.fate id).waiting? := rfl

theorem Story.waits_step {s : Story α} {op : Op α} {id : UInt64} (htarget : op.target? = some id) :
    (s.step op).waits =
      Function.update s.waits id ((s.fate id).meet id s.now op).waiting? := by
  funext other
  by_cases hid : other = id
  · subst hid
    simp [waits, step]
  · simp [waits, hid, fate_step_other htarget (Ne.symm hid)]

structure Agrees (l : Timeline α) (s : Story α) : Prop where
  now_eq : l.trace.now = s.now
  effects_eq : l.trace.effects = []
  waits : Matches l.calls s.waits
  told : ∀ id, Timeline.tellings id.toNat l.log = (s.fate id).told?.toList

namespace Agrees

variable {l : Timeline α} {s s' : Story α} {id : UInt64}

theorem tell (h : Agrees l s) {ids : List UInt64} (hn : ids.Nodup)
    {outcome : Except Failure (Payload α)} (hnow : s'.now = s.now)
    (hin : ∀ id ∈ ids, s'.fate id = .told s.now outcome)
    (hwaits : ∀ id ∈ ids, (s.fate id).told? = none)
    (hout : ∀ id ∉ ids, s'.fate id = s.fate id) :
    Agrees (l.record (leave l.calls ids) (tellAll l.trace ids outcome)) s' where
  now_eq := by simp [Timeline.record, h.now_eq, hnow]
  effects_eq := rfl
  waits := by
    have hgone : s'.waits = s.waits.without ids := by
      funext id
      by_cases hid : id ∈ ids
      · simp [Story.waits, Waits.without, hid, hin id hid, Fate.waiting?]
      · simp [Story.waits, Waits.without, hid, hout id hid]
    exact hgone ▸ h.waits.leave ids
  told id := by
    have hnew := tellings_tellAll h.effects_eq hn outcome id
    simp only [Timeline.record, Timeline.tellings_append, h.told id, now_tellAll, hnew]
    by_cases hid : id ∈ ids
    · simp only [hid, if_true, hwaits id hid, hin id hid, h.now_eq]
      rfl
    · simp [hid, hout id hid]

theorem keep (h : Agrees l s) {calls : Calls} (hnow : s'.now = s.now)
    (hwaits : Matches calls s'.waits) (htold : ∀ id, (s'.fate id).told? = (s.fate id).told?) :
    Agrees (l.record calls l.trace) s' where
  now_eq := h.now_eq.trans hnow.symm
  effects_eq := rfl
  waits := hwaits
  told id := by simp [Timeline.record, h.effects_eq, h.told id, htold id]

theorem idle (h : Agrees l s) : Agrees (l.record l.calls l.trace) s :=
  h.keep rfl h.waits fun _ => rfl

theorem tellOne (h : Agrees l s) {due : Option Millis} (hfate : s.fate id = .waiting due)
    {outcome : Except Failure (Payload α)} {op : Op α} (htarget : op.target? = some id)
    (hlapse : op.lapse = 0) (hmeet : (s.fate id).meet id s.now op = .told s.now outcome) :
    Agrees (l.record (leave l.calls [id]) (tellAll l.trace [id] outcome)) (s.step op) := by
  refine h.tell (List.nodup_singleton id) ?_ ?_ ?_ ?_
  · simp [Story.step, hlapse]
  · simpa [Story.step] using hmeet
  · simp [hfate, Fate.told?]
  · intro other hother
    exact Story.fate_step_other htarget (by simpa [eq_comm] using hother)

theorem insert (h : Agrees l s) (hfate : s.fate id = .unknown) (timeout : Option Millis) :
    Agrees (l.step (.insert id timeout)) (s.step (.insert id timeout)) := by
  have hwaits : (s.step (.insert id timeout)).waits = Function.update s.waits id (some none) := by
    rw [Story.waits_step rfl, hfate]
    simp [Fate.meet, Fate.waiting?]
  refine h.keep rfl ?_ ?_
  · rw [hwaits]
    exact h.waits.insert (by simp [Story.waits, hfate, Fate.waiting?]) _
  · exact fun other => Fate.told?_meet trivial

theorem arm (h : Agrees l s) (hfate : (s.fate id).waiting?.join = none) (after : Millis) :
    Agrees (l.step (.arm id after)) (s.step (.arm id after)) := by
  refine h.keep rfl ?_ fun other => Fate.told?_meet trivial
  rw [Story.waits_step rfl, h.now_eq]
  cases hw : s.waits id with
  | none =>
    have hout : l.calls.contains id = false := by simp [h.waits.contains_eq, hw]
    have hsame : (s.fate id).meet id s.now (.arm id after) = s.fate id :=
      Fate.meet_eq_of_not_waiting hw (by simp)
    simpa [Calls.arm, hout, hsame, ← Story.waits_apply] using h.waits
  | some due =>
    have hdue : s.fate id = .waiting due := Fate.waiting?_eq_some.1 hw
    obtain rfl : due = none := by simpa [hdue, Fate.waiting?] using hfate
    simpa [hdue, Fate.meet, Fate.waiting?] using h.waits.arm hw (s.now + after)

theorem resolve (h : Agrees l s) (id : UInt64) (outcome : Except Failure (Payload α)) :
    Agrees (l.step (.resolve id outcome)) (s.step (.resolve id outcome)) := by
  simp only [Timeline.step]
  cases hw : s.waits id with
  | none =>
    have hsame : (s.fate id).meet id s.now (.resolve id outcome) = s.fate id :=
      Fate.meet_eq_of_not_waiting hw (by simp)
    rw [h.waits.resolve_none hw, Story.step_eq_self rfl rfl hsame]
    exact h.idle
  | some due =>
    have hfate : s.fate id = .waiting due := Fate.waiting?_eq_some.1 hw
    rw [h.waits.resolve_some hw]
    exact h.tellOne hfate rfl rfl (by simp [hfate, Fate.meet])

theorem cancel (h : Agrees l s) (id : UInt64) :
    Agrees (l.step (.cancel id)) (s.step (.cancel id)) := by
  cases hw : s.waits id with
  | none =>
    have hstep : l.step (.cancel id) = l := by simp [Timeline.step, h.waits.take?_none hw]
    have hsame : (s.fate id).meet id s.now (.cancel id) = s.fate id :=
      Fate.meet_eq_of_not_waiting hw (by simp)
    rwa [hstep, Story.step_eq_self rfl rfl hsame]
  | some due =>
    have hfate : s.fate id = .waiting due := Fate.waiting?_eq_some.1 hw
    obtain ⟨call, -, -, htake⟩ := h.waits.take?_some hw
    have hstep : l.step (.cancel id) = l.record (leave l.calls [id]) l.trace := by
      simp [Timeline.step, htake]
    rw [hstep]
    refine h.keep rfl ?_ fun other => Fate.told?_meet trivial
    rw [Story.waits_step rfl]
    simpa [hfate, Fate.meet, Fate.waiting?, Waits.without_singleton] using h.waits.leave [id]

theorem failAll (h : Agrees l s) (failure : Failure) :
    Agrees (l.step (.failAll failure)) (s.step (.failAll failure)) := by
  simp only [Timeline.step, h.waits.failAll_eq]
  refine h.tell h.waits.ids rfl ?_ ?_ ?_
  · intro id hid
    obtain ⟨due, hdue⟩ := Option.isSome_iff_exists.1 ((h.waits.mem_ids id).1 hid)
    simp [Story.step, Fate.waiting?_eq_some.1 hdue, Fate.meet]
  · intro id hid
    obtain ⟨due, hdue⟩ := Option.isSome_iff_exists.1 ((h.waits.mem_ids id).1 hid)
    simp [Fate.waiting?_eq_some.1 hdue, Fate.told?]
  · intro id hid
    have hw : s.waits id = none := by simpa [h.waits.mem_ids] using hid
    exact Fate.meet_eq_of_not_waiting hw (by simp)

theorem settle (h : Agrees l s) (hahead : s.Ahead) :
    Agrees (l.step (.advance 0)) (s.step (.advance 0)) := by
  have hstep : l.step (.advance 0) = l.record (leave l.calls (overdue l.calls l.trace.now))
      (tellAll l.trace (overdue l.calls l.trace.now) (.error (.call .timedOut))) := by
    simp [Timeline.step, Timeline.record, Calls.pass, h.waits.settle_eq]
  rw [hstep]
  -- No deadline is in the past, so what is overdue is due right now.
  have hdue : ∀ id ∈ overdue l.calls l.trace.now, s.fate id = .waiting (some s.now) := by
    intro id hid
    obtain ⟨due, hle, hw⟩ := h.waits.mem_overdue.1 hid
    have hfate : s.fate id = .waiting (some due) := Fate.waiting?_eq_some.1 hw
    rw [h.now_eq] at hle
    rw [hfate, Nat.le_antisymm hle (hahead id due hfate)]
  refine h.tell (h.waits.nodup_overdue _) rfl ?_ ?_ ?_
  · intro id hid
    simp [Story.step, hdue id hid, Fate.meet]
  · intro id hid
    simp [hdue id hid, Fate.told?]
  · intro id hid
    refine Fate.meet_eq_of_not_due (.inl rfl) fun due hfate hle => hid ?_
    exact h.waits.mem_overdue.2 ⟨due, h.now_eq ▸ hle, Fate.waiting?_eq_some.2 hfate⟩

theorem tick (h : Agrees l s) : Agrees l.tick s.tick where
  now_eq := congrArg (· + 1) h.now_eq
  effects_eq := h.effects_eq
  waits := h.waits
  told := h.told

theorem advance (h : Agrees l s) (hahead : s.Ahead) (ms : Millis) :
    Agrees (l.step (.advance ms)) (s.step (.advance ms)) := by
  induction ms generalizing l s with
  | zero => exact h.settle hahead
  | succ ms ih =>
    rw [Timeline.step_advance_succ, Story.step_advance_succ]
    exact ih (h.settle hahead).tick s.ahead_tick

theorem wake (h : Agrees l s) (hahead : s.Ahead) (id : UInt64) :
    Agrees (l.step (.wake id)) (s.step (.wake id)) := by
  simp only [Timeline.step]
  split
  · next timer hfind =>
    obtain ⟨rfl, hle⟩ : timer.callId = id ∧ timer.due ≤ l.trace.now := by
      simpa using List.find?_some hfind
    have htimer : timer ∈ l.calls.timers := List.mem_of_find?_eq_some hfind
    have hfate : s.fate timer.callId = .waiting (some timer.due) :=
      Fate.waiting?_eq_some.1 (h.waits.waits_timer htimer)
    rw [h.now_eq] at hle
    have hdue : timer.due = s.now := Nat.le_antisymm hle (hahead timer.callId timer.due hfate)
    obtain ⟨call, hcall, hid, hfire⟩ := h.waits.fire_eq htimer
    simp only [hfire, Option.toList_some, List.foldl_cons, List.foldl_nil,
      h.waits.callback call hcall, hid]
    exact h.tellOne hfate rfl rfl (by simp [hfate, Fate.meet, hdue])
  · next hfind =>
    rwa [Story.step_eq_self rfl rfl]
    refine Fate.meet_eq_of_not_due (.inr rfl) fun due hfate => ?_
    obtain ⟨timer, htimer, rfl, rfl⟩ := h.waits.exists_timer (Fate.waiting?_eq_some.2 hfate)
    simpa [h.now_eq] using List.find?_eq_none.1 hfind timer htimer

theorem step (h : Agrees l s) (hahead : s.Ahead) {op : Op α} (hop : s.Allows op) :
    Agrees (l.step op) (s.step op) := by
  cases op with
  | insert id timeout => exact h.insert hop timeout
  | arm id after => exact h.arm hop after
  | resolve id outcome => exact h.resolve id outcome
  | cancel id => exact h.cancel id
  | failAll failure => exact h.failAll failure
  | advance ms => exact h.advance hahead ms
  | wake id => exact h.wake hahead id

theorem run (h : Agrees l s) (hahead : s.Ahead) {ops : List (Op α)} (hops : s.Lawful ops) :
    Agrees (l.run ops) (s.run ops) := by
  induction ops generalizing l s with
  | nil => exact h
  | cons op ops ih => exact ih (h.step hahead hops.1) (hahead.step op) hops.2

end Agrees

-- ---------------------------------------------------------------------------
-- Main statement
-- ---------------------------------------------------------------------------

/-- What the table shows, what it would answer, and what it told. -/
structure Follows (l : Timeline α) (s : Story α) : Prop where
  now_eq : l.trace.now = s.now
  contains_eq : ∀ id, l.calls.contains id = (s.waits id).isSome
  told_eq : ∀ id, Timeline.tellings id.toNat l.log = (s.fate id).told?.toList
  resolves : ∀ id outcome, (s.waits id).isSome → (l.calls.resolve l.trace id outcome).1 = true
  misses : ∀ id outcome, s.waits id = none →
    l.calls.resolve l.trace id outcome = (false, l.calls, l.trace)
  takes : ∀ id, (l.calls.take? id).map (·.1.callId) = (s.waits id).map fun _ => id
  fails : ∀ failure, (l.calls.failAll l.trace failure).1 = l.calls.size ∧
    (l.calls.failAll l.trace failure).2.1.isEmpty
  /-- A timer goes off in vain unless its call waits for it. -/
  fires : ∀ timer, s.waits timer.callId ≠ some (some timer.due) →
    l.calls.fire timer = (none, l.calls)

theorem Agrees.follows {l : Timeline α} {s : Story α} (h : Agrees l s) : Follows l s where
  now_eq := h.now_eq
  contains_eq := h.waits.contains_eq
  told_eq := h.told
  resolves id outcome hw := (h.waits.answer_resolve l.trace id outcome).trans hw
  misses id outcome hw := h.waits.resolve_none hw l.trace outcome
  takes id := by
    cases hw : s.waits id with
    | none => simp [h.waits.take?_none hw]
    | some due =>
      obtain ⟨call, hid, -, htake⟩ := h.waits.take?_some hw
      simp [htake, hid]
  fails failure := by
    have hall : ∀ call ∈ l.calls.pending, ∃ other ∈ l.calls.pending, other.callId = call.callId :=
      fun call hcall => ⟨call, hcall, rfl⟩
    simpa [h.waits.failAll_eq, leave, Calls.isEmpty] using hall
  fires timer hw := by
    have hout : timer ∉ l.calls.timers := fun htimer => hw (h.waits.waits_timer htimer)
    simp [Calls.fire, hout]

theorem agrees_start : Agrees (α := α) {} {} where
  now_eq := rfl
  effects_eq := rfl
  waits := .empty
  told _ := rfl

/-- Whatever is done to a table, and however the clock goes on, the table follows the story of its
calls. A call that was decided at some time is out of reach for all that comes later: outcomes for it
are turned down, it cannot be cancelled, and what it was told is what it was told then. A call that
was not, and is still in the table when its deadline comes, is told that its time is up just then. -/
theorem first_event_decides (ops more : List (Op α)) (h : Story.Lawful {} (ops ++ more)) :
    let s := Story.run {} ops
    let l := Timeline.run {} (ops ++ more)
    Follows l (Story.run {} (ops ++ more)) ∧
      (∀ id, (s.fate id).Decided →
        (∀ outcome, l.calls.resolve l.trace id outcome = (false, l.calls, l.trace)) ∧
        l.calls.take? id = none ∧ Timeline.tellings id.toNat l.log = (s.fate id).told?.toList) ∧
      ∀ id due ms rest, s.fate id = .waiting (some due) → due ≤ s.now + ms →
        more = .advance ms :: rest →
        Timeline.tellings id.toNat l.log = [(due, .error (.call .timedOut))] := by
  intro s l
  have hfollows := (agrees_start.run (fun _ _ h => nomatch h) h).follows
  have happend : Story.run {} (ops ++ more) = s.run more := List.foldl_append
  rw [happend] at hfollows ⊢
  refine ⟨hfollows, fun id hdecided => ?_, ?_⟩
  · have hsame : (s.run more).fate id = s.fate id := Story.run_decided hdecided more
    have hgone : (s.run more).waits id = none := by
      rw [Story.waits_apply, hsame, hdecided.waiting?_eq]
    refine ⟨fun outcome => hfollows.misses id outcome hgone, ?_, ?_⟩
    · simpa [hgone] using hfollows.takes id
    · rw [hfollows.told_eq, hsame]
  · rintro id due ms rest hfate hle rfl
    rw [hfollows.told_eq, Story.run_expired hfate hle]
    rfl

/-- Deadlines that are equal, zero, overtaken and never reached. -/
def opening : List (Op Empty) :=
  [.insert 1 (some 10), .insert 2 (some 10), .insert 3 (some 0), .insert 4 none,
    .insert 5 (some 20), .arm 1 10, .arm 2 10, .arm 3 0, .arm 5 20, .wake 3, .advance 9,
    .resolve 1 (.ok (.ofValues [])), .advance 1]

def sequel : List (Op Empty) :=
  [.resolve 2 (.ok (.ofValues [])), .cancel 4, .arm 1 5, .failAll .closed, .arm 6 0, .advance 30]

theorem first_event_decides_opening :
    Story.Lawful {} (opening ++ sequel) ∧
    let l := Timeline.run {} (opening ++ sequel)
    Timeline.tellings 1 l.log = [(9, .ok (.ofValues []))] ∧
    Timeline.tellings 2 l.log = [(10, .error (.call .timedOut))] ∧
    Timeline.tellings 3 l.log = [(0, .error (.call .timedOut))] ∧
    Timeline.tellings 4 l.log = [] ∧
    Timeline.tellings 5 l.log = [(10, .error .closed)] ∧
    (∀ outcome, l.calls.resolve l.trace 2 outcome = (false, l.calls, l.trace)) ∧
    l.calls.contains 4 = false := by
  have hlawful : Story.Lawful {} (opening ++ sequel) :=
    ⟨rfl, rfl, rfl, rfl, rfl, rfl, rfl, rfl, rfl, trivial, trivial, trivial, trivial, trivial,
      trivial, rfl, trivial, rfl, trivial, trivial⟩
  obtain ⟨hfollows, hlate, -⟩ := first_event_decides opening sequel hlawful
  exact ⟨hlawful, (hfollows.told_eq 1).trans rfl, (hlate 2 trivial).2.2.trans rfl,
    (hfollows.told_eq 3).trans rfl, (hfollows.told_eq 4).trans rfl, (hfollows.told_eq 5).trans rfl,
    (hlate 2 trivial).1, (hfollows.contains_eq 4).trans rfl⟩

end GraphRpc.Race
