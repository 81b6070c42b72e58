import Mathlib
import GraphRpc.Proofs.Outbound.Sending
import GraphRpc.Proofs.Race.Fate

/-!
# Calls and their timers

A call that has a deadline has one timer, and a timer has its call. So a call that leaves the table
leaves together with all that runs for it, whether it is taken out by its id or by its timer, and
several calls that leave one after another are simply gone.
-/

namespace GraphRpc.Race

variable {α : Type} {calls : Calls}

/-- Which calls wait, and until when. -/
abbrev Waits := UInt64 → Option (Option Millis)

def Waits.without (w : Waits) (ids : List UInt64) : Waits :=
  fun id => if id ∈ ids then none else w id

theorem Waits.without_singleton (w : Waits) (id : UInt64) :
    w.without [id] = Function.update w id none := by
  funext other
  by_cases hid : other = id <;> simp [without, hid]

variable {w : Waits} {id : UInt64}

/-- The timer of a call that has a deadline is running. -/
def Runs (timers : List Timer) (call : PendingCall) : Option Millis → Prop
  | none => call.timer = none
  | some due => ∃ n, call.timer = some n ∧ ⟨n, call.callId, due⟩ ∈ timers

theorem Runs.mono {timers more : List Timer} {call : PendingCall} {due : Option Millis}
    (h : Runs timers call due) (hsub : timers ⊆ more) : Runs more call due := by
  cases due with
  | none => exact h
  | some due =>
    obtain ⟨n, hn, hmem⟩ := h
    exact ⟨n, hn, hsub hmem⟩

/-- The table holds the calls that wait, each with the timer of its deadline, and no other timers. -/
structure Matches (calls : Calls) (w : Waits) : Prop where
  ids : (calls.pending.map (·.callId)).Nodup
  timers : (calls.timers.map (·.id)).Nodup
  fresh : ∀ timer ∈ calls.timers, timer.id < calls.nextTimer
  callback : ∀ call ∈ calls.pending, call.callback = callbackOf call.callId
  waiting : ∀ call ∈ calls.pending, ∃ due, w call.callId = some due ∧ Runs calls.timers call due
  entered : ∀ id due, w id = some due → ∃ call ∈ calls.pending, call.callId = id
  running : ∀ timer ∈ calls.timers, ∃ call ∈ calls.pending,
    call.callId = timer.callId ∧ call.timer = some timer.id

namespace Matches

theorem empty : Matches {} fun _ => none where
  ids := List.nodup_nil
  timers := List.nodup_nil
  fresh _ h := nomatch h
  callback _ h := nomatch h
  waiting _ h := nomatch h
  entered _ _ h := nomatch h
  running _ h := nomatch h

theorem eq_of_callId (h : Matches calls w) {call other : PendingCall} (hcall : call ∈ calls.pending)
    (hother : other ∈ calls.pending) (hid : call.callId = other.callId) : call = other :=
  List.inj_on_of_nodup_map h.ids hcall hother hid

theorem eq_of_timer (h : Matches calls w) {timer other : Timer} (htimer : timer ∈ calls.timers)
    (hother : other ∈ calls.timers) (hid : timer.id = other.id) : timer = other :=
  List.inj_on_of_nodup_map h.timers htimer hother hid

theorem lacks (h : Matches calls w) (hw : w id = none) : calls.Lacks id := by
  rintro call hcall rfl
  obtain ⟨due, hdue, -⟩ := h.waiting call hcall
  simp [hw] at hdue

theorem find?_eq (h : Matches calls w) {call : PendingCall} (hcall : call ∈ calls.pending) :
    calls.find? call.callId = some call := by
  cases hfind : calls.find? call.callId with
  | none => exact absurd rfl (Calls.find?_eq_none.1 hfind call hcall)
  | some found =>
    have hid : found.callId = call.callId := by simpa using List.find?_some hfind
    rw [h.eq_of_callId (List.mem_of_find?_eq_some hfind) hcall hid]

theorem contains_eq (h : Matches calls w) (id : UInt64) : calls.contains id = (w id).isSome := by
  rw [Bool.eq_iff_iff]
  constructor
  · intro hin
    obtain ⟨call, hcall, rfl⟩ : ∃ call ∈ calls.pending, call.callId = id := by
      simpa [Calls.contains] using hin
    obtain ⟨due, hdue, -⟩ := h.waiting call hcall
    simp [hdue]
  · intro hw
    obtain ⟨due, hdue⟩ := Option.isSome_iff_exists.1 hw
    simpa [Calls.contains] using h.entered id due hdue

theorem waits_timer (h : Matches calls w) {timer : Timer} (htimer : timer ∈ calls.timers) :
    w timer.callId = some (some timer.due) := by
  obtain ⟨call, hcall, hid, hown⟩ := h.running timer htimer
  obtain ⟨due, hdue, hruns⟩ := h.waiting call hcall
  rw [← hid, hdue]
  cases due with
  | none => simp [Runs, hown] at hruns
  | some due =>
    obtain ⟨n, hn, hmem⟩ := hruns
    have hsame : timer.id = n := by simpa [hown] using hn
    rw [h.eq_of_timer htimer hmem hsame]

theorem exists_timer (h : Matches calls w) {due : Millis} (hw : w id = some (some due)) :
    ∃ timer ∈ calls.timers, timer.callId = id ∧ timer.due = due := by
  obtain ⟨call, hcall, rfl⟩ := h.entered id _ hw
  obtain ⟨due', hdue, hruns⟩ := h.waiting call hcall
  obtain rfl : some due = due' := by simpa [hw] using hdue
  obtain ⟨n, -, hmem⟩ := hruns
  exact ⟨_, hmem, rfl, rfl⟩

theorem eq_of_callIds (h : Matches calls w) {timer other : Timer} (htimer : timer ∈ calls.timers)
    (hother : other ∈ calls.timers) (hid : timer.callId = other.callId) : timer = other := by
  obtain ⟨call, hcall, hcallId, hown⟩ := h.running timer htimer
  obtain ⟨call', hcall', hcallId', hown'⟩ := h.running other hother
  obtain rfl : call = call' := h.eq_of_callId hcall hcall' (by rw [hcallId, hcallId', hid])
  exact h.eq_of_timer htimer hother (by simpa [hown] using hown')

end Matches

-- ---------------------------------------------------------------------------
-- Leaving
-- ---------------------------------------------------------------------------

/-- The table once the calls with these ids have left, and their timers with them. -/
def leave (calls : Calls) (ids : List UInt64) : Calls :=
  { calls with
    pending := calls.pending.filter fun call => call.callId ∉ ids
    timers := calls.timers.filter fun timer => timer.callId ∉ ids }

theorem leave_nil (calls : Calls) : leave calls [] = calls := by
  simp [leave]

theorem leave_leave (calls : Calls) (ids more : List UInt64) :
    leave (leave calls ids) more = leave calls (ids ++ more) := by
  simp [leave, List.filter_filter, Bool.and_comm]

theorem leave_singleton (calls : Calls) (id : UInt64) :
    leave calls [id] = { calls with
      pending := calls.pending.filter (·.callId != id)
      timers := calls.timers.filter (·.callId != id) } := by
  simp [leave, bne, BEq.beq]

theorem Matches.leave (h : Matches calls w) (ids : List UInt64) :
    Matches (leave calls ids) (w.without ids) where
  ids := h.ids.sublist (List.filter_sublist.map _)
  timers := h.timers.sublist (List.filter_sublist.map _)
  fresh timer htimer := h.fresh timer (List.mem_of_mem_filter htimer)
  callback call hcall := h.callback call (List.mem_of_mem_filter hcall)
  waiting call hcall := by
    obtain ⟨hcall, hleft⟩ : call ∈ calls.pending ∧ call.callId ∉ ids := by
      simpa [Race.leave] using hcall
    obtain ⟨due, hdue, hruns⟩ := h.waiting call hcall
    refine ⟨due, by simpa [Waits.without, hleft] using hdue, ?_⟩
    cases due with
    | none => exact hruns
    | some due =>
      obtain ⟨n, hn, hmem⟩ := hruns
      exact ⟨n, hn, by simp [Race.leave, hmem, hleft]⟩
  entered id due hw := by
    have hleft : id ∉ ids := by
      intro hin
      simp [Waits.without, hin] at hw
    obtain ⟨call, hcall, rfl⟩ := h.entered id due (by simpa [Waits.without, hleft] using hw)
    exact ⟨call, by simp [Race.leave, hcall, hleft], rfl⟩
  running timer htimer := by
    obtain ⟨htimer, hleft⟩ : timer ∈ calls.timers ∧ timer.callId ∉ ids := by
      simpa [Race.leave] using htimer
    obtain ⟨call, hcall, hid, hown⟩ := h.running timer htimer
    exact ⟨call, by simp [Race.leave, hcall, hid, hleft], hid, hown⟩

namespace Matches

theorem take?_eq (h : Matches calls w) {call : PendingCall} (hcall : call ∈ calls.pending) :
    calls.take? call.callId = some (call, Race.leave calls [call.callId]) := by
  -- The timer that a call names is the one that names the call.
  have hown : ∀ timer ∈ calls.timers, some timer.id = call.timer ↔ timer.callId = call.callId := by
    intro timer htimer
    obtain ⟨other, hother, hid, hown⟩ := h.running timer htimer
    constructor
    · intro hsame
      obtain ⟨due, -, hruns⟩ := h.waiting call hcall
      cases due with
      | none => simp [Runs, ← hsame] at hruns
      | some due =>
        obtain ⟨n, hn, hmem⟩ := hruns
        have heq : timer.id = n := by simpa [← hsame] using hn
        rw [h.eq_of_timer htimer hmem heq]
    · intro hsame
      rw [← hown, h.eq_of_callId hother hcall (hid.trans hsame)]
  have htimers : calls.timers.filter (fun timer => some timer.id != call.timer) =
      calls.timers.filter (·.callId != call.callId) := by
    refine List.filter_congr fun timer htimer => ?_
    rw [Bool.eq_iff_iff]
    simpa using not_congr (hown timer htimer)
  rw [Calls.take?_eq, h.find?_eq hcall, leave_singleton, ← htimers]
  rfl

theorem fire_eq (h : Matches calls w) {timer : Timer} (htimer : timer ∈ calls.timers) :
    ∃ call ∈ calls.pending, call.callId = timer.callId ∧
      calls.fire timer = (some call, Race.leave calls [timer.callId]) := by
  obtain ⟨call, hcall, hid, -⟩ := h.running timer htimer
  refine ⟨call, hcall, hid, ?_⟩
  have hrunning : calls.timers.contains timer = true := by simpa using htimer
  have htimers : calls.timers.erase timer = calls.timers.filter (·.callId != timer.callId) := by
    rw [h.timers.of_map.erase_eq_filter]
    refine List.filter_congr fun other hother => ?_
    have hiff : other = timer ↔ other.callId = timer.callId :=
      ⟨fun heq => heq ▸ rfl, h.eq_of_callIds hother htimer⟩
    rw [Bool.eq_iff_iff]
    simpa using not_congr hiff
  have hclaim : Calls.claim? { calls with timers := calls.timers.erase timer } timer.callId =
      some (call, Race.leave calls [timer.callId]) := by
    rw [Calls.claim?, leave_singleton, ← htimers, ← hid]
    exact congrArg (Option.map _) (h.find?_eq hcall)
  simp only [Calls.fire, hrunning, if_true, hclaim]

-- ---------------------------------------------------------------------------
-- Entering
-- ---------------------------------------------------------------------------

theorem insert (h : Matches calls w) (hw : w id = none) (deadline : Option Millis) :
    Matches (calls.insert ⟨id, callbackOf id, deadline, none⟩) (Function.update w id (some none)) := by
  have hlacks : calls.Lacks id := h.lacks hw
  rw [hlacks.insert_eq]
  constructor
  case ids =>
    have hnew : id ∉ calls.pending.map (·.callId) := by simpa [Calls.Lacks] using hlacks
    simpa [Calls.append] using List.Nodup.concat hnew h.ids
  case timers => exact h.timers
  case fresh => exact h.fresh
  case callback =>
    intro call hcall
    rcases List.mem_append.1 hcall with hcall | hcall
    · exact h.callback call hcall
    · rw [List.mem_singleton.1 hcall]
  case waiting =>
    intro call hcall
    rcases List.mem_append.1 hcall with hcall | hcall
    · obtain ⟨due, hdue, hruns⟩ := h.waiting call hcall
      exact ⟨due, by simp [hlacks call hcall, hdue], hruns⟩
    · rw [List.mem_singleton.1 hcall]
      exact ⟨none, by simp, rfl⟩
  case entered =>
    intro other due hdue
    by_cases hid : other = id
    · exact ⟨_, List.mem_append_right _ (List.mem_singleton_self _), hid.symm⟩
    · obtain ⟨call, hcall, heq⟩ := h.entered other due (by simpa [hid] using hdue)
      exact ⟨call, List.mem_append_left _ hcall, heq⟩
  case running =>
    intro timer htimer
    obtain ⟨call, hcall, heq⟩ := h.running timer htimer
    exact ⟨call, List.mem_append_left _ hcall, heq⟩

theorem arm (h : Matches calls w) (hw : w id = some none) (due : Millis) :
    Matches (calls.arm id due).2 (Function.update w id (some (some due))) := by
  have hin : calls.contains id := by simp [h.contains_eq, hw]
  simp only [Calls.arm, hin, if_true]
  constructor
  case ids =>
    have hids : (calls.pending.map fun call =>
        if call.callId == id then { call with timer := some calls.nextTimer } else call).map
          (·.callId) = calls.pending.map (·.callId) := by
      rw [List.map_map]
      refine List.map_congr_left fun call _ => ?_
      by_cases hid : call.callId = id <;> simp [hid]
    rw [hids]
    exact h.ids
  case timers =>
    have hnew : calls.nextTimer ∉ calls.timers.map (·.id) := by
      intro hmem
      obtain ⟨timer, htimer, heq⟩ := List.mem_map.1 hmem
      exact (h.fresh timer htimer).ne heq
    simpa using List.Nodup.concat hnew h.timers
  case fresh =>
    intro timer htimer
    rcases List.mem_append.1 htimer with htimer | htimer
    · exact (h.fresh timer htimer).trans (Nat.lt_succ_self _)
    · rw [List.mem_singleton.1 htimer]
      exact Nat.lt_succ_self _
  case callback =>
    intro call hcall
    obtain ⟨before, hbefore, rfl⟩ := List.mem_map.1 hcall
    have hcallback := h.callback before hbefore
    by_cases hid : before.callId = id <;> simpa [hid] using hcallback
  case waiting =>
    intro call hcall
    obtain ⟨before, hbefore, rfl⟩ := List.mem_map.1 hcall
    by_cases hid : before.callId = id
    · exact ⟨some due, by simp [hid], _, by simp [hid]; rfl, by simp [hid]⟩
    · obtain ⟨due', hdue, hruns⟩ := h.waiting before hbefore
      refine ⟨due', by simp [hid, hdue], ?_⟩
      simpa [hid] using hruns.mono (List.subset_append_left _ _)
  case entered =>
    intro other due' hdue
    obtain ⟨before, hbefore, hcallId⟩ : ∃ call ∈ calls.pending, call.callId = other := by
      by_cases hid : other = id
      · exact h.entered other none (hid ▸ hw)
      · exact h.entered other due' (by simpa [hid] using hdue)
    refine ⟨_, List.mem_map_of_mem hbefore, ?_⟩
    by_cases hid : before.callId = id <;> simp [hid, ← hcallId]
  case running =>
    intro timer htimer
    rcases List.mem_append.1 htimer with htimer | htimer
    · obtain ⟨before, hbefore, hcallId, hown⟩ := h.running timer htimer
      -- The call with `id` has no timer yet.
      have hid : timer.callId ≠ id := by
        intro hid
        have hdue := h.waits_timer htimer
        simp [hid, hw] at hdue
      refine ⟨_, List.mem_map_of_mem hbefore, ?_⟩
      simp [hcallId, hid, hown]
    · obtain ⟨before, hbefore, hcallId⟩ := h.entered id none hw
      refine ⟨_, List.mem_map_of_mem hbefore, ?_⟩
      simp [List.mem_singleton.1 htimer, hcallId]

end Matches
end GraphRpc.Race
