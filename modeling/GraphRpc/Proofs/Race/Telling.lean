import Mathlib
import GraphRpc.Proofs.Race.Table

/-!
# Calls that are told

Whether an outcome comes in, all calls fail or deadlines pass, some calls leave the table and each
of them is told the same, once.
-/

namespace GraphRpc.Race

variable {α : Type} {calls : Calls} {w : Waits} {id : UInt64}

open Calls Timeline

-- ---------------------------------------------------------------------------
-- Telling
-- ---------------------------------------------------------------------------

def tellAll (t : Trace α) (ids : List UInt64) (outcome : Except Failure (Payload α)) : Trace α :=
  ids.foldl (fun t id => t.finish (callbackOf id) outcome) t

section
variable (t : Trace α) (ids : List UInt64) (outcome : Except Failure (Payload α))

@[simp] theorem now_tellAll : (tellAll t ids outcome).now = t.now := by
  induction ids generalizing t with
  | nil => rfl
  | cons id ids ih => exact ih _

theorem effects_tellAll :
    (tellAll t ids outcome).effects =
      t.effects ++ ids.map fun id => .resolved (callbackOf id) outcome := by
  induction ids generalizing t with
  | nil => exact (List.append_nil _).symm
  | cons id ids ih =>
    refine (ih _).trans ?_
    simp [Trace.finish, Trace.emit, Trace.count]

theorem tellAll_tellAll (more : List UInt64) :
    tellAll (tellAll t ids outcome) more outcome = tellAll t (ids ++ more) outcome :=
  List.foldl_append.symm

end

theorem callbackOf_number {id other : UInt64} : (callbackOf id).number = other.toNat ↔ id = other :=
  UInt64.toNat_inj

theorem tellings_tellAll {t : Trace α} (ht : t.effects = []) {ids : List UInt64} (hn : ids.Nodup)
    (outcome : Except Failure (Payload α)) (id : UInt64) :
    tellings id.toNat ((tellAll t ids outcome).effects.map (t.now, ·)) =
      if id ∈ ids then [(t.now, outcome)] else [] := by
  rw [effects_tellAll, ht, List.nil_append]
  induction ids with
  | nil => rfl
  | cons first ids ih =>
    rw [List.nodup_cons] at hn
    simp only [List.map_cons, tellings_cons, callbackOf_number, ih hn.2]
    by_cases hid : first = id
    · subst hid
      simp [hn.1]
    · simp [hid, Ne.symm hid]

-- ---------------------------------------------------------------------------
-- An outcome, and a failure of all
-- ---------------------------------------------------------------------------

namespace Matches

theorem take?_none (h : Matches calls w) (hw : w id = none) : calls.take? id = none := by
  simp [Calls.take?_eq, Calls.find?_eq_none.2 (h.lacks hw)]

theorem take?_some (h : Matches calls w) {due : Option Millis} (hw : w id = some due) :
    ∃ call, call.callId = id ∧ call.callback = callbackOf id ∧
      calls.take? id = some (call, Race.leave calls [id]) := by
  obtain ⟨call, hcall, rfl⟩ := h.entered id due hw
  exact ⟨call, rfl, h.callback call hcall, h.take?_eq hcall⟩

theorem resolve_none (h : Matches calls w) (hw : w id = none) (t : Trace α)
    (outcome : Except Failure (Payload α)) : calls.resolve t id outcome = (false, calls, t) := by
  simp [Calls.resolve, h.take?_none hw]

theorem resolve_some (h : Matches calls w) {due : Option Millis} (hw : w id = some due) (t : Trace α)
    (outcome : Except Failure (Payload α)) :
    calls.resolve t id outcome = (true, Race.leave calls [id], tellAll t [id] outcome) := by
  obtain ⟨call, -, hcallback, htake⟩ := h.take?_some hw
  simp [Calls.resolve, htake, hcallback, tellAll]

theorem answer_resolve (h : Matches calls w) (t : Trace α) (id : UInt64)
    (outcome : Except Failure (Payload α)) : (calls.resolve t id outcome).1 = (w id).isSome := by
  cases hw : w id with
  | none => simp [h.resolve_none hw]
  | some due => simp [h.resolve_some hw]

theorem failEach_eq (h : Matches calls w) {ids : List UInt64} (hn : ids.Nodup)
    (hw : ∀ id ∈ ids, (w id).isSome) (t : Trace α) (failure : Failure) :
    failEach failure ids calls t =
      (ids.length, Race.leave calls ids, tellAll t ids (.error failure)) := by
  induction ids generalizing calls w t with
  | nil => simp [failEach, leave_nil, tellAll]
  | cons id ids ih =>
    rw [List.nodup_cons] at hn
    obtain ⟨due, hdue⟩ := Option.isSome_iff_exists.1 (hw id (List.mem_cons_self ..))
    -- The ids that follow are other ones, so their calls still wait.
    have hrest : ∀ other ∈ ids, (w.without [id] other).isSome := by
      intro other hother
      have hne : other ≠ id := ne_of_mem_of_not_mem hother hn.1
      simpa [Waits.without, hne] using hw other (List.mem_cons_of_mem _ hother)
    have hmore := ih (h.leave [id]) hn.2 hrest (tellAll t [id] (.error failure))
    simp only [failEach, h.resolve_some hdue, hmore, leave_leave, tellAll_tellAll]
    rfl

theorem failAll_eq (h : Matches calls w) (t : Trace α) (failure : Failure) :
    calls.failAll t failure = (calls.size, Race.leave calls (calls.pending.map (·.callId)),
      tellAll t (calls.pending.map (·.callId)) (.error failure)) := by
  have hw : ∀ id ∈ calls.pending.map (·.callId), (w id).isSome := by
    intro id hid
    obtain ⟨call, hcall, rfl⟩ := List.mem_map.1 hid
    obtain ⟨due, hdue, -⟩ := h.waiting call hcall
    simp [hdue]
  rw [Calls.failAll, h.failEach_eq h.ids hw, List.length_map, size]

theorem mem_ids (h : Matches calls w) (id : UInt64) :
    id ∈ calls.pending.map (·.callId) ↔ (w id).isSome := by
  rw [← h.contains_eq]
  simp [Calls.contains]

-- ---------------------------------------------------------------------------
-- Deadlines
-- ---------------------------------------------------------------------------

theorem fireEach_eq (h : Matches calls w) {timers : List Timer} (hn : timers.Nodup)
    (hsub : timers ⊆ calls.timers) :
    ∃ claimed, calls.fireEach timers = (claimed, Race.leave calls (timers.map (·.callId))) ∧
      claimed.map (·.callback) = timers.map fun timer => callbackOf timer.callId := by
  induction timers generalizing calls w with
  | nil => exact ⟨[], by simp [fireEach, leave_nil], rfl⟩
  | cons timer timers ih =>
    rw [List.nodup_cons] at hn
    have htimer : timer ∈ calls.timers := hsub (List.mem_cons_self ..)
    -- A call has one timer, so the timers that follow are of other calls and still run.
    have hrest : timers ⊆ (Race.leave calls [timer.callId]).timers := by
      intro other hother
      have hin : other ∈ calls.timers := hsub (List.mem_cons_of_mem _ hother)
      have hne : other.callId ≠ timer.callId := fun hid =>
        hn.1 (h.eq_of_callIds hin htimer hid ▸ hother)
      simp [Race.leave, hin, hne]
    obtain ⟨call, hcall, hid, hfire⟩ := h.fire_eq htimer
    obtain ⟨claimed, heach, hclaimed⟩ := ih (h.leave [timer.callId]) hn.2 hrest
    refine ⟨call :: claimed, ?_, ?_⟩
    · simp only [fireEach, hfire, heach, leave_leave]
      rfl
    · simp [hclaimed, h.callback call hcall, hid]

end Matches

def overdue (calls : Calls) (now : Millis) : List UInt64 :=
  (calls.timers.filter (·.due ≤ now)).map (·.callId)

namespace Matches

theorem nodup_overdue (h : Matches calls w) (now : Millis) : (overdue calls now).Nodup := by
  refine List.Nodup.map_on ?_ (h.timers.of_map.filter _)
  intro timer htimer other hother
  exact h.eq_of_callIds (List.mem_of_mem_filter htimer) (List.mem_of_mem_filter hother)

theorem mem_overdue (h : Matches calls w) {now : Millis} :
    id ∈ overdue calls now ↔ ∃ due ≤ now, w id = some (some due) := by
  constructor
  · intro hid
    obtain ⟨timer, htimer, rfl⟩ := List.mem_map.1 hid
    obtain ⟨hin, hdue⟩ := List.mem_filter.1 htimer
    exact ⟨timer.due, of_decide_eq_true hdue, h.waits_timer hin⟩
  · rintro ⟨due, hdue, hw⟩
    obtain ⟨timer, htimer, rfl, rfl⟩ := h.exists_timer hw
    exact List.mem_map_of_mem (List.mem_filter.2 ⟨htimer, decide_eq_true hdue⟩)

theorem settle_eq (h : Matches calls w) (t : Trace α) :
    calls.settle t = (Race.leave calls (overdue calls t.now),
      tellAll t (overdue calls t.now) (.error (.call .timedOut))) := by
  obtain ⟨claimed, heach, hclaimed⟩ :=
    h.fireEach_eq (h.timers.of_map.filter fun timer => decide (timer.due ≤ t.now))
      (List.filter_subset_self _)
  have htold : claimed.foldl (fun t call => deliverTimeout t call.callback) t =
      tellAll t (overdue calls t.now) (.error (.call .timedOut)) := by
    calc
      claimed.foldl (fun t call => deliverTimeout t call.callback) t =
          (claimed.map (·.callback)).foldl deliverTimeout t := List.foldl_map.symm
      _ = tellAll t (overdue calls t.now) (.error (.call .timedOut)) := by
        rw [hclaimed, tellAll, overdue, List.foldl_map, List.foldl_map]
        rfl
  simp only [settle, expire, heach, htold]
  rfl

end Matches
end GraphRpc.Race
