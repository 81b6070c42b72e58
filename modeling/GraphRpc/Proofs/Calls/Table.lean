import Mathlib
import GraphRpc.Connection

/-!
# The table of pending calls

What entering a call, taking one out and letting a timer go off do to the ids and the callbacks in
the table. Timers are left aside.
-/

namespace GraphRpc
namespace Calls

variable {calls rest : Calls} {id : UInt64}

/-- The ids in the table and the callbacks that wait under them. -/
def entries (calls : Calls) : List (UInt64 × Callback) :=
  calls.pending.map fun call => (call.callId, call.callback)

def Distinct (calls : Calls) : Prop := (calls.entries.map Prod.fst).Nodup

def without (calls : Calls) (id : UInt64) : List (UInt64 × Callback) :=
  calls.entries.filter (·.1 != id)

theorem entries_remove :
    entries { calls with pending := calls.pending.filter (·.callId != id) } = calls.without id := by
  simp only [entries, without, List.filter_map]
  rfl

theorem mem_of_mem_without {x : UInt64 × Callback} (h : x ∈ calls.without id) :
    x ∈ calls.entries ∧ x.1 ≠ id :=
  ⟨(List.mem_filter.1 h).1, by simpa using (List.mem_filter.1 h).2⟩

theorem mem_without_or {x : UInt64 × Callback} (id : UInt64) (h : x ∈ calls.entries) :
    x ∈ calls.without id ∨ x.1 = id := by
  by_cases hx : x.1 = id
  · exact .inr hx
  · exact .inl (List.mem_filter.2 ⟨h, by simpa using hx⟩)

theorem contains_iff : calls.contains id ↔ ∃ x ∈ calls.entries, x.1 = id := by
  simp [contains, entries]

-- ---------------------------------------------------------------------------
-- Entering
-- ---------------------------------------------------------------------------

theorem entries_insert {call : PendingCall} :
    (calls.insert call).entries = calls.without call.callId ++ [(call.callId, call.callback)] := by
  simp only [insert, entries, List.map_append, List.map_cons, List.map_nil]
  rw [← entries_remove]
  rfl

theorem Distinct.eq_of_mem {x y : UInt64 × Callback} (h : calls.Distinct) (hx : x ∈ calls.entries)
    (hy : y ∈ calls.entries) (hid : x.1 = y.1) : x = y :=
  List.inj_on_of_nodup_map h hx hy hid

theorem Distinct.without (h : calls.Distinct) : ((calls.without id).map Prod.fst).Nodup :=
  List.Nodup.sublist (List.filter_sublist.map _) h

theorem Distinct.insert {call : PendingCall} (h : calls.Distinct) :
    (calls.insert call).Distinct := by
  have hnew : call.callId ∉ (calls.without call.callId).map Prod.fst := by
    rintro hmem
    obtain ⟨x, hx, hid⟩ := List.mem_map.1 hmem
    exact (mem_of_mem_without hx).2 hid
  rw [Distinct, entries_insert, List.map_append, List.map_singleton, ← List.concat_eq_append]
  exact .concat hnew h.without

-- ---------------------------------------------------------------------------
-- Taking out
-- ---------------------------------------------------------------------------

/-- `rest` is what `calls` is once `call`, which was there under `id`, is taken out. -/
structure Taken (calls : Calls) (id : UInt64) (call : PendingCall) (rest : Calls) : Prop where
  mem : (id, call.callback) ∈ calls.entries
  entries_eq : rest.entries = calls.without id

theorem claim?_some (h : calls.claim? id = some (call, rest)) : calls.Taken id call rest := by
  simp only [claim?, Option.map_eq_some_iff, Prod.mk.injEq] at h
  obtain ⟨found, hfind, rfl, rfl⟩ := h
  have hid : found.callId = id := by simpa using List.find?_some hfind
  refine ⟨List.mem_map.2 ⟨found, List.mem_of_find?_eq_some hfind, by rw [hid]⟩, ?_⟩
  exact entries_remove

theorem claim?_none (h : calls.claim? id = none) : ∀ x ∈ calls.entries, x.1 ≠ id := by
  simp only [claim?, Option.map_eq_none_iff, find?, List.find?_eq_none] at h
  intro x hx
  obtain ⟨call, hcall, rfl⟩ := List.mem_map.1 hx
  simpa using h call hcall

theorem take?_some (h : calls.take? id = some (call, rest)) : calls.Taken id call rest := by
  simp only [take?, Option.map_eq_some_iff, Prod.mk.injEq, Prod.exists] at h
  obtain ⟨found, left, hclaim, rfl, rfl⟩ := h
  exact ⟨(claim?_some hclaim).mem, (claim?_some hclaim).entries_eq⟩

theorem take?_none (h : calls.take? id = none) : ∀ x ∈ calls.entries, x.1 ≠ id := by
  simp only [take?, Option.map_eq_none_iff] at h
  exact claim?_none h

namespace Taken

variable {call : PendingCall}

theorem distinct (h : calls.Taken id call rest) (hd : calls.Distinct) : rest.Distinct := by
  rw [Distinct, h.entries_eq]
  exact hd.without

/-- Whoever takes a call out has its callback, and it is no longer in the table. -/
theorem count_le (h : calls.Taken id call rest) (n : Nat) :
    [call.callback.number].count n + (rest.entries.map (·.2.number)).count n ≤
      (calls.entries.map (·.2.number)).count n := by
  have hmem : (id, call.callback) ∈ calls.entries.filter (·.1 == id) :=
    List.mem_filter.2 ⟨h.mem, by simp⟩
  have hsub : [call.callback.number].Sublist
      ((calls.entries.filter (·.1 == id)).map (·.2.number)) :=
    List.singleton_sublist.2 (List.mem_map.2 ⟨_, hmem, rfl⟩)
  have hperm := (List.filter_append_perm (fun x => x.1 == id) calls.entries).map (·.2.number)
  rw [List.map_append] at hperm
  rw [← hperm.count_eq, List.count_append, h.entries_eq]
  exact Nat.add_le_add_right (hsub.count_le n) _

theorem kept {x : UInt64 × Callback} (h : calls.Taken id call rest) (hd : calls.Distinct)
    (hx : x ∈ calls.entries) : x ∈ rest.entries ∨ x = (id, call.callback) := by
  rcases mem_without_or id hx with hleft | hid
  · exact .inl (h.entries_eq ▸ hleft)
  · exact .inr (hd.eq_of_mem hx h.mem hid)

theorem mem_of_mem {x : UInt64 × Callback} (h : calls.Taken id call rest)
    (hx : x ∈ rest.entries) : x ∈ calls.entries ∧ x.1 ≠ id := by
  rw [h.entries_eq] at hx
  exact mem_of_mem_without hx

end Taken

-- ---------------------------------------------------------------------------
-- Timers
-- ---------------------------------------------------------------------------

@[simp] theorem entries_arm {due : Millis} : (calls.arm id due).2.entries = calls.entries := by
  unfold arm
  split
  · simp only [entries, List.map_map]
    refine List.map_congr_left fun call _ => ?_
    simp only [Function.comp_apply]
    split <;> rfl
  · rfl

theorem fire_some {timer : Timer} (h : calls.fire timer = (some call, rest)) :
    calls.Taken timer.callId call rest := by
  unfold fire at h
  split at h
  · dsimp only at h
    split at h
    · next hclaim =>
      cases h
      exact ⟨(claim?_some hclaim).mem, (claim?_some hclaim).entries_eq⟩
    · cases h
  · cases h

theorem fire_none {timer : Timer} (h : calls.fire timer = (none, rest)) :
    rest.entries = calls.entries := by
  unfold fire at h
  split at h
  · dsimp only at h
    split at h
    · cases h
    · cases h
      rfl
  · cases h
    rfl

end Calls
end GraphRpc
