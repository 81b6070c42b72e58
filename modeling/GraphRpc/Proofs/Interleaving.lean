import Mathlib

/-!
# One among many

A step of one of several parties that share a state changes the list of the parties at one place.
-/

namespace GraphRpc

variable {β : Type} {l : List β} {i : Nat} {b : β}

theorem exists_split (h : l[i]? = some b) :
    ∃ pre post, l = pre ++ b :: post ∧ ∀ c, l.set i c = pre ++ c :: post := by
  obtain ⟨hi, rfl⟩ := List.getElem?_eq_some_iff.1 h
  refine ⟨l.take i, l.drop (i + 1), ?_, fun c => ?_⟩
  · rw [List.getElem_cons_drop, List.take_append_drop]
  · rw [List.set_eq_take_append_cons_drop, if_pos hi]

theorem exists_perm (h : l[i]? = some b) :
    ∃ others, l.Perm (b :: others) ∧ ∀ c, (l.set i c).Perm (c :: others) := by
  obtain ⟨pre, post, hl, hset⟩ := exists_split h
  refine ⟨pre ++ post, hl ▸ List.perm_middle, fun c => ?_⟩
  rw [hset]
  exact List.perm_middle

end GraphRpc
