import Mathlib
import GraphRpc.Heap

/-!
# Heaps that grow

Slots are added at the end of a heap, and an object that is filled step by step is replaced in place.
The two do not get in each other's way.
-/

namespace GraphRpc
namespace Handle

theorem slot_lt (h : Handle) : h.slot < 256 ^ 4 := h.index.toNat_lt

theorem slot_ofSlot (hn : n < 256 ^ 4) : (ofSlot n).slot = n := UInt32.toNat_ofNat_of_lt' hn

@[simp] theorem ofSlot_slot (h : Handle) : ofSlot h.slot = h := by
  simp [ofSlot, slot]

theorem slot_inj {g h : Handle} : g.slot = h.slot ↔ g = h := by
  refine ⟨fun hs => ?_, congrArg slot⟩
  rw [← ofSlot_slot g, hs, ofSlot_slot]

end Handle

namespace Heap

variable {α : Type} {heap : Heap α} {h : Handle} {o p : Object α} {slots : List (Slot α)}

/-- The heap with slots added at its end. -/
def extend (heap : Heap α) (slots : List (Slot α)) : Heap α := ⟨heap.slots ++ slots.toArray⟩

@[simp] theorem extend_nil : heap.extend [] = heap := by simp [extend]

@[simp] theorem extend_extend (more : List (Slot α)) :
    (heap.extend slots).extend more = heap.extend (slots ++ more) := by
  simp [extend]

@[simp] theorem size_extend : (heap.extend slots).size = heap.size + slots.length := by
  simp [extend, size]

theorem object?_extend (hs : h.slot < heap.size) : (heap.extend slots).object? h = heap.object? h := by
  simp only [object?, slot?, extend]
  rw [Array.getElem?_append_left hs]

@[simp] theorem size_setObject : (heap.setObject h o).size = heap.size := by
  simp [setObject, size]

theorem object?_setObject (hs : h.slot < heap.size) : (heap.setObject h o).object? h = some o := by
  have hs : h.slot < heap.slots.size := hs
  simp [object?, slot?, setObject, Array.getElem_modify, hs]

theorem setObject_setObject : (heap.setObject h o).setObject h p = heap.setObject h p := by
  simp only [setObject, mk.injEq]
  apply Array.ext_getElem?
  intro i
  simp only [Array.getElem?_modify]
  split <;> simp [Option.map_map, Function.comp_def]

theorem setObject_self (ho : heap.object? h = some o) : heap.setObject h o = heap := by
  obtain ⟨slot, hslot, rfl⟩ := Option.map_eq_some_iff.1 ho
  cases heap with
  | mk slots =>
    simp only [setObject, mk.injEq]
    apply Array.ext_getElem?
    intro i
    rw [Array.getElem?_modify]
    split
    · next hi =>
      subst hi
      rw [show slots[h.slot]? = some slot from hslot]
      rfl
    · rfl

theorem setObject_extend (hs : h.slot < heap.size) :
    (heap.extend slots).setObject h o = (heap.setObject h o).extend slots := by
  have hs : h.slot < heap.slots.size := hs
  simp only [setObject, extend, mk.injEq]
  apply Array.ext_getElem?
  intro i
  simp only [Array.getElem?_modify, Array.getElem?_append, Array.size_modify]
  split
  · next hi =>
    subst hi
    rw [if_pos hs, if_pos hs]
  · rfl

theorem setObject_last (hs : h.slot = heap.size) :
    (heap.extend [⟨typeName, o⟩]).setObject h p = heap.extend [⟨typeName, p⟩] := by
  have hs : h.slot = heap.slots.size := hs
  simp only [setObject, extend, mk.injEq]
  apply Array.ext_getElem?
  intro i
  simp only [Array.getElem?_modify, hs, Array.getElem?_append]
  split
  · next hi =>
    subst hi
    simp
  · next hi =>
    split
    · rfl
    · have hi : i - heap.slots.size ≠ 0 := by omega
      obtain ⟨n, hn⟩ := Nat.exists_eq_succ_of_ne_zero hi
      simp [hn]

theorem object?_last (hs : h.slot = heap.size) :
    (heap.extend [⟨typeName, o⟩]).object? h = some o := by
  have hs : h.slot = heap.slots.size := hs
  simp [object?, slot?, extend, hs]

end Heap
end GraphRpc
