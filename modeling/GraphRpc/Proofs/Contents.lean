import Mathlib
import GraphRpc.Proofs.Wire.Tree

/-!
# Contents

What there is in a graph: the values within a value, all that some roots lead to through the fields of
objects, and the lengths in there that a limit applies to.
-/

namespace GraphRpc

-- ---------------------------------------------------------------------------
-- Within a value
-- ---------------------------------------------------------------------------

namespace Value

variable {v w : Value}

/-- The value and all values within it, from left to right. Handles are not followed. -/
def nodes (v : Value) : List Value := v :: v.parts.attach.flatMap fun p => p.1.nodes
termination_by sizeOf v
decreasing_by exact sizeOf_lt_of_mem_parts p.2

theorem nodes_eq (v : Value) : v.nodes = v :: v.parts.flatMap nodes := by
  rw [nodes, List.flatMap_subtype (g := nodes) (by simp), List.unattach_attach]

theorem mem_nodes : w ∈ v.nodes ↔ w = v ∨ ∃ p ∈ v.parts, w ∈ p.nodes := by
  simp [nodes_eq v]

@[simp] theorem mem_nodes_self (v : Value) : v ∈ v.nodes := mem_nodes.2 (.inl rfl)

@[simp] theorem parts_scalar (s : Scalar) : s.value.parts = [] := by cases s <;> rfl

/-- The handles in a value are the objects among the values within it. -/
theorem mem_handles : g ∈ v.handles ↔ object g ∈ v.nodes := by
  induction v using byParts with
  | step v ih =>
    have hparts : g ∈ v.parts.flatMap handles ↔ ∃ p ∈ v.parts, object g ∈ p.nodes := by
      rw [List.mem_flatMap]
      exact exists_congr fun p => and_congr_right (ih p)
    rw [mem_nodes]
    obtain ⟨s, rfl⟩ | ⟨items, rfl⟩ | ⟨entries, rfl⟩ | ⟨h, rfl⟩ := v.shape
    · simp [Scalar.value_ne_object.symm]
    · simpa [handles_array, parts] using hparts
    · simpa [handles_map, parts] using hparts
    · simp [parts]

end Value

-- ---------------------------------------------------------------------------
-- Behind the handles
-- ---------------------------------------------------------------------------

/-- A value that some roots lead to: one of them, a part of one they lead to, or what is in a field of
an object they lead to. A handle is led to whether or not there is anything behind it. -/
inductive Contains (view : View) (roots : List Value) : Value → Prop
  | root (h : v ∈ roots) : Contains view roots v
  | part (h : Contains view roots v) (hp : p ∈ v.parts) : Contains view roots p
  | field (h : Contains view roots (.object g)) (hg : view g = some b) (hf : f ∈ b.fields) :
    Contains view roots f.2

namespace Contains

variable {view : View} {roots : List Value} {v w : Value} {g : Handle}

theorem node (h : Contains view roots v) (hw : w ∈ v.nodes) : Contains view roots w := by
  induction v using Value.byParts with
  | step v ih =>
    rcases Value.mem_nodes.1 hw with rfl | ⟨p, hp, hw⟩
    · exact h
    · exact ih p hp (h.part hp) hw

theorem handle (h : Contains view roots v) (hg : g ∈ v.handles) : Contains view roots (.object g) :=
  h.node (Value.mem_handles.1 hg)

theorem of_reaches (h : Reaches view (roots.flatMap Value.handles) g) :
    Contains view roots (.object g) := by
  induction h with
  | root hg =>
    obtain ⟨v, hv, hg⟩ := List.mem_flatMap.1 hg
    exact (root hv).handle hg
  | field _ hview hg ih =>
    obtain ⟨f, hf, hg⟩ := List.mem_flatMap.1 hg
    exact (ih.field hview hf).handle hg

end Contains

theorem Heap.records_eq_some {α : Type} {heap : Heap α} {b : Blueprint} : heap.records h = some b ↔
    heap.typeName? h = some b.typeName ∧ ∃ r, heap.record? h = some r ∧ r.fields = b.fields := by
  obtain ⟨typeName, fields⟩ := b
  unfold records typeName? record? object?
  cases heap.slot? h with
  | none => simp
  | some slot => cases hr : slot.object.record? <;> simp [hr]

-- ---------------------------------------------------------------------------
-- Lengths
-- ---------------------------------------------------------------------------

structure Extent where
  what : Measure
  len : Nat
  bound : Nat

namespace Extent

def Kept (x : Extent) : Prop := Wire.Within x.len x.bound

def fault (x : Extent) : CodecFault := .sizeLimit x.what x.len x.bound

end Extent

def Value.extents (limits : Limits) : Value → List Extent
  | str s => [⟨.string, s.utf8ByteSize, limits.maxStringLen⟩]
  | bytes data => [⟨.bytes, data.size, limits.maxBytesLen⟩]
  | array items => [⟨.array, items.length, limits.maxCollectionLen⟩]
  | map entries => [⟨.map, entries.length, limits.maxCollectionLen⟩]
  | _ => []

theorem Scalar.bounded_iff {limits : Limits} {s : Scalar} :
    s.Bounded limits ↔ ∀ x ∈ s.value.extents limits, x.Kept := by
  cases s with
  | str s => exact ⟨fun h => List.forall_mem_singleton.2 h, fun h => h _ List.mem_cons_self⟩
  | bytes data => exact ⟨fun h => List.forall_mem_singleton.2 h, fun h => h _ List.mem_cons_self⟩
  | _ => exact iff_of_true trivial (List.forall_mem_nil _)

def Blueprint.extents (limits : Limits) (b : Blueprint) : List Extent :=
  ⟨.fieldCount, b.fields.length, limits.maxFields⟩ ::
    ⟨.typeName, b.typeName.utf8ByteSize, limits.maxStringLen⟩ ::
    b.fields.map fun f => ⟨.fieldName, f.1.utf8ByteSize, limits.maxStringLen⟩

theorem Blueprint.extents_kept {limits : Limits} {b : Blueprint} : (∀ x ∈ b.extents limits, x.Kept) ↔
    Wire.Within b.fields.length limits.maxFields ∧
      Wire.Within b.typeName.utf8ByteSize limits.maxStringLen ∧
      ∀ name ∈ b.fields.map Prod.fst, Wire.Within name.utf8ByteSize limits.maxStringLen := by
  simp only [extents, List.forall_mem_cons, List.forall_mem_map, Extent.Kept]

end GraphRpc
