import Mathlib
import GraphRpc.Proofs.Contents
import GraphRpc.Proofs.Wire.Records
import GraphRpc.Proofs.Wire.Spelling

/-!
# What comes out of the decoder

No accepted bytes make the decoder produce a handle that goes nowhere or a length beyond a limit. All
values of the result, those in fields too, are values of trees on the wire, which keep the limits and
whose numbers are those of objects on the wire. Setting a field that is there already only makes the
older value go away.
-/

namespace GraphRpc

open Wire

variable {α : Type}

-- ---------------------------------------------------------------------------
-- Well-formed parameters
-- ---------------------------------------------------------------------------

/-- The type name of a slot and the fields of its record. The fields of other objects do not show. -/
def Slot.blueprint (slot : Slot α) : Blueprint :=
  ⟨slot.typeName, (slot.object.record?.map Record.fields).getD []⟩

structure Value.WellFormed (limits : Limits) (heap : Heap α) (v : Value) : Prop where
  handles : ∀ g ∈ v.handles, heap.contains g
  extents : ∀ w ∈ v.nodes, ∀ x ∈ w.extents limits, x.Kept

structure Slot.WellFormed (limits : Limits) (heap : Heap α) (slot : Slot α) : Prop where
  record : slot.object.isRecord
  extents : ∀ x ∈ slot.blueprint.extents limits, x.Kept
  fields : ∀ f ∈ slot.blueprint.fields, f.2.WellFormed limits heap

/-- Parameters and their heap, as whoever works on them may rely on. -/
structure WellFormed (limits : Limits) (values : List Value) (heap : Heap α) : Prop where
  count : Within values.length limits.maxCollectionLen
  values : ∀ v ∈ values, v.WellFormed limits heap
  slots : ∀ slot ∈ heap.slots, slot.WellFormed limits heap

-- ---------------------------------------------------------------------------
-- Fields that are set again
-- ---------------------------------------------------------------------------

namespace Record

theorem setIn_subperm (name : String) (v : Value) (fields : List (String × Value)) :
    (setIn name v fields).Subperm (fields ++ [(name, v)]) := by
  induction fields with
  | nil => exact .refl _
  | cons field fields ih =>
    obtain ⟨n, w⟩ := field
    rw [setIn]
    split
    · next hn =>
      subst hn
      have hperm : ((n, v) :: fields).Perm (fields ++ [(n, v)]) := (List.perm_append_singleton _ _).symm
      exact hperm.subperm.trans (List.sublist_cons_self _ _).subperm
    · exact (List.subperm_cons _).2 ih

theorem fields_foldl_set_subperm (fields : List (String × Value)) (r : Record) :
    (fields.foldl (fun r field => r.set field.1 field.2) r).fields.Subperm (r.fields ++ fields) := by
  induction fields generalizing r with
  | nil => rw [List.append_nil]; exact .refl _
  | cons field fields ih =>
    have hset := (setIn_subperm field.1 field.2 r.fields).append (.refl fields)
    rw [List.append_assoc, List.singleton_append] at hset
    exact (ih (r.set field.1 field.2)).trans hset

theorem fields_ofList_subperm (fields : List (String × Value)) :
    (ofList fields).fields.Subperm fields := fields_foldl_set_subperm fields empty

end Record

theorem Heap.toList_extend_empty (slots : List (Slot α)) :
    (Heap.empty.extend slots).slots.toList = slots := by simp [Heap.extend, Heap.empty]

namespace Wire

-- ---------------------------------------------------------------------------
-- Values on the wire
-- ---------------------------------------------------------------------------

section
variable {t n : Tree} {ts : List Tree} {v w : Value} {g : Handle} {limits : Limits}

theorem Tree.value_parts (t : Tree) :
    t.value.parts = if t.blueprint?.isSome then [] else t.parts.map value := by
  cases t with
  | scalar s => simp [value, blueprint?, parts]
  | array items => simp [value, blueprint?, parts, Value.parts]
  | map entries => simp [value, blueprint?, parts, Value.parts, map_flat]
  | ref h => simp [value, blueprint?, parts, Value.parts]
  | object typeName h fields => simp [value, blueprint?, Value.parts]

theorem Tree.exists_of_mem_value_nodes (hw : w ∈ t.value.nodes) : ∃ n ∈ t.nodes, n.value = w := by
  induction t using byParts with
  | step t ih =>
    rcases Value.mem_nodes.1 hw with rfl | ⟨p, hp, hw⟩
    · exact ⟨t, t.mem_nodes_self, rfl⟩
    · rw [value_parts] at hp
      split at hp
      · cases hp
      · obtain ⟨u, hu, rfl⟩ := List.mem_map.1 hp
        obtain ⟨n, hn, rfl⟩ := ih u hu hw
        rw [nodes_eq]
        exact ⟨n, List.mem_cons_of_mem _ (List.mem_flatMap_of_mem hu hn), rfl⟩

theorem Tree.nodes_subset (hn : n ∈ t.nodes) : n.nodes ⊆ t.nodes := by
  induction t using byParts with
  | step t ih =>
    rw [nodes_eq] at hn
    rcases List.mem_cons.1 hn with rfl | hn
    · exact List.Subset.refl _
    · obtain ⟨p, hp, hn⟩ := List.mem_flatMap.1 hn
      intro m hm
      rw [nodes_eq]
      exact List.mem_cons_of_mem _ (List.mem_flatMap_of_mem hp (ih p hp hn hm))

/-- A value that is that of a tree within some trees. -/
def Shown (ts : List Tree) (w : Value) : Prop := ∃ n ∈ nodes ts, n.value = w

theorem shown_value (ht : t ∈ ts) (hw : w ∈ t.value.nodes) : Shown ts w := by
  obtain ⟨n, hn, rfl⟩ := Tree.exists_of_mem_value_nodes hw
  exact ⟨n, List.mem_flatMap_of_mem ht hn, rfl⟩

theorem shown_field (hb : b ∈ objects ts) (hf : f ∈ b.fields) (hw : w ∈ f.2.nodes) : Shown ts w := by
  obtain ⟨n, hn, hb⟩ := List.mem_filterMap.1 hb
  cases n with
  | object typeName h fields =>
    obtain rfl := Option.some.inj hb
    obtain ⟨⟨name, p⟩, hp, rfl⟩ := List.mem_map.1 hf
    obtain ⟨m, hm, rfl⟩ := Tree.exists_of_mem_value_nodes hw
    obtain ⟨t, ht, hn⟩ := List.mem_flatMap.1 hn
    have hparts : p ∈ (Tree.object typeName h fields).parts := List.mem_map_of_mem hp
    have hm : m ∈ (Tree.object typeName h fields).nodes := by
      rw [Tree.nodes_eq]
      exact List.mem_cons_of_mem _ (List.mem_flatMap_of_mem hparts hm)
    exact ⟨m, List.mem_flatMap_of_mem ht (Tree.nodes_subset hn hm), rfl⟩
  | _ => cases hb

theorem Sequential.slot_lt {ns : List Tree} (h : Sequential k ns) (hn : n ∈ ns)
    (hv : n.value = .object g) : g.slot < k + (ns.filterMap Tree.blueprint?).length := by
  induction ns generalizing k with
  | nil => cases hn
  | cons m ns ih =>
    cases m with
    | ref r =>
      rw [List.filterMap_cons_none rfl]
      rcases List.mem_cons.1 hn with rfl | hn
      · rw [Tree.value, Value.object.injEq] at hv
        exact hv ▸ Nat.lt_add_right _ h.1
      · exact ih h.2 hn
    | object typeName r fields =>
      change g.slot < k + ((ns.filterMap Tree.blueprint?).length + 1)
      rcases List.mem_cons.1 hn with rfl | hn
      · rw [Tree.value, Value.object.injEq] at hv
        obtain rfl := hv
        have hr := h.1
        omega
      · have hlt := ih h.2 hn
        omega
    | scalar s =>
      rw [List.filterMap_cons_none rfl]
      rcases List.mem_cons.1 hn with rfl | hn
      · rw [Tree.value] at hv
        exact (Scalar.value_ne_object hv).elim
      · exact ih h hn
    | _ =>
      rw [List.filterMap_cons_none rfl]
      rcases List.mem_cons.1 hn with rfl | hn
      · rw [Tree.value] at hv
        cases hv
      · exact ih h hn

theorem Tree.Bounded.extents_kept (h : n.Bounded limits) : ∀ x ∈ n.value.extents limits, x.Kept := by
  cases n with
  | scalar s =>
    rw [value]
    exact Scalar.bounded_iff.1 h
  | array items => simpa [value, Value.extents, Extent.Kept, Bounded] using h
  | map entries => simpa [value, Value.extents, Extent.Kept, Bounded] using h
  | ref r => simp [value, Value.extents]
  | object typeName r fields => simp [value, Value.extents]

theorem Tree.Bounded.blueprint_kept (h : n.Bounded limits) (hb : n.blueprint? = some b) :
    ∀ x ∈ (b.slot : Slot α).blueprint.extents limits, x.Kept := by
  cases n with
  | object typeName r fields =>
    obtain rfl := Option.some.inj hb
    obtain ⟨hlen, htype, hnames⟩ := h
    have hset := Record.fields_ofList_subperm (fields.map fun f => (f.1, f.2.value))
    have hle := hset.length_le
    rw [List.length_map] at hle
    refine Blueprint.extents_kept.2 ⟨⟨hle.trans hlen.1, hle.trans hlen.2⟩, htype, fun name hname => ?_⟩
    obtain ⟨f, hf, rfl⟩ := List.mem_map.1 hname
    obtain ⟨u, hu, rfl⟩ := List.mem_map.1 (hset.subset hf)
    exact hnames u hu
  | _ => cases hb

-- ---------------------------------------------------------------------------
-- The result
-- ---------------------------------------------------------------------------

/-- What the values of trees may hold if the trees keep the limits and are numbered in order. -/
theorem value_wellFormed {heap : Heap α} (hb : ∀ n ∈ nodes ts, n.Bounded limits)
    (hn : NumberedFrom 0 ts) (hsize : heap.size = (objects ts).length)
    (hv : ∀ w ∈ v.nodes, Shown ts w) : v.WellFormed limits heap where
  handles g hg := by
    obtain ⟨n, hmem, hval⟩ := hv _ (Value.mem_handles.1 hg)
    have hlt : g.slot < 0 + (objects ts).length := hn.slot_lt hmem hval
    rw [Nat.zero_add, ← hsize] at hlt
    exact decide_eq_true hlt
  extents w hw := by
    obtain ⟨n, hmem, rfl⟩ := hv w hw
    exact (hb n hmem).extents_kept

theorem slot_wellFormed {heap : Heap α} (hb : ∀ n ∈ nodes ts, n.Bounded limits)
    (hn : NumberedFrom 0 ts) (hsize : heap.size = (objects ts).length) (hmem : b ∈ objects ts) :
    (b.slot : Slot α).WellFormed limits heap where
  record := rfl
  extents := by
    obtain ⟨n, hmem, hn⟩ := List.mem_filterMap.1 hmem
    exact (hb n hmem).blueprint_kept hn
  fields f hf := by
    have hset := (Record.fields_ofList_subperm b.fields).subset hf
    exact value_wellFormed hb hn hsize fun w => shown_field hmem hset

theorem wellFormed {heap : Heap α} (hlen : Within ts.length limits.maxCollectionLen)
    (hb : ∀ n ∈ nodes ts, n.Bounded limits) (hn : NumberedFrom 0 ts)
    (hheap : heap.slots.toList = (objects ts).map Blueprint.slot) :
    WellFormed limits (ts.map Tree.value) heap := by
  have hsize : heap.size = (objects ts).length := by
    rw [Heap.size, ← Array.length_toList, hheap, List.length_map]
  refine ⟨by rwa [List.length_map], fun v hv => ?_, fun slot hslot => ?_⟩
  · obtain ⟨t, ht, rfl⟩ := List.mem_map.1 hv
    exact value_wellFormed hb hn hsize fun w => shown_value ht
  · rw [← Array.mem_toList_iff, hheap] at hslot
    obtain ⟨b, hmem, rfl⟩ := List.mem_map.1 hslot
    exact slot_wellFormed hb hn hsize hmem

end
end Wire

namespace Codec

/-- What was accepted is well-formed, and its slots are the objects of the input in wire order. There is
only one way to take the input for trees, so the input alone says what these objects are. -/
theorem wellFormed_of_decodeParams {limits : Limits} {heap : Heap α}
    (h : (Codec.mk limits .generic).decodeParams input = .ok (values, heap)) :
    WellFormed limits values heap ∧ ∃ ts, (∀ us, Spells us input ↔ us = ts) ∧
      heap.slots.toList = (objects ts).map Blueprint.slot := by
  obtain ⟨ts, hlen, hf, rfl, hg, rfl⟩ := decodeParams_ok.1 h
  obtain ⟨hn, rfl⟩ := grows_generic.1 hg
  have hspells : Spells ts (spellParams ts) := ⟨hlen.widen, fun t ht => (hf t ht).sized, rfl⟩
  have hb : ∀ n ∈ nodes ts, n.Bounded limits := by
    intro n hmem
    obtain ⟨t, ht, hmem⟩ := List.mem_flatMap.1 hmem
    exact (hf t ht).bounded n hmem
  have hheap := Heap.toList_extend_empty (α := α) ((objects ts).map Blueprint.slot)
  refine ⟨wellFormed hlen hb hn hheap, ts, fun us => ?_, hheap⟩
  exact ⟨fun hus => hus.unique hspells, fun heq => heq ▸ hspells⟩

/-- A record that lists a field twice: first with a record in it, then with a reference to itself. -/
def overwritten : List UInt8 :=
  [0, 0, 0, 1, 0x0D, 0, 0, 0, 1, 84, 0, 0, 0, 0, 0, 0, 0, 2,
    0, 0, 0, 1, 97, 0x0D, 0, 0, 0, 1, 85, 0, 0, 0, 1, 0, 0, 0, 0,
    0, 0, 0, 1, 97, 0x0C, 0, 0, 0, 0]

theorem wellFormed_of_decodeParams_overwritten : ∃ values heap,
    (Codec.mk {} (.generic (α := Empty))).decodeParams overwritten = .ok (values, heap) ∧
      WellFormed {} values heap ∧ ∃ ts, (∀ us, Spells us overwritten ↔ us = ts) ∧
        heap.slots.toList = (objects ts).map Blueprint.slot := by
  have h : (Codec.mk {} (.generic (α := Empty))).decodeParams overwritten =
      .ok ([.object (.ofSlot 0)],
        ⟨#[⟨"T", .record (.ofList [("a", .object (.ofSlot 0))])⟩, ⟨"U", .record .empty⟩]⟩) := by
    cbv
  exact ⟨_, _, h, wellFormed_of_decodeParams h⟩

end Codec
end GraphRpc
