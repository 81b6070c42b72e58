import Mathlib
import GraphRpc.Proofs.Decoded.Progress
import GraphRpc.Proofs.Decoded.WellFormed

/-!
# Nothing comes from nothing

Decoding does not amplify. Each value and each object of the result has bytes of its own on the wire,
and so has each text. A reference costs bytes too, and only a field that is set again takes away
from what the bytes have brought.
-/

namespace GraphRpc

open Wire

variable {α : Type}

-- ---------------------------------------------------------------------------
-- What there is
-- ---------------------------------------------------------------------------

def Value.payload : Value → Nat
  | str s => s.utf8ByteSize
  | bytes data => data.size
  | _ => 0

/-- How many values there are within a value, itself among them, and how long all strings and byte
strings in there are. -/
def Value.weight (v : Value) : Nat := (v.nodes.map fun w => 1 + w.payload).sum

/-- One for the object, with the lengths of its names and the weight of its fields. -/
def Blueprint.weight (b : Blueprint) : Nat :=
  1 + b.typeName.utf8ByteSize + (b.fields.map fun f => f.1.utf8ByteSize + f.2.weight).sum

/-- How much there is in some values and in the whole heap. -/
def footprint (values : List Value) (heap : Heap α) : Nat :=
  (values.map Value.weight).sum + (heap.slots.toList.map fun slot => slot.blueprint.weight).sum

theorem Value.weight_eq (v : Value) : v.weight = 1 + v.payload + (v.parts.map weight).sum := by
  rw [weight, nodes_eq, List.map_cons, List.sum_cons, List.map_flatMap, List.flatMap, List.sum_flatten,
    List.map_map]
  rfl

theorem Blueprint.weight_slot_le (b : Blueprint) : (b.slot : Slot α).blueprint.weight ≤ b.weight := by
  obtain ⟨fields, hperm, hsub⟩ := Record.fields_ofList_subperm b.fields
  have hle := (hsub.map fun f => f.1.utf8ByteSize + f.2.weight).sum_le_sum fun _ _ => Nat.zero_le _
  rw [(hperm.map _).sum_eq] at hle
  exact Nat.add_le_add_left hle _

namespace Wire

-- ---------------------------------------------------------------------------
-- What it takes on the wire
-- ---------------------------------------------------------------------------

section
variable {t : Tree} {ts : List Tree}

def load (ts : List Tree) : Nat :=
  (ts.map fun t => t.value.weight).sum + ((objects ts).map Blueprint.weight).sum

theorem load_cons : load (t :: ts) = load [t] + load ts := by
  simp only [load, @objects_cons t ts, List.map_cons, List.map_nil, List.sum_cons, List.sum_nil,
    List.map_append, List.sum_append]
  omega

theorem load_parts (ho : t.blueprint? = none) : load [t] = 1 + t.value.payload + load t.parts := by
  have hparts : t.value.parts = t.parts.map Tree.value := by
    rw [Tree.value_parts, ho]
    rfl
  rw [load, objects_parts ho, List.map_singleton, List.sum_singleton, Value.weight_eq, hparts,
    List.map_map, load, Nat.add_assoc]
  rfl

theorem load_object {fields : List (String × Tree)} : load [.object typeName h fields] =
    2 + typeName.utf8ByteSize + (fields.map fun f => f.1.utf8ByteSize).sum +
      load (fields.map Prod.snd) := by
  have hvalue : (Tree.object typeName h fields).value.weight = 1 := by
    rw [Value.weight_eq, Tree.value_parts]
    simp [Tree.value, Tree.blueprint?, Value.payload]
  simp only [load, objects_object, List.map_cons, List.map_nil, List.sum_cons, List.sum_nil, hvalue,
    Blueprint.weight, List.map_map, Function.comp_def, List.sum_map_add]
  omega

theorem load_le (h : ∀ t ∈ ts, load [t] ≤ t.spell.length) :
    load ts ≤ (ts.flatMap Tree.spell).length := by
  induction ts with
  | nil => exact Nat.zero_le _
  | cons t ts ih =>
    obtain ⟨ht, hts⟩ := List.forall_mem_cons.1 h
    rw [load_cons, List.flatMap_cons, List.length_append]
    exact Nat.add_le_add ht (ih hts)

theorem length_spellText (s : String) : (spellText s).length = 4 + s.utf8ByteSize := by
  rw [spellText, List.length_append, Binary.length_bigEndian, length_toUTF8]

theorem length_spellFields (fields : List (String × Tree)) :
    (fields.flatMap fun f => spellText f.1 ++ f.2.spell).length = 4 * fields.length +
      (fields.map fun f => f.1.utf8ByteSize).sum + ((fields.map Prod.snd).flatMap Tree.spell).length := by
  induction fields with
  | nil => rfl
  | cons f fields ih =>
    simp only [List.flatMap_cons, List.length_append, List.map_cons, List.sum_cons, List.length_cons,
      ih, length_spellText]
    omega

theorem Scalar.payload_le (s : Scalar) : s.value.payload ≤ s.content.length := by
  cases s with
  | str s =>
    rw [Scalar.content, length_spellText]
    exact Nat.le_add_left _ _
  | bytes data =>
    rw [Scalar.content, List.length_append, Array.length_toList]
    exact Nat.le_add_left _ _
  | _ => exact Nat.zero_le _

/-- A tree has at least as many bytes as there is in it. -/
theorem load_singleton_le (t : Tree) : load [t] ≤ t.spell.length := by
  induction t using Tree.byParts with
  | step t ih =>
    have hparts := load_le ih
    cases t with
    | scalar s =>
      have hpayload := Scalar.payload_le s
      rw [load_parts rfl, Tree.value, Tree.spell, Scalar.spell, List.length_cons]
      simp only [Tree.parts, load, List.map_nil, objects_nil, List.sum_nil]
      omega
    | array items =>
      rw [load_parts rfl, Tree.value, Tree.spell, List.length_cons, List.length_append]
      change load items ≤ (items.flatMap fun t => t.spell).length at hparts
      simp only [Tree.parts, Value.payload]
      omega
    | map entries =>
      rw [load_parts rfl, Tree.value, Tree.spell, List.length_cons, List.length_append]
      simp only [Tree.parts, Value.payload, flatMap_flat] at hparts ⊢
      omega
    | ref h =>
      rw [load_parts rfl, Tree.value, Tree.spell, List.length_cons]
      simp [Tree.parts, load, Value.payload]
    | object typeName h fields =>
      rw [load_object, Tree.spell, List.length_cons]
      simp only [List.length_append, length_spellFields, length_spellText, Binary.length_bigEndian]
      simp only [Tree.parts] at hparts
      omega

theorem footprint_le {heap : Heap α} (hheap : heap.slots.toList = (objects ts).map Blueprint.slot) :
    footprint (ts.map Tree.value) heap ≤ (ts.flatMap Tree.spell).length := by
  have hslots :
      (((objects ts).map (Blueprint.slot (α := α))).map fun slot => slot.blueprint.weight).sum ≤
        ((objects ts).map Blueprint.weight).sum := by
    rw [List.map_map]
    exact List.sum_le_sum fun b _ => b.weight_slot_le
  rw [footprint, hheap, List.map_map]
  exact (Nat.add_le_add_left hslots _).trans (load_le fun t _ => load_singleton_le t)

end
end Wire

namespace Codec

/-- Decoding ends with the bytes, however far the limits let depth and counts go. A value takes at least
one of them, and what is decoded is no more than they are. -/
theorem decode_economical (limits : Limits) :
    (Codec.mk limits (.generic (α := α))).EndsWithBytes ∧
      Advances (Codec.mk limits (.generic (α := α))).decode ∧
      (∀ input v (heap : Heap α), (Codec.mk limits .generic).decodeValue input = .ok (v, heap) →
        footprint [v] heap ≤ input.length) ∧
      ∀ input values (heap : Heap α),
        (Codec.mk limits .generic).decodeParams input = .ok (values, heap) →
          footprint values heap ≤ input.length := by
  refine ⟨endsWithBytes _, advances_decodeAt _ _, fun input v heap h => ?_,
    fun input values heap h => ?_⟩
  · obtain ⟨t, -, rfl, hg, rfl⟩ := decodeValue_ok.1 h
    obtain ⟨-, rfl⟩ := grows_generic.1 hg
    have hle := footprint_le (Heap.toList_extend_empty (α := α) ((objects [t]).map _))
    rwa [List.flatMap_singleton] at hle
  · obtain ⟨ts, -, -, rfl, hg, rfl⟩ := decodeParams_ok.1 h
    obtain ⟨-, rfl⟩ := grows_generic.1 hg
    have hle := footprint_le (Heap.toList_extend_empty (α := α) ((objects ts).map _))
    rw [spellParams, List.length_append]
    exact hle.trans (Nat.le_add_left _ _)

theorem decode_economical_overwritten :
    (∃ values heap, (Codec.mk {} (.generic (α := Empty))).decodeParams overwritten = .ok (values, heap) ∧
      footprint values heap ≤ overwritten.length) ∧
    (∃ v heap, (Codec.mk {} (.generic (α := Empty))).decodeValue [0x0A, 0, 0, 0, 1, 0] = .ok (v, heap) ∧
      footprint [v] heap ≤ 6) ∧
    (Codec.mk {} (.generic (α := Empty))).decodeAt 4294967295 ⟨[0x0A, 0, 0, 0, 1, 0], .empty⟩ =
      (Codec.mk {} (.generic (α := Empty))).decodeAt 6 ⟨[0x0A, 0, 0, 0, 1, 0], .empty⟩ ∧
    ∃ fault d', ∀ n > 0, DecodeM.repeated ((Codec.mk {} (.generic (α := Empty))).decodeAt 64) n []
      ⟨[], .empty⟩ = .error fault d' := by
  obtain ⟨hends, -, hvalue, hparams⟩ := decode_economical (α := Empty) {}
  have hp : (Codec.mk {} (.generic (α := Empty))).decodeParams overwritten =
      .ok ([.object (.ofSlot 0)],
        ⟨#[⟨"T", .record (.ofList [("a", .object (.ofSlot 0))])⟩, ⟨"U", .record .empty⟩]⟩) := by
    cbv
  have hv : (Codec.mk {} (.generic (α := Empty))).decodeValue [0x0A, 0, 0, 0, 1, 0] =
      .ok (.array [.null], .empty) := by
    cbv
  exact ⟨⟨_, _, hp, hparams _ _ _ hp⟩, ⟨_, _, hv, hvalue _ _ _ hv⟩, hends.levels _ _ (by decide),
    hends.items 64 ⟨[], .empty⟩⟩

end Codec
end GraphRpc
