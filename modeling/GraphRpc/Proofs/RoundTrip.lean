import Mathlib
import GraphRpc.Proofs.Wire.Records

/-!
# Round trip

What was encoded is decoded as the same object graph. The decoded heap holds what the value leads
to and nothing else, in the order in which a depth-first walk first meets it.
-/

namespace GraphRpc

open Wire

variable {α : Type}

namespace Wire

theorem bijOn_idxOf {order : List Handle} (hn : order.Nodup) :
    Set.BijOn order.idxOf {h | h ∈ order} {n | n < order.length} := by
  refine ⟨fun h hh => List.idxOf_lt_length_of_mem hh, ?_, ?_⟩
  · intro g hg h _ he
    exact (List.idxOf_inj hg).1 he
  · intro n hn'
    exact ⟨order[n], List.getElem_mem hn', hn.idxOf_getElem n hn'⟩

theorem records_of_unfolds {view : View} {copy : Heap α} (hu : Unfolds view met vs ts order)
    (hn : met.Nodup) (hsize : copy.size = met.length) (hh : h ∈ order) (hnew : h ∉ met)
    (hnames : ∀ {h b}, view h = some b → (b.fields.map Prod.fst).Nodup) :
    ∃ b, view h = some b ∧ b.handles ⊆ order ∧
      (copy.extend ((objects ts).map Blueprint.slot)).records (rank order h) =
        some (b.rename (rank order)) := by
  obtain ⟨b, i, hview, hi, hb, hsub⟩ := hu.object_at hh hnew
  have hslot : (rank order h).slot = copy.size + i := by
    rw [slot_rank (hu.encounters.nodup hn) hh, hi, hsize]
  have hnodup : ((b.rename (rank order)).fields.map Prod.fst).Nodup := by
    rw [Blueprint.rename, List.map_map]
    exact hnames hview
  exact ⟨b, hview, hsub, Heap.records_extend_new hslot hb hnodup⟩

/-- The values and objects of an unfolding are those of the graph, numbered. -/
theorem renumbering_of_unfolds {heap : Heap α} (hu : Unfolds heap.records [] vs ts order) :
    Renumbering heap (Heap.empty.extend ((objects ts).map Blueprint.slot)) vs (ts.map Tree.value)
      order.idxOf := by
  have hn : order.Nodup := hu.encounters.nodup List.nodup_nil
  have hmem {h} : h ∈ order ↔ Reaches heap.records (vs.flatMap Value.handles) h :=
    hu.encounters.mem_iff_reaches
  constructor
  case encounters => exact ⟨order, hu.encounters, fun i hi => hn.idxOf_getElem i hi⟩
  case bijOn =>
    have hsize : (Heap.empty.extend ((objects ts).map Blueprint.slot) : Heap α).size =
        order.length := by
      rw [Heap.size_extend, List.length_map, hu.length_objects]
      rfl
    simp only [← hmem, hsize]
    exact bijOn_idxOf hn
  case values => exact hu.values List.prefix_rfl
  case records =>
    intro h hh
    have hempty : (Heap.empty : Heap α).size = ([] : List Handle).length := rfl
    obtain ⟨b, hview, -, hcopy⟩ :=
      records_of_unfolds hu .nil hempty (hmem.2 hh) List.not_mem_nil Heap.nodup_of_records
    exact ⟨b, hview, hcopy⟩

end Wire

namespace Codec

/-- Decoding what was encoded succeeds and gives the same graph, numbered by first encounter. -/
theorem decodeValue_of_encodeValue {limits : Limits} {heap : Heap α}
    (h : (Codec.mk limits .generic).encodeValue v heap = .ok bytes) :
    ∃ v' heap' number, (Codec.mk limits .generic).decodeValue bytes.data.toList = .ok (v', heap') ∧
      Renumbering heap heap' [v] [v'] number := by
  obtain ⟨t, order, hf, rfl, hu⟩ := encodeValue_ok.1 h
  rw [generic_view] at hu
  refine ⟨t.value, _, order.idxOf, decodeValue_ok.2 ⟨t, hf, ?_, ?_, rfl⟩, renumbering_of_unfolds hu⟩
  · rw [List.data_toByteArray]
  · exact grows_generic.2 ⟨hu.numbered List.nodup_nil, rfl⟩

/-- A record that refers to itself. -/
def knot : Heap Empty := ⟨#[⟨"T", .record (.ofList [("me", .object (.ofSlot 0))])⟩]⟩

theorem decodeValue_of_encodeValue_knot :
    ∃ bytes, (Codec.mk {} .generic).encodeValue (.object (.ofSlot 0)) knot = .ok bytes ∧
      ∃ v' heap' number, (Codec.mk {} .generic).decodeValue bytes.data.toList = .ok (v', heap') ∧
        Renumbering knot heap' [.object (.ofSlot 0)] [v'] number := by
  have h : (Codec.mk {} .generic).encodeValue (.object (.ofSlot 0)) knot =
      .ok ⟨#[0x0D, 0, 0, 0, 1, 84, 0, 0, 0, 0, 0, 0, 0, 1, 0, 0, 0, 2, 109, 101, 0x0C, 0, 0, 0, 0]⟩ := by
    cbv
  exact ⟨_, h, decodeValue_of_encodeValue h⟩

end Codec
end GraphRpc
