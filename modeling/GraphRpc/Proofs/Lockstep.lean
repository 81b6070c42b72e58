import Mathlib
import GraphRpc.Proofs.Isomorphism

/-!
# Numbers on both sides

An encoder numbers the objects that it meets, and a decoder gives each object that it builds the next
slot. From any two states that correspond, in the middle of whatever objects, what is written for a
value is read back as that value, and the states afterwards correspond again. An object whose fields
are still under way has its number and its slot already; the correspondence asks of it no more than
the fields that are there.
-/

namespace GraphRpc

open Wire

variable {α : Type}

-- ---------------------------------------------------------------------------
-- Corresponding states
-- ---------------------------------------------------------------------------

/-- `part` is as much of the object `b` as has been filled in: it has fields of `b`, with numbers for
their handles, which are all in `met`. -/
structure Filled (met : List Handle) (b part : Blueprint) : Prop where
  typeName : part.typeName = b.typeName
  fields : ∀ field ∈ part.fields, ∃ v, (field.1, v) ∈ b.fields ∧ v.handles ⊆ met ∧
    field.2 = v.rename (rank met)

/-- The objects of `heap` in `met` have been numbered in that order, and as many have been built in
`copy`, each in the slot of its number. -/
structure Lockstep (heap : Heap α) (met : List Handle) (copy : Heap α) : Prop where
  nodup : met.Nodup
  size : copy.size = met.length
  filled : ∀ h ∈ met, ∃ b part, heap.records h = some b ∧ copy.records (rank met h) = some part ∧
    Filled met b part

/-- What had a number keeps it, what had been built is as it was, and what is new is complete. -/
structure TablesGrow (heap : Heap α) (met met' : List Handle) (copy copy' : Heap α) : Prop where
  numbers : met <+: met'
  slots : copy.slots.toList <+: copy'.slots.toList
  complete : ∀ h ∈ met', h ∉ met → ∃ b, heap.records h = some b ∧ b.handles ⊆ met' ∧
    copy'.records (rank met' h) = some (b.rename (rank met'))

namespace Filled

variable {met met' : List Handle} {b part : Blueprint}

theorem mono (h : Filled met b part) (hp : met <+: met') : Filled met' b part := by
  refine ⟨h.typeName, fun field hfield => ?_⟩
  obtain ⟨v, hv, hsub, heq⟩ := h.fields field hfield
  refine ⟨v, hv, fun k hk => hp.subset (hsub hk), ?_⟩
  rw [heq]
  exact Value.rename_congr fun k hk => rank_of_prefix hp (hsub hk)

theorem whole (hsub : b.handles ⊆ met) : Filled met b (b.rename (rank met)) := by
  refine ⟨rfl, fun field hfield => ?_⟩
  obtain ⟨⟨name, v⟩, hmem, rfl⟩ := List.mem_map.1 hfield
  exact ⟨v, hmem, fun k hk => hsub (List.mem_flatMap_of_mem hmem hk), rfl⟩

end Filled

namespace Lockstep

variable {heap copy : Heap α} {met met' : List Handle} {h : Handle} {b : Blueprint}

theorem empty (heap : Heap α) : Lockstep heap [] (.empty : Heap α) := ⟨.nil, rfl, nofun⟩

theorem slot_lt (hs : Lockstep heap met copy) (hmem : h ∈ met) : (rank met h).slot < copy.size := by
  rw [slot_rank hs.nodup hmem, hs.size]
  exact List.idxOf_lt_length_of_mem hmem

/-- Numbers and slots that come later change nothing for an object that was there before. -/
theorem kept (hs : Lockstep heap met copy) (hp : met <+: met') (hmem : h ∈ met)
    (slots : List (Slot α)) : ∃ b part, heap.records h = some b ∧
      (copy.extend slots).records (rank met' h) = some part ∧ Filled met' b part := by
  obtain ⟨b, part, hview, hpart, hfilled⟩ := hs.filled h hmem
  refine ⟨b, part, hview, ?_, hfilled.mono hp⟩
  rw [← rank_of_prefix hp hmem, Heap.records_extend_old (hs.slot_lt hmem), hpart]

-- ---------------------------------------------------------------------------
-- Steps
-- ---------------------------------------------------------------------------

/-- A new object has the same number on both sides, and is there before any of its fields. -/
theorem enter {e e' : Encoder} {d d' : Decoder α} (hs : Lockstep heap e.met.toList d.heap)
    (hnew : h ∉ e.met.toList) (hview : heap.records h = some b)
    (he : Codec.assignNumber h e = .ok number e')
    (hd : DecodeM.insert b.typeName (.record .empty) d = .ok g d') :
    g.index = number ∧ Lockstep heap e'.met.toList d'.heap := by
  obtain ⟨rfl, rfl⟩ := assignNumber_ok.1 he
  obtain ⟨rfl, rfl⟩ := insert_ok.1 hd
  rw [Array.toList_push]
  have hp := List.prefix_append e.met.toList [h]
  have hnodup : (e.met.toList ++ [h]).Nodup := by
    rw [← List.concat_eq_append]
    exact hs.nodup.concat hnew
  refine ⟨?_, hnodup, ?_, fun k hmem => ?_⟩
  · rw [hs.size, Array.length_toList]
    rfl
  · rw [Heap.size_extend, hs.size, List.length_append]
    rfl
  · rcases List.mem_append.1 hmem with hold | hlast
    · exact hs.kept hp hold _
    · obtain rfl := List.mem_singleton.1 hlast
      have hslot : (rank (e.met.toList ++ [k]) k).slot = d.heap.size + 0 := by
        rw [slot_rank hnodup hmem, List.idxOf_append_of_notMem hnew, hs.size, List.idxOf_cons_self]
      have hslots : [(⟨b.typeName, []⟩ : Blueprint)][0]? = some ⟨b.typeName, []⟩ := rfl
      have hblank := Heap.records_extend_new hslot hslots List.nodup_nil
      exact ⟨b, ⟨b.typeName, []⟩, hview, hblank, rfl, nofun⟩

/-- A field can be filled in when the objects in its value have been numbered. -/
theorem fill {d d' : Decoder α} (hs : Lockstep heap met d.heap) (hmem : h ∈ met)
    (hview : heap.records h = some b) (hfield : (name, v) ∈ b.fields) (hsub : v.handles ⊆ met)
    (hset : DecodeM.setField .record (rank met h) name (v.rename (rank met)) d = .ok u d') :
    Lockstep heap met d'.heap := by
  obtain ⟨o, o', ho, ho', rfl⟩ := setField_ok.1 hset
  refine ⟨hs.nodup, by rw [Heap.size_setObject, hs.size], fun k hk => ?_⟩
  obtain ⟨b', part, hview', hpart, hfilled⟩ := hs.filled k hk
  by_cases heq : h = k
  · subst heq
    cases hview.symm.trans hview'
    obtain ⟨r, hr, hfields⟩ := Heap.object?_of_records hpart
    cases hr.symm.trans ho
    cases ho'
    refine ⟨b, _, hview, Heap.records_setObject_self hpart, hfilled.typeName, fun field hf => ?_⟩
    rcases Record.mem_setIn hf with rfl | hold
    · exact ⟨v, hfield, hsub, rfl⟩
    · exact hfilled.fields field (hfields ▸ hold)
  · have hne : rank met h ≠ rank met k := by
      intro hrank
      have hslots := congrArg Handle.slot hrank
      rw [slot_rank hs.nodup hmem, slot_rank hs.nodup hk] at hslots
      exact heq ((List.idxOf_inj hmem).1 hslots)
    exact ⟨b', part, hview', by rw [Heap.records_setObject_of_ne hne, hpart], hfilled⟩

-- ---------------------------------------------------------------------------
-- Runs
-- ---------------------------------------------------------------------------

theorem tablesGrow (hs : Lockstep heap met copy) (hu : Unfolds heap.records met vs ts met') :
    TablesGrow heap met met' copy (copy.extend ((objects ts).map Blueprint.slot)) := by
  refine ⟨hu.encounters.met_prefix, ?_, fun h hmem hnew => ?_⟩
  · rw [Heap.extend, Array.toList_append]
    exact List.prefix_append _ _
  · exact records_of_unfolds hu hs.nodup hs.size hmem hnew Heap.nodup_of_records

/-- Walking values on one side and building the objects of their trees on the other. -/
theorem unfolds (hs : Lockstep heap met copy) (hu : Unfolds heap.records met vs ts met') :
    Lockstep heap met' (copy.extend ((objects ts).map Blueprint.slot)) := by
  refine ⟨hu.encounters.nodup hs.nodup, ?_, fun h hmem => ?_⟩
  · rw [Heap.size_extend, List.length_map, hs.size, hu.length_objects]
  · by_cases hold : h ∈ met
    · exact hs.kept hu.encounters.met_prefix hold _
    · obtain ⟨b, hview, hsub, hcopy⟩ := (hs.tablesGrow hu).complete h hmem hold
      exact ⟨b, _, hview, hcopy, .whole hsub⟩

end Lockstep

-- ---------------------------------------------------------------------------
-- The codec
-- ---------------------------------------------------------------------------

namespace Codec

/-- From corresponding states, and with the same room for nesting, the bytes written for a value are
read as that value with its objects numbered. Nothing of what follows them is read, no reference
among them goes to a number that was not yet given, and the states correspond again. -/
theorem decodeAt_lockstep (limits : Limits) (heap copy : Heap α) (room : Nat) (v : Value)
    (e e' : Encoder) (hs : Lockstep heap e.met.toList copy)
    (hv : (Codec.mk limits .generic).encodeAt heap room v e = .ok () e') :
    ∃ t copy', e'.out = e.out ++ t.spell.toByteArray ∧ NumberedFrom e.met.size [t] ∧
      (∀ rest, (Codec.mk limits .generic).decodeAt room ⟨t.spell ++ rest, copy⟩ =
        .ok (v.rename (rank e'.met.toList)) ⟨rest, copy'⟩) ∧
      v.handles ⊆ e'.met.toList ∧ Lockstep heap e'.met.toList copy' ∧
      TablesGrow heap e.met.toList e'.met.toList copy copy' := by
  obtain ⟨t, hwrites⟩ := (encodeAt_ok _ heap room).1 hv
  obtain ⟨hu, hfits, hout⟩ := writes_singleton.1 hwrites
  rw [generic_view] at hu
  have hnumbered := hu.numbered hs.nodup
  refine ⟨t, _, hout, hnumbered, fun rest => ?_, ?_, hs.unfolds hu, hs.tablesGrow hu⟩
  · have hgrows := grows_generic.2 ⟨hs.size ▸ hnumbered, rfl⟩
    have hvalue := hu.values List.prefix_rfl
    rw [List.map_singleton, List.map_singleton, List.singleton_inj] at hvalue
    exact (decodeAt_ok _ room).2 ⟨t, reads_singleton.2 ⟨hfits, rfl, hgrows⟩, hvalue⟩
  · have hsub := hu.encounters.next_subset
    rwa [List.flatMap_singleton] at hsub

/-- A parent and a child that refer to each other. -/
private def family : Heap Empty :=
  ⟨#[⟨"Child", .record (.ofList [("parent", .object (.ofSlot 1))])⟩,
    ⟨"Parent", .record (.ofList [("name", .str "p"), ("child", .object (.ofSlot 0))])⟩]⟩

/-- The parent with its first field. -/
private def halfway : Heap Empty := ⟨#[⟨"Parent", .record (.ofList [("name", .str "p")])⟩]⟩

private theorem lockstep_halfway : Lockstep family [.ofSlot 1] halfway := by
  have hview : family.records (.ofSlot 1) =
      some ⟨"Parent", [("name", .str "p"), ("child", .object (.ofSlot 0))]⟩ := by
    cbv
  have hsub : (Scalar.str "p").value.handles ⊆ [.ofSlot 1] := by
    rw [Value.handles_scalar]
    exact List.nil_subset _
  have hset : DecodeM.setField .record (rank [.ofSlot 1] (.ofSlot 1)) "name"
      ((Scalar.str "p").value.rename (rank [.ofSlot 1])) ⟨[], ⟨#[⟨"Parent", .record .empty⟩]⟩⟩ =
        .ok () ⟨[], halfway⟩ := by
    rw [Value.rename_scalar]
    cbv
  obtain ⟨-, hblank⟩ := (Lockstep.empty family).enter (e := .start) (d := ⟨[], .empty⟩)
    List.not_mem_nil hview rfl rfl
  exact hblank.fill (List.mem_singleton_self _) hview List.mem_cons_self hsub hset

theorem decodeAt_lockstep_halfway :
    ∃ e', Lockstep family [.ofSlot 1] halfway ∧
      (Codec.mk {} .generic).encodeAt family 5 (.object (.ofSlot 0)) ⟨.empty, #[.ofSlot 1]⟩ =
        .ok () e' ∧
      ∃ t copy', e'.out = .empty ++ t.spell.toByteArray ∧ NumberedFrom 1 [t] ∧
        (∀ rest, (Codec.mk {} .generic).decodeAt 5 ⟨t.spell ++ rest, halfway⟩ =
          .ok ((Value.object (.ofSlot 0)).rename (rank e'.met.toList)) ⟨rest, copy'⟩) ∧
        (Value.object (.ofSlot 0)).handles ⊆ e'.met.toList ∧ Lockstep family e'.met.toList copy' ∧
        TablesGrow family [.ofSlot 1] e'.met.toList halfway copy' := by
  have h : (Codec.mk {} .generic).encodeAt family 5 (.object (.ofSlot 0)) ⟨.empty, #[.ofSlot 1]⟩ =
      .ok () ⟨⟨#[0x0D, 0, 0, 0, 5, 67, 104, 105, 108, 100, 0, 0, 0, 1, 0, 0, 0, 1, 0, 0, 0, 6, 112, 97,
        114, 101, 110, 116, 0x0C, 0, 0, 0, 0]⟩, #[.ofSlot 1, .ofSlot 0]⟩ := by
    cbv
  exact ⟨_, lockstep_halfway, h, decodeAt_lockstep {} family halfway 5 _ _ _ lockstep_halfway h⟩

end Codec
end GraphRpc
