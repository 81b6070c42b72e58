import Mathlib
import GraphRpc.Proofs.Wire.Reading
import GraphRpc.Proofs.Wire.Writing

/-!
# Records on the wire

The generic registry reads and builds records only: it sees the records of a heap as they are, and
builds the record that results from setting the fields in wire order. A record comes back as it was
when its names do not repeat, which holds of every record that was written.
-/

namespace GraphRpc

variable {α : Type}

-- ---------------------------------------------------------------------------
-- Records
-- ---------------------------------------------------------------------------

namespace Record

theorem lookup_of_mem {fields : List (String × Value)} (hn : (fields.map Prod.fst).Nodup)
    (h : (name, v) ∈ fields) : fields.lookup name = some v := by
  induction fields with
  | nil => cases h
  | cons field fields ih =>
    obtain ⟨hnew, hn⟩ := List.nodup_cons.1 hn
    rcases List.mem_cons.1 h with rfl | h
    · exact List.lookup_cons_self
    · have hne : name ≠ field.1 := fun he => hnew (he ▸ List.mem_map_of_mem h)
      rw [List.lookup_cons, beq_false_of_ne hne]
      exact ih hn h

theorem setIn_of_notMem {fields : List (String × Value)} (h : name ∉ fields.map Prod.fst) :
    setIn name v fields = fields ++ [(name, v)] := by
  induction fields with
  | nil => rfl
  | cons field fields ih =>
    obtain ⟨hne, h⟩ := not_or.1 (mt List.mem_cons.2 h)
    rw [setIn, if_neg (fun he => hne he.symm), ih h, List.cons_append]

theorem mem_setIn {fields : List (String × Value)} {field : String × Value}
    (h : field ∈ setIn name v fields) : field = (name, v) ∨ field ∈ fields := by
  induction fields with
  | nil => exact .inl (List.mem_singleton.1 h)
  | cons first rest ih =>
    rw [setIn] at h
    split at h
    · next heq =>
      rcases List.mem_cons.1 h with rfl | h
      · exact .inl (heq ▸ rfl)
      · exact .inr (List.mem_cons_of_mem _ h)
    · rcases List.mem_cons.1 h with rfl | h
      · exact .inr List.mem_cons_self
      · exact (ih h).imp_right (List.mem_cons_of_mem _)

theorem fields_foldl_set {r : Record} {fields : List (String × Value)}
    (hn : ((r.fields ++ fields).map Prod.fst).Nodup) :
    (fields.foldl (fun r field => r.set field.1 field.2) r).fields = r.fields ++ fields := by
  induction fields generalizing r with
  | nil => exact (List.append_nil _).symm
  | cons field fields ih =>
    have hnew : field.1 ∉ r.fields.map Prod.fst := by
      rw [List.map_append, List.nodup_append] at hn
      exact fun h => hn.2.2 _ h _ (by simp) rfl
    have hset : (r.set field.1 field.2).fields = r.fields ++ [field] := setIn_of_notMem hnew
    rw [List.foldl_cons, ih, hset, List.append_assoc, List.singleton_append]
    rwa [hset, List.append_assoc, List.singleton_append]

theorem fields_ofList {fields : List (String × Value)} (hn : (fields.map Prod.fst).Nodup) :
    (ofList fields).fields = fields := fields_foldl_set (r := empty) hn

end Record

theorem Heap.nodup_of_records {heap : Heap α} (h : heap.records g = some b) :
    (b.fields.map Prod.fst).Nodup := by
  obtain ⟨slot, -, hslot⟩ := Option.bind_eq_some_iff.1 h
  obtain ⟨r, -, rfl⟩ := Option.map_eq_some_iff.1 hslot
  exact r.nodup

def Blueprint.slot (b : Blueprint) : Slot α := ⟨b.typeName, .record (.ofList b.fields)⟩

namespace Heap

variable {heap : Heap α} {g h : Handle} {b : Blueprint} {r : Record}

theorem records_extend_old {slots : List (Slot α)} (hs : h.slot < heap.size) :
    (heap.extend slots).records h = heap.records h := by
  rw [records, records, slot?, slot?, extend, Array.getElem?_append_left hs]

theorem records_extend_new {bs : List Blueprint} (hs : h.slot = heap.size + i) (hb : bs[i]? = some b)
    (hn : (b.fields.map Prod.fst).Nodup) :
    (heap.extend (bs.map Blueprint.slot)).records h = some b := by
  have hslot : (heap.extend (bs.map Blueprint.slot)).slot? h = some b.slot := by
    simp only [slot?, extend]
    rw [hs, size, Array.getElem?_append_right (Nat.le_add_right _ _), Nat.add_sub_cancel_left]
    simp [hb]
  rw [records, hslot]
  simp only [Blueprint.slot, Option.bind_some, Object.record?, Option.map_some, Record.fields_ofList hn]

theorem object?_of_records (hb : heap.records h = some b) :
    ∃ r, heap.object? h = some (.record r) ∧ r.fields = b.fields := by
  obtain ⟨⟨typeName, o⟩, hslot, hr⟩ := Option.bind_eq_some_iff.1 hb
  cases o with
  | app x => cases hr
  | record r =>
    cases hr
    exact ⟨r, congrArg (Option.map Slot.object) hslot, rfl⟩

theorem records_setObject_self (hb : heap.records h = some b) :
    (heap.setObject h (.record r)).records h = some ⟨b.typeName, r.fields⟩ := by
  obtain ⟨slot, hslot, hr⟩ := Option.bind_eq_some_iff.1 hb
  obtain ⟨_, -, rfl⟩ := Option.map_eq_some_iff.1 hr
  rw [slot?] at hslot
  rw [records, slot?, setObject, Array.getElem?_modify, if_pos rfl, hslot]
  rfl

theorem records_setObject_of_ne {o : Object α} (hne : g ≠ h) :
    (heap.setObject g o).records h = heap.records h := by
  have hslot : g.slot ≠ h.slot := mt Handle.slot_inj.1 hne
  rw [records, records, slot?, slot?, setObject, Array.getElem?_modify, if_neg hslot]

end Heap

-- ---------------------------------------------------------------------------
-- The generic registry
-- ---------------------------------------------------------------------------

namespace Wire

theorem record_get_of_mem {r : Record} (h : f ∈ r.fields) :
    (FieldAccess.record (α := α)).get (.record r) f.1 = .ok f.2 := by
  have hlookup : r.get? f.1 = some f.2 := Record.lookup_of_mem r.nodup h
  simp only [FieldAccess.record, hlookup]

theorem mapM_record_get {r : Record} {fields : List (String × Value)} (h : fields ⊆ r.fields) :
    ((fields.map Prod.fst).mapM fun name => do
      return (name, ← (FieldAccess.record (α := α)).get (.record r) name)) = .ok fields := by
  induction fields with
  | nil => rfl
  | cons field fields ih =>
    obtain ⟨hfield, h⟩ := List.cons_subset.1 h
    rw [List.map_cons, List.mapM_cons]
    exact except_bind_ok.2 ⟨field, except_bind_ok.2 ⟨field.2, record_get_of_mem hfield, rfl⟩,
      except_bind_ok.2 ⟨fields, ih h, rfl⟩⟩

theorem foldlM_record_set (fields : List (String × Value)) (r : Record) :
    fields.foldlM (fun o f => (FieldAccess.record (α := α)).set o f.1 f.2) (.record r) =
      .ok (.record (fields.foldl (fun r field => r.set field.1 field.2) r)) := by
  induction fields generalizing r with
  | nil => rfl
  | cons field fields ih => exact ih (r.set field.1 field.2)

/-- A registry that leaves a type to the record access builds its objects as records. -/
theorem build_record {registry : Registry α} {b : Blueprint}
    (h : registry.resolveWriter b.typeName = .ok .record) : registry.build b = .ok b.slot :=
  except_bind_ok.2 ⟨.record, h, except_bind_ok.2 ⟨_, rfl,
    except_bind_ok.2 ⟨_, foldlM_record_set b.fields .empty, rfl⟩⟩⟩

theorem seen_record {registry : Registry α} {typeName : String} {r : Record}
    (h : registry.resolveReader typeName (.record r) = .ok .record) :
    registry.seen ⟨typeName, .record r⟩ = .ok ⟨typeName, r.fields⟩ :=
  seen_ok.2 ⟨.record, h, r.names, rfl, r.fields, mapM_record_get (List.Subset.refl _), rfl⟩

/-- The generic registry sees the records of a heap and nothing else. -/
theorem generic_view (heap : Heap α) : Registry.generic.view heap = heap.records := by
  have hseen (slot : Slot α) : (Registry.generic.seen slot).toOption =
      slot.object.record?.map fun r => ⟨slot.typeName, r.fields⟩ := by
    obtain ⟨typeName, object⟩ := slot
    cases object with
    | record r =>
      rw [seen_record rfl]
      rfl
    | app x => rfl
  funext h
  exact congrArg (Option.bind _) (funext hseen)

/-- The generic registry builds every blueprint, as a record. -/
theorem generic_build (b : Blueprint) : Registry.generic.build b = .ok (b.slot : Slot α) :=
  build_record rfl

theorem grows_generic {heap heap' : Heap α} : Grows .generic ts heap heap' ↔
    NumberedFrom heap.size ts ∧ heap' = heap.extend ((objects ts).map Blueprint.slot) := by
  have hbuilt (slots : List (Slot α)) :
      List.Forall₂ (fun b slot => Registry.generic.build b = .ok slot) (objects ts) slots ↔
        slots = (objects ts).map Blueprint.slot := by
    simp only [generic_build, Except.ok.injEq]
    rw [← List.forall₂_map_left_iff (f := Blueprint.slot) (R := Eq), List.forall₂_eq_eq_eq, eq_comm]
  constructor
  · rintro ⟨hn, slots, hs, rfl⟩
    rw [(hbuilt slots).1 hs]
    exact ⟨hn, rfl⟩
  · rintro ⟨hn, rfl⟩
    exact ⟨hn, _, (hbuilt _).2 rfl, rfl⟩

end Wire
end GraphRpc
