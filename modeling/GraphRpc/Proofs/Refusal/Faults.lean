import Mathlib
import GraphRpc.Proofs.Refusal.Reasons

/-!
# What the encoder objects to

Wherever the encoder fails, the walk has come to something that gives the reason for it.
-/

namespace GraphRpc

open Binary Wire EncodeM

variable {α β : Type}

-- ---------------------------------------------------------------------------
-- Steps that fail
-- ---------------------------------------------------------------------------

namespace Wire

section
variable {ε σ : Type} {s s' : σ} {fault : ε}

theorem bind_error {x : EStateM ε σ β} {f : β → EStateM ε σ γ} : (x >>= f) s = .error fault s' ↔
    x s = .error fault s' ∨ ∃ b m, x s = .ok b m ∧ f b m = .error fault s' := by
  change EStateM.bind x f s = _ ↔ _
  unfold EStateM.bind
  cases x s with
  | ok b m => simp
  | error e m => simp

theorem throw_error {e : ε} : (throw e : EStateM ε σ β) s = .error fault s' ↔ e = fault ∧ s = s' := by
  change EStateM.Result.error e s = _ ↔ _
  simp

theorem get_error : (get : EStateM ε σ σ) s = .error fault s' ↔ False :=
  ⟨fun h => (nomatch h), fun h => h.elim⟩

theorem lift_error {x : Except ε β} :
    (liftM x : EStateM ε σ β) s = .error fault s' ↔ x = .error fault ∧ s = s' := by
  cases x with
  | ok b => exact ⟨fun h => (nomatch h), fun h => (nomatch h.1)⟩
  | error e => exact throw_error.trans (by simp)

end

section
variable {e e' : Encoder} {fault : CodecFault}

theorem putBytes_error : putBytes data e = .error fault e' ↔ False :=
  ⟨fun h => (nomatch h), fun h => h.elim⟩

theorem putByte_error : putByte b e = .error fault e' ↔ False :=
  ⟨fun h => (nomatch h), fun h => h.elim⟩

theorem putTag_error : putTag tag e = .error fault e' ↔ False := putByte_error

theorem putNat_error : putNat width n e = .error fault e' ↔ False := putBytes_error

theorem assignNumber_error : Codec.assignNumber h e = .error fault e' ↔ False :=
  ⟨fun h => (nomatch h), fun h => h.elim⟩

theorem checkLimit_error : checkLimit what len bound e = .error fault e' ↔
    ¬ Within len bound ∧ .sizeLimit what len bound = fault ∧ e = e' := by
  unfold checkLimit Within
  split
  · next hlong =>
    rw [throw_error]
    exact ⟨fun h => ⟨by omega, h⟩, fun h => h.2⟩
  · next hshort => exact ⟨fun h => (nomatch h), fun h => (h.1 (by omega)).elim⟩

theorem putText_error : putText what s bound e = .error fault e' ↔
    ¬ Within s.utf8ByteSize bound ∧ .sizeLimit what s.utf8ByteSize bound = fault ∧ e = e' := by
  simp only [putText, bind_error, checkLimit_error, putNat_error, putBytes_error, and_false,
    exists_false, or_false]

theorem forM_nil_error {f : β → EncodeM Unit} : [].forM f e = .error fault e' ↔ False :=
  ⟨fun h => (nomatch h), fun h => h.elim⟩

theorem forM_cons_error {f : β → EncodeM Unit} {bs : List β} : (b :: bs).forM f e = .error fault e' ↔
    f b e = .error fault e' ∨ ∃ m, f b e = .ok () m ∧ bs.forM f m = .error fault e' := by
  change (f b >>= fun _ => bs.forM f) e = _ ↔ _
  rw [bind_error]
  exact or_congr_right ⟨fun ⟨_, m, hb, hbs⟩ => ⟨m, hb, hbs⟩, fun ⟨m, hb, hbs⟩ => ⟨(), m, hb, hbs⟩⟩

-- ---------------------------------------------------------------------------
-- Values that fail
-- ---------------------------------------------------------------------------

variable {codec : Codec α} {heap : Heap α}

theorem encodeAt_scalar_error {s : Scalar} (h : codec.encodeAt heap room s.value e = .error fault e') :
    ∃ x ∈ s.value.extents codec.limits, ¬ x.Kept ∧ x.fault = fault := by
  cases s <;>
    simp only [Scalar.value, Codec.encodeAt, bind_error, putTag_error, putByte_error, putNat_error,
      putText_error, putBytes_error, checkLimit_error, and_false, exists_false, or_false, false_or] at h
  case str s =>
    obtain ⟨_, _, -, hlen, hfault, -⟩ := h
    exact ⟨_, List.mem_singleton_self _, hlen, hfault⟩
  case bytes data =>
    obtain ⟨hlen, hfault, -⟩ := h
    exact ⟨_, List.mem_singleton_self _, hlen, hfault⟩

theorem forM_putEntry (entries : List (Value × Value)) :
    entries.forM (putEntry codec heap room) = (flat entries).forM (codec.encodeAt heap room) := by
  induction entries with
  | nil => rfl
  | cons entry entries ih =>
    change (putEntry codec heap room entry >>= fun _ => entries.forM _) = _
    rw [ih, putEntry, bind_assoc]
    rfl

theorem encodeAt_parts_error (hs : ∀ s : Scalar, v ≠ s.value) (ho : ∀ h, v ≠ .object h)
    (h : codec.encodeAt heap (room + 1) v e = .error fault e') :
    (∃ x ∈ v.extents codec.limits, ¬ x.Kept ∧ x.fault = fault) ∨
      ∃ m, v.parts.forM (codec.encodeAt heap room) m = .error fault e' ∧ m.met = e.met := by
  obtain ⟨s, rfl⟩ | ⟨items, rfl⟩ | ⟨entries, rfl⟩ | ⟨g, rfl⟩ := v.shape
  · exact (hs s rfl).elim
  · simp only [Codec.encodeAt, bind_error, checkLimit_error, checkLimit_ok, putTag_error, putTag_ok,
      putNat_error, putNat_ok, false_or] at h
    obtain ⟨hlen, hfault, -⟩ | ⟨_, _, ⟨-, rfl⟩, _, _, rfl, _, _, rfl, h⟩ := h
    · exact .inl ⟨_, List.mem_singleton_self _, hlen, hfault⟩
    · exact .inr ⟨_, h, rfl⟩
  · simp only [Codec.encodeAt, bind_error, checkLimit_error, checkLimit_ok, putTag_error, putTag_ok,
      putNat_error, putNat_ok, false_or] at h
    obtain ⟨hlen, hfault, -⟩ | ⟨_, _, ⟨-, rfl⟩, _, _, rfl, _, _, rfl, h⟩ := h
    · exact .inl ⟨_, List.mem_singleton_self _, hlen, hfault⟩
    · rw [Value.parts, ← forM_putEntry]
      exact .inr ⟨_, h, rfl⟩
  · exact (ho g rfl).elim

theorem encodeAt_ref_error (hh : h ∈ e.met.toList) :
    codec.encodeAt heap room (.object h) e ≠ .error fault e' := by
  intro herror
  have hok := (@encodeAt_ref_ok α h heap room () _ codec e hh).2 rfl
  cases herror.symm.trans hok

/-- Without room nothing that nests can be written, whatever else there may be to object to. -/
theorem encodeAt_zero_error (hv : ∀ s : Scalar, v ≠ s.value) (hh : ∀ h ∈ e.met.toList, v ≠ .object h)
    (h : codec.encodeAt heap 0 v e = .error fault e') : codec.tooDeep = fault := by
  obtain ⟨s, rfl⟩ | ⟨items, rfl⟩ | ⟨entries, rfl⟩ | ⟨g, rfl⟩ := v.shape
  · exact (hv s rfl).elim
  · rw [Codec.encodeAt.eq_def] at h
    exact (throw_error.1 h).1
  · rw [Codec.encodeAt.eq_def] at h
    exact (throw_error.1 h).1
  · have hmet : e.met.idxOf? g = none := by rw [idxOf?_met, if_neg fun hg => hh g hg rfl]
    rw [Codec.encodeAt.eq_def] at h
    simp only [bind_error, get_error, get_ok, false_or] at h
    obtain ⟨_, _, ⟨rfl, rfl⟩, h⟩ := h
    rw [hmet] at h
    exact (throw_error.1 h).1

theorem encodeAt_object_error {limits : Limits} {h : Handle} (hh : h ∉ e.met.toList)
    (herror : (Codec.mk limits .generic).encodeAt heap (room + 1) (.object h) e = .error fault e') :
    heap.slot? h = none ∧ .invalid (.danglingHandle h.index) = fault ∨
      ∃ slot, heap.slot? h = some slot ∧
        (slot.object.isRecord = false ∧ .fieldAccess (.unreadable slot.typeName) = fault ∨
          ∃ r, slot.object = .record r ∧
            ((∃ x ∈ Blueprint.extents limits ⟨slot.typeName, r.fields⟩, ¬ x.Kept ∧ x.fault = fault) ∨
              ∃ m, r.names.forM (putField ⟨limits, .generic⟩ heap room .record (.record r)) m =
                .error fault e' ∧ m.met = e.met.push h)) := by
  have hmet : e.met.idxOf? h = none := by rw [idxOf?_met, if_neg hh]
  rw [Codec.encodeAt.eq_def] at herror
  simp only [bind_error, get_error, get_ok, false_or] at herror
  obtain ⟨_, _, ⟨rfl, rfl⟩, herror⟩ := herror
  rw [hmet] at herror
  dsimp only at herror
  cases hslot : heap.slot? h with
  | none =>
    rw [hslot] at herror
    exact .inl ⟨rfl, (throw_error.1 herror).1⟩
  | some slot =>
    rw [hslot] at herror
    refine .inr ⟨slot, rfl, ?_⟩
    obtain ⟨typeName, object⟩ := slot
    simp only [bind_error, assignNumber_error, assignNumber_ok, lift_error, lift_ok, checkLimit_error,
      checkLimit_ok, putTag_error, putTag_ok, putText_error, putText_ok, putNat_error, putNat_ok,
      false_or] at herror
    obtain ⟨_, _, ⟨rfl, rfl⟩, herror⟩ := herror
    cases object with
    | app x =>
      obtain ⟨hfault, -⟩ | ⟨_, _, ⟨haccess, -⟩, -⟩ := herror
      · exact .inl ⟨rfl, Except.error.inj hfault⟩
      · cases haccess
    | record r =>
      refine .inr ⟨r, rfl, ?_⟩
      obtain ⟨hfault, -⟩ | ⟨_, _, ⟨haccess, rfl⟩, herror⟩ := herror
      · cases hfault
      cases haccess
      obtain ⟨hfault, -⟩ | ⟨_, _, ⟨hnames, rfl⟩, herror⟩ := herror
      · cases hfault
      cases hnames
      have hcount : r.names.length = r.fields.length := List.length_map _
      obtain ⟨hlen, hfault, -⟩ | ⟨_, _, ⟨-, rfl⟩, _, _, rfl, herror⟩ := herror
      · rw [hcount] at hlen hfault
        exact .inl ⟨_, List.mem_cons_self, hlen, hfault⟩
      obtain ⟨hlen, hfault, -⟩ | ⟨_, _, ⟨-, rfl⟩, _, _, rfl, _, _, rfl, herror⟩ := herror
      · exact .inl ⟨_, List.mem_cons_of_mem _ List.mem_cons_self, hlen, hfault⟩
      · exact .inr ⟨_, herror, rfl⟩

end
end Wire

-- ---------------------------------------------------------------------------
-- Reasons along the walk
-- ---------------------------------------------------------------------------

section
variable {limits : Limits} {heap : Heap α} {v v₀ : Value} {e e' : Encoder} {fault : CodecFault}
  {next : List (Nat × Value)}

theorem Measured.warranted (h : Measured limits heap v x) (hx : ¬ x.Kept) :
    Warranted limits heap v x.fault := ⟨h, hx⟩

theorem Walks.after_encodeAt (hok : (Codec.mk limits .generic).encodeAt heap room v e = .ok u e')
    (hroom : d + room = min limits.maxDepth maxWord)
    (hwalk : Walks heap.records (.start v₀) ⟨e.met.toList, (d, v) :: next⟩) :
    Walks heap.records (.start v₀) ⟨e'.met.toList, next⟩ := by
  obtain ⟨t, hwrites⟩ := (encodeAt_ok _ heap room).1 hok
  have hunfolds := hwrites.unfolds
  rw [generic_view] at hunfolds
  exact hwalk.trans (hunfolds.clears hwrites.fits hroom).1

/-- The encoder has a reason wherever it refuses to write something with this much room that the walk
has come to. -/
def HasReasons (limits : Limits) (heap : Heap α) (v₀ : Value) (room : Nat) : Prop :=
  ∀ {v e d next fault e'}, d + room = min limits.maxDepth maxWord →
    Walks heap.records (.start v₀) ⟨e.met.toList, (d, v) :: next⟩ →
    (Codec.mk limits .generic).encodeAt heap room v e = .error fault e' →
    Warranted limits heap v₀ fault

theorem HasReasons.items (ih : HasReasons limits heap v₀ room) {vs : List Value}
    (hroom : d + room = min limits.maxDepth maxWord)
    (hwalk : Walks heap.records (.start v₀) ⟨e.met.toList, vs.map (d, ·) ++ next⟩)
    (herror : vs.forM ((Codec.mk limits .generic).encodeAt heap room) e = .error fault e') :
    Warranted limits heap v₀ fault := by
  induction vs generalizing e with
  | nil => exact (forM_nil_error.1 herror).elim
  | cons v vs ihvs =>
    rcases forM_cons_error.1 herror with hv | ⟨m, hv, hvs⟩
    · exact ih hroom hwalk hv
    · exact ihvs (hwalk.after_encodeAt hv hroom) hvs

theorem HasReasons.fields (ih : HasReasons limits heap v₀ room)
    (hobject : Contains heap.records [v₀] (.object h))
    (hview : heap.records h = some ⟨typeName, r.fields⟩) {fields : List (String × Value)}
    (hfields : fields ⊆ r.fields) (hroom : d + room = min limits.maxDepth maxWord)
    (hwalk : Walks heap.records (.start v₀)
      ⟨e.met.toList, (fields.map fun f => (d, f.2)) ++ next⟩)
    (herror : (fields.map Prod.fst).forM
      (putField ⟨limits, .generic⟩ heap room .record (.record r)) e = .error fault e') :
    Warranted limits heap v₀ fault := by
  induction fields generalizing e with
  | nil => exact (forM_nil_error.1 herror).elim
  | cons field fields ihfields =>
    obtain ⟨hfield, hfields⟩ := List.cons_subset.1 hfields
    rw [List.map_cons, forM_cons_error] at herror
    simp only [putField, bind_error, bind_ok, putText_error, putText_ok, lift_error, lift_ok,
      record_get_of_mem hfield] at herror
    obtain (⟨hlen, rfl, -⟩ | ⟨_, _, ⟨-, rfl⟩, ⟨hfault, -⟩ | ⟨_, _, ⟨hv, rfl⟩, herror⟩⟩) |
      ⟨m, ⟨_, _, ⟨-, rfl⟩, _, _, ⟨hv, rfl⟩, hok⟩, herror⟩ := herror
    · have hname : Extent.mk .fieldName field.1.utf8ByteSize limits.maxStringLen ∈
          Blueprint.extents limits ⟨typeName, r.fields⟩ :=
        List.mem_cons_of_mem _ (List.mem_cons_of_mem _ (List.mem_map_of_mem hfield))
      exact (Measured.object hobject hview hname).warranted hlen
    · cases hfault
    · cases hv
      have hnamed : Walks heap.records (.start v₀) ⟨(append e (spellText field.1)).met.toList,
          (d, field.2) :: ((fields.map fun f => (d, f.2)) ++ next)⟩ := hwalk
      exact ih hroom hnamed herror
    · cases hv
      exact ihfields hfields (Walks.after_encodeAt hok hroom hwalk) herror

theorem warranted_tooDeep (hroom : d + 0 = min limits.maxDepth maxWord)
    (hwalk : Walks heap.records (.start v₀) s)
    (hs : Extent.mk .nestingDepth (d + 1) limits.maxDepth ∈ s.nesting limits) :
    Warranted limits heap v₀ (Codec.mk limits (.generic (α := α))).tooDeep := by
  have hkept : ¬ Within (d + 1) limits.maxDepth := by
    unfold Within
    omega
  rw [Codec.tooDeep, Codec.room, ← hroom]
  exact (Measured.nesting hwalk hs).warranted hkept

theorem HasReasons.object (ih : HasReasons limits heap v₀ room) {h : Handle}
    (hh : h ∉ e.met.toList) (hroom : d + (room + 1) = min limits.maxDepth maxWord)
    (hwalk : Walks heap.records (.start v₀) ⟨e.met.toList, (d, .object h) :: next⟩)
    (herror : (Codec.mk limits .generic).encodeAt heap (room + 1) (.object h) e = .error fault e') :
    Warranted limits heap v₀ fault := by
  have hcontains : Contains heap.records [v₀] (.object h) :=
    hwalk.contains (d, .object h) List.mem_cons_self
  obtain ⟨hslot, rfl⟩ | ⟨slot, hslot, ⟨hobject, rfl⟩ | ⟨r, hobject, hrecord⟩⟩ :=
    encodeAt_object_error hh herror
  · exact ⟨h, hcontains, hslot, rfl⟩
  · exact ⟨h, slot, hcontains, hslot, hobject, rfl⟩
  · have hview : heap.records h = some ⟨slot.typeName, r.fields⟩ := by
      simp [Heap.records, hslot, hobject, Object.record?]
    obtain ⟨x, hx, hkept, rfl⟩ | ⟨m, herror, hmet⟩ := hrecord
    · exact (Measured.object hcontains hview hx).warranted hkept
    · have hnext := hwalk.tail (Walk.step_first hh)
      rw [Walk.behind, hview, Option.elim_some, ← Array.toList_push, ← hmet] at hnext
      exact HasReasons.fields ih hcontains hview (List.Subset.refl _) (by omega) hnext herror

theorem hasReasons (limits : Limits) (heap : Heap α) (v₀ : Value) (room : Nat) :
    HasReasons limits heap v₀ room := by
  have hstep : ∀ room, (∀ r, room = r + 1 → HasReasons limits heap v₀ r) →
      HasReasons limits heap v₀ room := by
    intro room ih v e d next fault e' hroom hwalk herror
    have hcontains : Contains heap.records [v₀] v := hwalk.contains (d, v) List.mem_cons_self
    by_cases hs : ∃ s : Scalar, v = s.value
    · obtain ⟨s, rfl⟩ := hs
      obtain ⟨x, hx, hkept, rfl⟩ := encodeAt_scalar_error herror
      exact (Measured.value hcontains hx).warranted hkept
    by_cases hmet : ∃ h ∈ e.met.toList, v = .object h
    · obtain ⟨h, hh, rfl⟩ := hmet
      exact (encodeAt_ref_error hh herror).elim
    have hs : ∀ s : Scalar, v ≠ s.value := not_exists.1 hs
    have hfresh : ∀ h ∈ e.met.toList, v ≠ .object h := fun h hh heq => hmet ⟨h, hh, heq⟩
    cases room with
    | zero =>
      rw [← encodeAt_zero_error hs hfresh herror]
      refine warranted_tooDeep hroom hwalk ?_
      rw [Walk.nesting_eq (Walk.current_fresh hfresh) hs]
      exact List.mem_singleton_self _
    | succ r =>
      by_cases ho : ∃ h, v = .object h
      · obtain ⟨h, rfl⟩ := ho
        exact HasReasons.object (ih r rfl) (fun hh => hfresh h hh rfl) hroom hwalk herror
      · have ho : ∀ h, v ≠ .object h := not_exists.1 ho
        obtain ⟨x, hx, hkept, rfl⟩ | ⟨m, herror, hmet⟩ := encodeAt_parts_error hs ho herror
        · exact (Measured.value hcontains hx).warranted hkept
        · have hnext := hwalk.tail (Walk.step_parts ho)
          rw [← hmet] at hnext
          exact HasReasons.items (ih r rfl) (by omega) hnext herror
  induction room with
  | zero => exact hstep 0 fun r hr => (Nat.succ_ne_zero r hr.symm).elim
  | succ room ih => exact hstep (room + 1) fun r hr => Nat.succ.inj hr ▸ ih

end

namespace Codec

theorem bytesOf_error {action : EncodeM Unit} :
    bytesOf action = .error fault ↔ ∃ e, action .start = .error fault e := by
  unfold bytesOf EStateM.run
  cases action .start <;> simp

/-- A value is encoded just when everything that it leads to can be, and where it nests within the limit
on the walk. Otherwise the failure names something that is there. -/
theorem encodeValue_ok_iff_encodable (limits : Limits) (heap : Heap α) (v : Value) :
    ((∃ bytes, (Codec.mk limits .generic).encodeValue v heap = .ok bytes) ↔ v.Encodable limits heap) ∧
      ∀ fault, (Codec.mk limits .generic).encodeValue v heap = .error fault →
        Warranted limits heap v fault := by
  have hreasons : ∀ fault, (Codec.mk limits .generic).encodeValue v heap = .error fault →
      Warranted limits heap v fault := by
    intro fault h
    obtain ⟨e, herror⟩ := bytesOf_error.1 h
    exact hasReasons limits heap v _ (Nat.zero_add _) (.refl (.start v)) herror
  refine ⟨⟨?_, fun h => ?_⟩, hreasons⟩
  · rintro ⟨bytes, h⟩
    obtain ⟨t, order, hf, -, hunfolds⟩ := encodeValue_ok.1 h
    rw [generic_view] at hunfolds
    have hclears : Clears limits heap.records (.start v) ⟨order, []⟩ :=
      hunfolds.clears (List.forall_mem_singleton.2 hf) (Nat.zero_add _)
    exact hclears.encodable rfl
  · cases hrun : (Codec.mk limits .generic).encodeValue v heap with
    | ok bytes => exact ⟨bytes, rfl⟩
    | error fault => exact (h.not_warranted (hreasons fault hrun)).elim

def shared : Heap Empty := ⟨#[⟨"T", .record .empty⟩]⟩

theorem encodeValue_ok_iff_encodable_shared :
    Value.Encodable { maxDepth := 3 } shared
        (.array [.object (.ofSlot 0), .array [.array [.object (.ofSlot 0)]]]) ∧
      Warranted { maxDepth := 3 } shared
        (.array [.array [.array [.object (.ofSlot 0)]], .object (.ofSlot 0)])
        (.sizeLimit .nestingDepth 4 3) ∧
      Warranted { maxDepth := 3 } shared (.array [.object (.ofSlot 1)])
        (.invalid (.danglingHandle 1)) := by
  have hearly : (Codec.mk { maxDepth := 3 } .generic).encodeValue
      (.array [.object (.ofSlot 0), .array [.array [.object (.ofSlot 0)]]]) shared =
      .ok ⟨#[0x0A, 0, 0, 0, 2, 0x0D, 0, 0, 0, 1, 84, 0, 0, 0, 0, 0, 0, 0, 0,
        0x0A, 0, 0, 0, 1, 0x0A, 0, 0, 0, 1, 0x0C, 0, 0, 0, 0]⟩ := by
    cbv
  have hlate : (Codec.mk { maxDepth := 3 } .generic).encodeValue
      (.array [.array [.array [.object (.ofSlot 0)]], .object (.ofSlot 0)]) shared =
      .error (.sizeLimit .nestingDepth 4 3) := by
    cbv
  have hdangling : (Codec.mk { maxDepth := 3 } .generic).encodeValue
      (.array [.object (.ofSlot 1)]) shared = .error (.invalid (.danglingHandle 1)) := by
    cbv
  exact ⟨(encodeValue_ok_iff_encodable _ _ _).1.1 ⟨_, hearly⟩,
    (encodeValue_ok_iff_encodable _ _ _).2 _ hlate,
    (encodeValue_ok_iff_encodable _ _ _).2 _ hdangling⟩

end Codec

end GraphRpc
