import Mathlib
import GraphRpc.Proofs.Contents
import GraphRpc.Proofs.Equality.Comparison
import GraphRpc.Proofs.RoundTrip

/-!
# Equality of copies

A decoded graph is the original with its handles renumbered, and the renumbering relates the two object
by object. They are equal all the same only if there is no NaN among the contents: a NaN differs from
its copy, and a comparison that says yes has been through all that the roots lead to.
-/

namespace GraphRpc

-- ---------------------------------------------------------------------------
-- NaNs
-- ---------------------------------------------------------------------------

def Value.isNaN : Value → Bool
  | f32 x => x.isNaN
  | f64 x => x.isNaN
  | _ => false

theorem Scalar.same_self {s : Scalar} : s.Same s ↔ s.value.isNaN = false := by
  cases s <;> simp [Same, value, Value.isNaN, Binary32.ieeeEq, Binary64.ieeeEq]

theorem Scalar.Same.isNaN {s t : Scalar} (h : s.Same t) : s.value.isNaN = false := by
  cases s <;> cases t <;> simp_all [Same, value, Value.isNaN, Binary32.ieeeEq, Binary64.ieeeEq]

theorem Scalar.Same.symm {s t : Scalar} (h : s.Same t) : t.Same s := by
  cases s <;> cases t <;> simp_all [Same, Binary32.ieeeEq, Binary64.ieeeEq] <;> grind

-- ---------------------------------------------------------------------------
-- Alike values
-- ---------------------------------------------------------------------------

theorem forall₂_symm {β γ : Type} {R : β → γ → Prop} {S : γ → β → Prop} {as : List β} {bs : List γ}
    (h : List.Forall₂ R as bs) (hs : ∀ a ∈ as, ∀ b, R a b → S b a) : List.Forall₂ S bs as := by
  induction h with
  | nil => exact .nil
  | cons hab _ ih =>
    obtain ⟨ha, has⟩ := List.forall_mem_cons.1 hs
    exact .cons (ha _ hab) (ih has)

theorem exists_of_forall₂ {β γ : Type} {R : β → γ → Prop} {a : β} {as : List β} {bs : List γ}
    (h : List.Forall₂ R as bs) (ha : a ∈ as) : ∃ b ∈ bs, R a b := by
  induction h with
  | nil => cases ha
  | cons hab _ ih =>
    rcases List.mem_cons.1 ha with rfl | ha
    · exact ⟨_, List.mem_cons_self, hab⟩
    · obtain ⟨b, hb, hab⟩ := ih ha
      exact ⟨b, List.mem_cons_of_mem _ hb, hab⟩

namespace Value

variable {R : Handle → Handle → Prop} {a b : Value}

theorem Alike.isNaN (h : a.Alike R b) : a.isNaN = false := by
  cases h with
  | scalar h => exact h.isNaN
  | _ => rfl

theorem Alike.parts (h : a.Alike R b) : List.Forall₂ (Alike R) a.parts b.parts := by
  cases h with
  | scalar => simp
  | array h => exact h
  | map h => exact h
  | object => exact .nil

theorem alike_object (h : (object x).Alike R b) : ∃ y, b = object y ∧ R x y := by
  generalize hx : object x = a at h
  cases h with
  | scalar => exact (Scalar.value_ne_object hx.symm).elim
  | object h =>
    cases hx
    exact ⟨_, rfl, h⟩
  | _ => cases hx

theorem Alike.symm (h : a.Alike R b) : b.Alike (fun x y => R y x) a := by
  induction a using byParts generalizing b with
  | step a ih =>
    cases h with
    | scalar h => exact .scalar h.symm
    | array h => exact .array (forall₂_symm h fun p hp _ => ih p hp)
    | map h => exact .map (forall₂_symm h fun p hp _ => ih p hp)
    | object h => exact .object h

theorem alike_rename {f : Handle → Handle} (hR : ∀ g ∈ a.handles, R g (f g))
    (hn : ∀ w ∈ a.nodes, w.isNaN = false) : a.Alike R (a.rename f) := by
  induction a using byParts with
  | step a ih =>
    have hparts (hhandles : a.handles = a.parts.flatMap handles) :
        List.Forall₂ (Alike R) a.parts (a.parts.map (rename f)) := by
      rw [List.forall₂_map_right_iff, List.forall₂_same]
      intro p hp
      refine ih p hp (fun g hg => hR g ?_) fun w hw => hn w (mem_nodes.2 (.inr ⟨p, hp, hw⟩))
      rw [hhandles]
      exact List.mem_flatMap_of_mem hp hg
    obtain ⟨s, rfl⟩ | ⟨items, rfl⟩ | ⟨entries, rfl⟩ | ⟨h, rfl⟩ := a.shape
    · rw [rename_scalar]
      exact .scalar (Scalar.same_self.2 (hn _ (mem_nodes_self _)))
    · rw [rename_array]
      exact .array (hparts (handles_array items))
    · have hflat := hparts (handles_map entries)
      rw [parts, map_flat] at hflat
      rw [rename_map]
      exact .map hflat
    · rw [rename_object]
      exact .object (hR h (by simp))

end Value

-- ---------------------------------------------------------------------------
-- Bisimilar graphs
-- ---------------------------------------------------------------------------

namespace Heap

variable {α : Type} {left right heap heap' : Heap α} {one : Bool} {R : Handle → Handle → Prop}
  {a b v w : Value} {vs vs' : List Value}

theorem Matches.symm (h : left.Matches right one R x y) :
    right.Matches left one (fun x y => R y x) y x where
  typeName := h.typeName.symm
  object := by
    obtain ⟨r, s, hr, hs, halike⟩ | ⟨hr, hs, hone, hxy⟩ := h.object
    · exact .inl ⟨s, r, hs, hr, halike.names.symm, forall₂_symm halike.values fun _ _ _ => .symm⟩
    · exact .inr ⟨hs, hr, hone, hxy.symm⟩

theorem Bisimilar.symm (h : left.Bisimilar right one a b) : right.Bisimilar left one b a := by
  obtain ⟨R, hR, hab⟩ := h
  exact ⟨fun x y => R y x, fun x y hxy => (hR y x hxy).symm, hab.symm⟩

/-- Comparing two graphs the other way round gives the same answer. -/
theorem graphEq_comm (left right : Heap α) (a b : Value) :
    left.graphEq a right b = right.graphEq b left a := by
  have hleft := (left.compares_valuesAgree right false a b).bisimilar_iff
  have hright := (right.compares_valuesAgree left false b a).bisimilar_iff
  refine Bool.eq_iff_iff.2 ⟨fun h => ?_, fun h => ?_⟩
  · exact hright.2 (hleft.1 h).symm
  · exact hleft.2 (hright.1 h).symm

/-- All that the root of a bisimilar graph leads to has its counterpart. -/
theorem Bisimilar.contents (h : left.Bisimilar right one a b) (hw : Contains left.records [a] w) :
    ∃ R w', w.Alike R w' := by
  obtain ⟨R, hR, hab⟩ := h
  refine ⟨R, ?_⟩
  induction hw with
  | root hv =>
    obtain rfl := List.mem_singleton.1 hv
    exact ⟨b, hab⟩
  | part _ hp ih =>
    obtain ⟨w', hw'⟩ := ih
    obtain ⟨p', -, hp'⟩ := exists_of_forall₂ hw'.parts hp
    exact ⟨p', hp'⟩
  | field _ hview hf ih =>
    obtain ⟨w', hw'⟩ := ih
    obtain ⟨y, -, hxy⟩ := Value.alike_object hw'
    obtain ⟨-, r, hr, hfields⟩ := records_eq_some.1 hview
    obtain ⟨r', s, hr', -, halike⟩ | ⟨hnone, -⟩ := (hR _ y hxy).object
    · cases hr.symm.trans hr'
      have hmem := List.mem_map_of_mem (f := Prod.snd) (hfields ▸ hf)
      obtain ⟨p', -, hp'⟩ := exists_of_forall₂ halike.values hmem
      exact ⟨p', hp'⟩
    · rw [hr] at hnone
      cases hnone

end Heap

-- ---------------------------------------------------------------------------
-- Copies
-- ---------------------------------------------------------------------------

variable {α : Type} {heap heap' : Heap α} {v v' : Value} {number : Handle → Nat}

/-- Objects are related to their copies. Without a NaN in them they cannot be told apart. -/
theorem Renumbering.bisimilar (h : Renumbering heap heap' [v] [v'] number)
    (hn : ∀ w, Contains heap.records [v] w → w.isNaN = false) : heap.Bisimilar heap' false v v' := by
  have hv' : v' = v.rename fun k => .ofSlot (number k) := List.singleton_inj.1 h.values
  refine ⟨fun x y => Reaches heap.records ([v].flatMap Value.handles) x ∧ y = .ofSlot (number x), ?_, ?_⟩
  · rintro x _ ⟨hx, rfl⟩
    obtain ⟨b, hb, hb'⟩ := h.records x hx
    obtain ⟨htype, r, hr, hfields⟩ := Heap.records_eq_some.1 hb
    obtain ⟨htype', s, hs, hfields'⟩ := Heap.records_eq_some.1 hb'
    refine ⟨htype.trans htype'.symm, .inl ⟨r, s, hr, hs, ?_, ?_⟩⟩
    · simp [Record.names, hfields, hfields', Blueprint.rename]
    · have hvalues : s.values = r.values.map (Value.rename fun k => .ofSlot (number k)) := by
        simp [Record.values, hfields, hfields', Blueprint.rename]
      rw [hvalues, List.forall₂_map_right_iff, List.forall₂_same]
      intro w hw
      obtain ⟨f, hf, rfl⟩ := List.mem_map.1 (show w ∈ r.fields.map Prod.snd from hw)
      rw [hfields] at hf
      have hcontained := (Contains.of_reaches hx).field hb hf
      refine Value.alike_rename (fun g hg => ⟨hx.field hb ?_, rfl⟩) fun w hw => hn w (hcontained.node hw)
      exact List.mem_flatMap_of_mem hf hg
  · rw [hv']
    refine Value.alike_rename (fun g hg => ⟨.root (by simpa using hg), rfl⟩) fun w hw => ?_
    exact hn w ((Contains.root (List.mem_singleton_self v)).node hw)

theorem Renumbering.graphEq_iff (h : Renumbering heap heap' [v] [v'] number) :
    heap.graphEq v heap' v' = true ↔ ∀ w, Contains heap.records [v] w → w.isNaN = false := by
  have hcompares := (heap.compares_valuesAgree heap' false v v').bisimilar_iff
  constructor
  · intro hyes w hw
    obtain ⟨R, w', hw'⟩ := (hcompares.1 hyes).contents hw
    exact hw'.isNaN
  · intro hn
    exact hcompares.2 (h.bisimilar hn)

namespace Codec

/-- What was encoded can be decoded, and is equal to what comes back just if there is no NaN in it. The
two may be compared in either order. -/
theorem graphEq_of_encodeValue {limits : Limits}
    (h : (Codec.mk limits .generic).encodeValue v heap = .ok bytes) :
    ∃ v' heap', (Codec.mk limits .generic).decodeValue bytes.data.toList = .ok (v', heap') ∧
      (heap.graphEq v heap' v' = true ↔ ∀ w, Contains heap.records [v] w → w.isNaN = false) ∧
      heap'.graphEq v' heap v = heap.graphEq v heap' v' := by
  obtain ⟨t, order, hf, rfl, hu⟩ := Wire.encodeValue_ok.1 h
  rw [Wire.generic_view] at hu
  have hcopy := Wire.renumbering_of_unfolds hu
  refine ⟨t.value, _, Wire.decodeValue_ok.2 ⟨t, hf, ?_, ?_, rfl⟩, hcopy.graphEq_iff,
    Heap.graphEq_comm ..⟩
  · rw [List.data_toByteArray]
  · exact Wire.grows_generic.2 ⟨hu.numbered List.nodup_nil, rfl⟩

/-- Two records that refer to each other. The second one holds a quiet NaN in an array. -/
def tainted : Heap Empty :=
  ⟨#[⟨"T", .record (.ofList [("next", .object (.ofSlot 1))])⟩,
    ⟨"T", .record (.ofList [("next", .object (.ofSlot 0)), ("x", .array [.f32 ⟨0x7fc00000⟩])])⟩]⟩

theorem graphEq_of_encodeValue_tainted : ∃ bytes v' heap',
    (Codec.mk {} .generic).encodeValue (.object (.ofSlot 0)) tainted = .ok bytes ∧
      (Codec.mk {} .generic).decodeValue bytes.data.toList = .ok (v', heap') ∧
      tainted.graphEq (.object (.ofSlot 0)) heap' v' = false ∧
      heap'.graphEq v' tainted (.object (.ofSlot 0)) = false := by
  have h : (Codec.mk {} .generic).encodeValue (.object (.ofSlot 0)) tainted =
      .ok ⟨#[0x0D, 0, 0, 0, 1, 84, 0, 0, 0, 0, 0, 0, 0, 1, 0, 0, 0, 4, 110, 101, 120, 116,
        0x0D, 0, 0, 0, 1, 84, 0, 0, 0, 1, 0, 0, 0, 2, 0, 0, 0, 4, 110, 101, 120, 116, 0x0C, 0, 0, 0, 0,
        0, 0, 0, 1, 120, 0x0A, 0, 0, 0, 1, 6, 0x7f, 0xc0, 0, 0]⟩ := by
    cbv
  obtain ⟨v', heap', hdecode, hiff, hcomm⟩ := graphEq_of_encodeValue h
  have hsecond : Contains tainted.records [.object (.ofSlot 0)] (.object (.ofSlot 1)) :=
    (Contains.root (List.mem_singleton_self _)).field
      (b := ⟨"T", [("next", .object (.ofSlot 1))]⟩) rfl (List.mem_singleton_self _)
  have harray : Contains tainted.records [.object (.ofSlot 0)] (.array [.f32 ⟨0x7fc00000⟩]) :=
    hsecond.field (b := ⟨"T", [("next", .object (.ofSlot 0)), ("x", .array [.f32 ⟨0x7fc00000⟩])]⟩)
      rfl (List.mem_cons_of_mem _ (List.mem_singleton_self _))
  have hnan := harray.part (p := .f32 ⟨0x7fc00000⟩) (List.mem_singleton_self _)
  have hno : tainted.graphEq (.object (.ofSlot 0)) heap' v' = false :=
    Bool.eq_false_iff.2 fun hyes => absurd (hiff.1 hyes _ hnan) (by decide)
  exact ⟨_, v', heap', h, hdecode, hno, hcomm.trans hno⟩

end Codec

end GraphRpc
