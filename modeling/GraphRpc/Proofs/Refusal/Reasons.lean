import Mathlib
import GraphRpc.Proofs.Refusal.Walk
import GraphRpc.Proofs.Wire.Records

/-!
# Why a value has no encoding

The encoder refuses a value only if there is something in it that cannot be encoded, and says what it
is. What the value leads to decides on this, whatever the order; only how deep it nests depends on where
the walk first meets each object.
-/

namespace GraphRpc

open Wire

variable {α : Type}

-- ---------------------------------------------------------------------------
-- What can be encoded
-- ---------------------------------------------------------------------------

/-- The lengths that have to do with the encoding of a value: those of the values and of the objects
that it leads to, and the nesting wherever the walk goes into something. -/
inductive Measured (limits : Limits) (heap : Heap α) (v : Value) : Extent → Prop
  | value (h : Contains heap.records [v] w) (hx : x ∈ w.extents limits) : Measured limits heap v x
  | object (h : Contains heap.records [v] (.object g)) (hg : heap.records g = some b)
      (hx : x ∈ b.extents limits) : Measured limits heap v x
  | nesting (h : Walks heap.records (.start v) s) (hx : x ∈ s.nesting limits) :
      Measured limits heap v x

/-- There is a record behind every handle, and all lengths keep their limits. -/
structure Value.Encodable (limits : Limits) (heap : Heap α) (v : Value) : Prop where
  records : ∀ g, Contains heap.records [v] (.object g) → (heap.record? g).isSome
  measured : ∀ x, Measured limits heap v x → x.Kept

/-- What the failure says is so: a handle that goes nowhere, an object that is not a record, or a length
beyond its limit. There are no other failures. -/
def Warranted (limits : Limits) (heap : Heap α) (v : Value) : CodecFault → Prop
  | .invalid why => ∃ g, Contains heap.records [v] (.object g) ∧ heap.slot? g = none ∧
      why = .danglingHandle g.index
  | .fieldAccess why => ∃ g slot, Contains heap.records [v] (.object g) ∧
      heap.slot? g = some slot ∧ slot.object.isRecord = false ∧ why = .unreadable slot.typeName
  | .sizeLimit what len bound => Measured limits heap v ⟨what, len, bound⟩ ∧
      ¬ (Extent.mk what len bound).Kept
  | .unknownTag _ | .unresolvedReference _ => False

theorem Value.Encodable.not_warranted {limits : Limits} {heap : Heap α}
    (h : v.Encodable limits heap) : ¬ Warranted limits heap v fault := by
  intro hfault
  cases fault with
  | invalid why =>
    obtain ⟨g, hg, hslot, -⟩ := hfault
    have hrecord := h.records g hg
    simp [Heap.record?, Heap.object?, hslot] at hrecord
  | fieldAccess why =>
    obtain ⟨g, slot, hg, hslot, hobject, -⟩ := hfault
    have hrecord := h.records g hg
    rw [Heap.record?, Heap.object?, hslot] at hrecord
    exact Bool.noConfusion (hobject.symm.trans hrecord)
  | sizeLimit what len bound => exact hfault.2 (h.measured _ hfault.1)
  | unknownTag byte => exact hfault
  | unresolvedReference id => exact hfault

-- ---------------------------------------------------------------------------
-- Walks without an objection
-- ---------------------------------------------------------------------------

structure Walk.Sound (limits : Limits) (view : View) (s : Walk) : Prop where
  nesting : ∀ x ∈ s.nesting limits, x.Kept
  value : ∀ d w, s.current = some (d, w) → ∀ x ∈ w.extents limits, x.Kept
  object : ∀ d g, s.current = some (d, .object g) →
    ∃ b, view g = some b ∧ ∀ x ∈ b.extents limits, x.Kept

/-- The walk goes from one state to the other, and what it goes into before the other is sound. -/
def Clears (limits : Limits) (view : View) (s s' : Walk) : Prop :=
  Walks view s s' ∧ ∀ m, Walks view s m → m.Sound limits view ∨ Walks view s' m

section
variable {limits : Limits} {view : View} {s s' m : Walk} {met met' : List Handle}
  {next : List (Nat × Value)}

theorem Clears.refl (s : Walk) : Clears limits view s s := ⟨.refl s, fun _ hm => .inr hm⟩

theorem Clears.head (hsound : s.Sound limits view) (hs : s.step view = some m)
    (h : Clears limits view m s') : Clears limits view s s' := by
  refine ⟨h.1.head hs, fun n hn => ?_⟩
  rcases Walks.cases_step hs hn with rfl | hn
  · exact .inl hsound
  · exact h.2 n hn

theorem Clears.trans (h : Clears limits view s m) (h' : Clears limits view m s') :
    Clears limits view s s' := by
  refine ⟨h.1.trans h'.1, fun n hn => ?_⟩
  rcases h.2 n hn with hsound | hn
  · exact .inl hsound
  · exact h'.2 n hn

theorem Walk.sound_parts (hv : ∀ h, v ≠ .object h)
    (hnesting : (∃ s : Scalar, v = s.value) ∨ Within (d + 1) limits.maxDepth)
    (hvalue : ∀ x ∈ v.extents limits, x.Kept) : Walk.Sound limits view ⟨met, (d, v) :: next⟩ := by
  have hcurrent : Walk.current ⟨met, (d, v) :: next⟩ = some (d, v) := current_fresh fun h _ => hv h
  refine ⟨?_, fun d' w hw => ?_, fun d' g hg => ?_⟩
  · by_cases hs : ∃ s : Scalar, v = s.value
    · obtain ⟨s, rfl⟩ := hs
      rw [nesting_scalar]
      exact List.forall_mem_nil _
    · rw [nesting_eq hcurrent fun s heq => hs ⟨s, heq⟩]
      exact List.forall_mem_singleton.2 (hnesting.resolve_left hs)
  · rw [hcurrent] at hw
    cases hw
    exact hvalue
  · rw [hcurrent] at hg
    exact (hv g (Prod.mk.inj (Option.some.inj hg)).2).elim

theorem Walk.sound_again (hh : h ∈ met) :
    Walk.Sound limits view ⟨met, (d, .object h) :: next⟩ := by
  have hcurrent : Walk.current ⟨met, (d, .object h) :: next⟩ = none := current_again hh
  refine ⟨?_, fun d' w hw => ?_, fun d' g hg => ?_⟩
  · rw [Walk.nesting, hcurrent]
    exact List.forall_mem_nil _
  · rw [hcurrent] at hw
    cases hw
  · rw [hcurrent] at hg
    cases hg

theorem Walk.sound_first (hh : h ∉ met) (hnesting : Within (d + 1) limits.maxDepth)
    (hview : view h = some b) (hb : ∀ x ∈ b.extents limits, x.Kept) :
    Walk.Sound limits view ⟨met, (d, .object h) :: next⟩ := by
  have hcurrent : Walk.current ⟨met, (d, .object h) :: next⟩ = some (d, .object h) := current_first hh
  refine ⟨?_, fun d' w hw => ?_, fun d' g hg => ?_⟩
  · rw [Walk.nesting, hcurrent]
    exact List.forall_mem_singleton.2 hnesting
  · rw [hcurrent] at hw
    cases hw
    exact List.forall_mem_nil _
  · rw [hcurrent] at hg
    cases hg
    exact ⟨b, hview, hb⟩

/-- The way through values that unfold to trees that keep the limits. -/
theorem Wire.Unfolds.clears (h : Unfolds view met vs ts met')
    (hf : ∀ t ∈ ts, t.Fits limits room) (hroom : d + room = min limits.maxDepth maxWord) :
    Clears limits view ⟨met, vs.map (d, ·) ++ next⟩ ⟨met', next⟩ := by
  have hnesting {d r : Nat} (hr : d + (r + 1) = min limits.maxDepth maxWord) :
      Within (d + 1) limits.maxDepth := by
    unfold Within
    omega
  -- Depth and room add up to the limit, so what there is room for nests within it.
  induction h generalizing d room next with
  | nil => exact .refl _
  | @scalar _ _ _ _ s _ ih =>
    obtain ⟨ht, hts⟩ := List.forall_mem_cons.1 hf
    have hobject (h : Handle) := Scalar.value_ne_object (s := s) (h := h)
    have hvalue := Scalar.bounded_iff.1 (Tree.fits_scalar.1 ht)
    refine .head (Walk.sound_parts hobject (.inl ⟨s, rfl⟩) hvalue) (Walk.step_parts hobject) ?_
    rw [Value.parts_scalar]
    exact ih hts hroom
  | array hparts _ ihparts ih =>
    obtain ⟨ht, hts⟩ := List.forall_mem_cons.1 hf
    cases room with
    | zero => exact (Tree.not_fits_zero (by simp) (by simp) ht).elim
    | succ r =>
      obtain ⟨hlen, hfs⟩ := Tree.fits_array.1 ht
      rw [hparts.length] at hlen
      refine .head (Walk.sound_parts (by simp) (.inr (hnesting hroom)) ?_) (Walk.step_parts (by simp))
        ((ihparts hfs (by omega)).trans (ih hts hroom))
      exact List.forall_mem_singleton.2 hlen
  | map hparts _ ihparts ih =>
    obtain ⟨ht, hts⟩ := List.forall_mem_cons.1 hf
    cases room with
    | zero => exact (Tree.not_fits_zero (by simp) (by simp) ht).elim
    | succ r =>
      obtain ⟨hlen, hfs⟩ := Tree.fits_map.1 ht
      have hlength := hparts.length
      rw [length_flat, length_flat] at hlength
      rw [Nat.eq_of_mul_eq_mul_left Nat.two_pos hlength] at hlen
      refine .head (Walk.sound_parts (by simp) (.inr (hnesting hroom)) ?_) (Walk.step_parts (by simp))
        ((ihparts hfs (by omega)).trans (ih hts hroom))
      exact List.forall_mem_singleton.2 hlen
  | ref hh _ ih =>
    obtain ⟨-, hts⟩ := List.forall_mem_cons.1 hf
    exact .head (Walk.sound_again hh) (Walk.step_again hh) (ih hts hroom)
  | @object _ _ _ h b fields _ _ hh hview hnames _ _ ihfields ih =>
    obtain ⟨ht, hts⟩ := List.forall_mem_cons.1 hf
    cases room with
    | zero => exact (Tree.not_fits_zero (by simp) (by simp) ht).elim
    | succ r =>
      obtain ⟨hlen, htype, hbounded, hfs⟩ := Tree.fits_object.1 ht
      have hb : ∀ x ∈ b.extents limits, x.Kept := by
        refine Blueprint.extents_kept.2 ⟨?_, htype, fun name hname => ?_⟩
        · rwa [← List.length_map (f := Prod.fst), ← hnames, List.length_map]
        · rw [← hnames] at hname
          obtain ⟨f, hf, rfl⟩ := List.mem_map.1 hname
          exact hbounded f hf
      have hbehind : Walk.behind view (d + 1) h = (b.fields.map Prod.snd).map (d + 1, ·) := by
        rw [Walk.behind, hview, List.map_map]
        rfl
      refine .head (Walk.sound_first hh (hnesting hroom) hview hb) (Walk.step_first hh) ?_
      rw [hbehind]
      exact (ihfields hfs (by omega)).trans (ih hts hroom)

theorem Clears.sound (h : Clears limits view s s') (hs : s'.next = []) (hm : Walks view s m)
    (hcurrent : m.current = some p) : m.Sound limits view := by
  rcases h.2 m hm with hsound | hm
  · exact hsound
  · obtain ⟨next, hnext⟩ := Walk.current_eq_some hcurrent
    rw [Walks.eq_of_done hs hm, hs] at hnext
    cases hnext

end

/-- A walk that comes to its end without an objection has seen all that the value leads to. -/
theorem Clears.encodable {limits : Limits} {heap : Heap α}
    (h : Clears limits heap.records (.start v) s) (hs : s.next = []) : v.Encodable limits heap := by
  have hobject {g : Handle} (hg : Contains heap.records [v] (.object g)) :
      ∃ b, heap.records g = some b ∧ ∀ x ∈ b.extents limits, x.Kept := by
    obtain ⟨m, d, hm, hcurrent⟩ := hg.enters h.1 hs
    exact (h.sound hs hm hcurrent).object d g hcurrent
  constructor
  case records =>
    intro g hg
    obtain ⟨b, hb, -⟩ := hobject hg
    obtain ⟨-, r, hr, -⟩ := Heap.records_eq_some.1 hb
    exact Option.isSome_iff_exists.2 ⟨r, hr⟩
  case measured =>
    intro x hx
    cases hx with
    | value hw hx =>
      obtain ⟨m, d, hm, hcurrent⟩ := hw.enters h.1 hs
      exact (h.sound hs hm hcurrent).value d _ hcurrent x hx
    | object hg hb hx =>
      obtain ⟨b', hb', hkept⟩ := hobject hg
      cases hb.symm.trans hb'
      exact hkept x hx
    | @nesting m x hm hx =>
      cases hcurrent : m.current with
      | none =>
        rw [Walk.nesting, hcurrent] at hx
        cases hx
      | some p => exact (h.sound hs hm hcurrent).nesting x hx

end GraphRpc
