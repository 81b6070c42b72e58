import Mathlib
import GraphRpc.Proofs.RoundTrip
import GraphRpc.Proofs.Wire.Spelling

/-!
# Isomorphic graphs

What is encoded is a graph, not how its heap holds it: values whose graphs are the same up to the
renaming of handles have the same bytes, and values with the same bytes have the same graph. Slots
that a value does not lead to have no part in this.
-/

namespace GraphRpc

open Wire

-- ---------------------------------------------------------------------------
-- Renaming
-- ---------------------------------------------------------------------------

namespace Value

section
variable {f g : Handle → Handle} {v : Value}

theorem rename_congr (h : ∀ k ∈ v.handles, f k = g k) : v.rename f = v.rename g := by
  induction v using byParts with
  | step v ih =>
    have hparts (hhandles : v.handles = v.parts.flatMap handles) :
        v.parts.map (rename f) = v.parts.map (rename g) :=
      List.map_congr_left fun p hp => ih p hp fun k hk =>
        h k (hhandles ▸ List.mem_flatMap_of_mem hp hk)
    obtain ⟨s, rfl⟩ | ⟨items, rfl⟩ | ⟨entries, rfl⟩ | ⟨k, rfl⟩ := v.shape
    · rw [rename_scalar, rename_scalar]
    · rw [rename_array, rename_array]
      exact congrArg array (hparts (handles_array items))
    · have hflat := hparts (handles_map entries)
      rw [parts, map_flat, map_flat, flat_inj] at hflat
      rw [rename_map, rename_map, hflat]
    · rw [rename_object, rename_object, h k (by simp)]

theorem rename_rename (f g : Handle → Handle) (v : Value) :
    (v.rename f).rename g = v.rename (g ∘ f) := by
  induction v using byParts with
  | step v ih =>
    have hparts : (v.parts.map (rename f)).map (rename g) = v.parts.map (rename (g ∘ f)) := by
      rw [List.map_map]
      exact List.map_congr_left ih
    obtain ⟨s, rfl⟩ | ⟨items, rfl⟩ | ⟨entries, rfl⟩ | ⟨k, rfl⟩ := v.shape
    · simp only [rename_scalar]
    · rw [rename_array, rename_array, rename_array]
      exact congrArg array hparts
    · rw [parts, map_flat, map_flat, map_flat, flat_inj] at hparts
      rw [rename_map, rename_map, rename_map, hparts]
    · simp only [rename_object, Function.comp_apply]

theorem rename_id (v : Value) : v.rename id = v := by
  induction v using byParts with
  | step v ih =>
    have hparts : v.parts.map (rename id) = v.parts := by
      rw [List.map_congr_left ih, List.map_id']
    obtain ⟨s, rfl⟩ | ⟨items, rfl⟩ | ⟨entries, rfl⟩ | ⟨k, rfl⟩ := v.shape
    · rw [rename_scalar]
    · rw [rename_array]
      exact congrArg array hparts
    · rw [parts, map_flat, flat_inj] at hparts
      rw [rename_map, hparts]
    · rw [rename_object, id]

theorem rename_of_leftInv (h : ∀ k ∈ v.handles, g (f k) = k) : (v.rename f).rename g = v := by
  rw [rename_rename]
  exact (rename_congr h).trans (rename_id v)

end
end Value

namespace Blueprint

variable {f g : Handle → Handle} {b : Blueprint}

theorem rename_congr (h : ∀ k ∈ b.handles, f k = g k) : b.rename f = b.rename g := by
  rw [rename, rename, mk.injEq]
  refine ⟨rfl, List.map_congr_left fun field hfield => ?_⟩
  rw [Value.rename_congr fun k hk => h k (List.mem_flatMap_of_mem hfield hk)]

theorem rename_rename (f g : Handle → Handle) (b : Blueprint) :
    (b.rename f).rename g = b.rename (g ∘ f) := by
  simp only [rename, List.map_map, Function.comp_def, Value.rename_rename]

theorem rename_of_leftInv (h : ∀ k ∈ b.handles, g (f k) = k) : (b.rename f).rename g = b := by
  have hfields : b.fields.map (fun field => (field.1, (field.2.rename f).rename g)) = b.fields.map id :=
    List.map_congr_left fun field hfield => by
      rw [Value.rename_of_leftInv fun k hk => h k (List.mem_flatMap_of_mem hfield hk), id]
  rw [List.map_id] at hfields
  simp only [rename, List.map_map, Function.comp_def, hfields]

end Blueprint

theorem Value.map_rename_of_leftInv {f g : Handle → Handle} {vs : List Value}
    (h : ∀ k ∈ vs.flatMap handles, g (f k) = k) : (vs.map (rename f)).map (rename g) = vs := by
  rw [List.map_map]
  refine (List.map_congr_left fun v hv => ?_).trans (List.map_id vs)
  exact rename_of_leftInv fun k hk => h k (List.mem_flatMap_of_mem hv hk)

-- ---------------------------------------------------------------------------
-- Isomorphisms
-- ---------------------------------------------------------------------------

abbrev Reach (view : View) (vs : List Value) : Set Handle :=
  {h | Reaches view (vs.flatMap Value.handles) h}

/-- Renaming handles by `f` makes `vs` and what they lead to `vs'` and what they lead to. -/
structure Isomorphism (view view' : View) (vs vs' : List Value) (f : Handle → Handle) : Prop where
  bijOn : Set.BijOn f (Reach view vs) (Reach view' vs')
  values : vs' = vs.map (Value.rename f)
  views : ∀ h ∈ Reach view vs, view' (f h) = (view h).map (Blueprint.rename f)

namespace Isomorphism

variable {view view' : View} {roots roots' vs : List Value} {ts : List Tree} {met met' : List Handle}
  {f : Handle → Handle}

theorem symm (h : Isomorphism view view' roots roots' f) : ∃ g, Isomorphism view' view roots' roots g := by
  have hinv := h.bijOn.invOn_invFunOn
  refine ⟨Function.invFunOn f (Reach view roots), h.bijOn.symm hinv.symm, ?_, ?_⟩
  · rw [h.values, Value.map_rename_of_leftInv fun k hk => hinv.1 (.root hk)]
  · intro k hk
    obtain ⟨k, hreach, rfl⟩ := h.bijOn.surjOn hk
    rw [hinv.1 hreach, h.views k hreach]
    cases hview : view k with
    | none => rfl
    | some b =>
      have hback := Blueprint.rename_of_leftInv (b := b) fun g hg => hinv.1 (hreach.field hview hg)
      simp only [Option.map_some, hback]

theorem injOn (h : Isomorphism view view' roots roots' f) (hg : g ∈ Reach view roots)
    (hk : k ∈ Reach view roots) : f g = f k ↔ g = k := h.bijOn.injOn.eq_iff hg hk

theorem mem_map (h : Isomorphism view view' roots roots' f) (hmet : ∀ g ∈ met, g ∈ Reach view roots)
    (hk : k ∈ Reach view roots) : f k ∈ met.map f ↔ k ∈ met := by
  constructor
  · intro hmem
    obtain ⟨g, hg, heq⟩ := List.mem_map.1 hmem
    exact (h.injOn (hmet g hg) hk).1 heq ▸ hg
  · exact List.mem_map_of_mem

theorem rank_map (h : Isomorphism view view' roots roots' f) (hmet : ∀ g ∈ met, g ∈ Reach view roots)
    (hk : k ∈ Reach view roots) : rank (met.map f) (f k) = rank met k := by
  rw [rank, rank]
  congr 1
  induction met with
  | nil => rfl
  | cons g met ih =>
    obtain ⟨hg, hmet⟩ := List.forall_mem_cons.1 hmet
    rw [List.map_cons, List.idxOf_cons, List.idxOf_cons, ih hmet]
    congr 1
    exact decide_eq_decide.2 (h.injOn hg hk)

/-- Isomorphic graphs unfold to the same trees. -/
theorem unfolds (h : Isomorphism view view' roots roots' f) (hu : Unfolds view met vs ts met')
    (hmet : ∀ g ∈ met, g ∈ Reach view roots) (hvs : ∀ g ∈ vs.flatMap Value.handles, g ∈ Reach view roots) :
    Unfolds view' (met.map f) (vs.map (Value.rename f)) ts (met'.map f) := by
  induction hu with
  | nil => exact .nil
  | scalar _ ih =>
    rw [List.map_cons, Value.rename_scalar]
    exact .scalar (ih hmet (by simpa using hvs))
  | array hparts _ ihparts ih =>
    rw [List.flatMap_cons, Value.handles_array, List.forall_mem_append] at hvs
    rw [List.map_cons, Value.rename_array]
    exact .array (ihparts hmet hvs.1) (ih (hparts.encounters.reaches hmet hvs.1) hvs.2)
  | map hparts _ ihparts ih =>
    rw [List.flatMap_cons, Value.handles_map, List.forall_mem_append] at hvs
    have hflat := ihparts hmet hvs.1
    rw [map_flat] at hflat
    rw [List.map_cons, Value.rename_map]
    exact .map hflat (ih (hparts.encounters.reaches hmet hvs.1) hvs.2)
  | ref hmem _ ih =>
    rw [List.flatMap_cons, List.forall_mem_append] at hvs
    rw [List.map_cons, Value.rename_object, ← h.rank_map hmet (hmet _ hmem)]
    exact .ref (List.mem_map_of_mem hmem) (ih hmet hvs.2)
  | @object met mid met' k b fields vs ts hnew hview hnames hfields _ ihfields ih =>
    rw [List.flatMap_cons, Value.handles_object, List.forall_mem_append, List.forall_mem_singleton] at hvs
    obtain ⟨hk, hvs⟩ := hvs
    have hmet' : ∀ g ∈ met ++ [k], g ∈ Reach view roots :=
      List.forall_mem_append.2 ⟨hmet, List.forall_mem_singleton.2 hk⟩
    have hb : ∀ g ∈ (b.fields.map Prod.snd).flatMap Value.handles, g ∈ Reach view roots := by
      rw [List.flatMap_map]
      exact fun g hg => hk.field hview hg
    have hfields' := ihfields hmet' hb
    have hview' : view' (f k) = some (b.rename f) := by rw [h.views k hk, hview]; rfl
    have hnames' : fields.map Prod.fst = (b.rename f).fields.map Prod.fst := by
      rw [hnames, Blueprint.rename, List.map_map]
      rfl
    have hvalues : (b.rename f).fields.map Prod.snd = (b.fields.map Prod.snd).map (Value.rename f) := by
      rw [Blueprint.rename, List.map_map, List.map_map]
      rfl
    rw [List.map_append, List.map_singleton, ← hvalues] at hfields'
    -- No other object is renamed to the same handle, so this one is new on the other side too.
    have hobject := Unfolds.object (mt (h.mem_map hmet hk).1 hnew) hview' hnames' hfields'
      (ih (hfields.encounters.reaches hmet' hb) hvs)
    rw [List.length_map] at hobject
    rw [List.map_cons, Value.rename_object]
    exact hobject

end Isomorphism

-- ---------------------------------------------------------------------------
-- Graphs with the same trees
-- ---------------------------------------------------------------------------

namespace Wire

variable {view view' : View} {vs vs' : List Value} {ts : List Tree} {order order' : List Handle}

/-- The object that has a number when those in `order` are numbered. -/
def behind (order : List Handle) (number : Handle) : Handle := order[number.slot]?.getD default

theorem behind_rank (hn : order.Nodup) (hh : h ∈ order) : behind order (rank order h) = h := by
  rw [behind, slot_rank hn hh, List.getElem?_eq_getElem (List.idxOf_lt_length_of_mem hh),
    Option.getD_some, List.getElem_idxOf]

theorem rank_behind (hn : order.Nodup) (hlt : number.slot < order.length) :
    behind order number ∈ order ∧ rank order (behind order number) = number := by
  have hbehind : behind order number = order[number.slot] := by
    rw [behind, List.getElem?_eq_getElem hlt, Option.getD_some]
  rw [hbehind, rank, hn.idxOf_getElem _ hlt, Handle.ofSlot_slot]
  exact ⟨List.getElem_mem hlt, rfl⟩

/-- Of two numberings of the same length, the object in one that has the number of an object in the
other. -/
def counterpart (order order' : List Handle) (h : Handle) : Handle := behind order' (rank order h)

theorem rank_counterpart (hn : order.Nodup) (hn' : order'.Nodup) (hlen : order.length = order'.length)
    (hh : h ∈ order) : counterpart order order' h ∈ order' ∧
      rank order' (counterpart order order' h) = rank order h := by
  refine rank_behind hn' ?_
  rw [slot_rank hn hh, ← hlen]
  exact List.idxOf_lt_length_of_mem hh

theorem bijOn_counterpart (hn : order.Nodup) (hn' : order'.Nodup)
    (hlen : order.length = order'.length) :
    Set.BijOn (counterpart order order') {h | h ∈ order} {h | h ∈ order'} := by
  have hback {order order' : List Handle} (hn : order.Nodup) (hn' : order'.Nodup)
      (hlen : order.length = order'.length) :
      Set.LeftInvOn (counterpart order' order) (counterpart order order') {h | h ∈ order} := by
    intro h hh
    rw [counterpart, (rank_counterpart hn hn' hlen hh).2, behind_rank hn hh]
  exact Set.InvOn.bijOn ⟨hback hn hn' hlen, hback hn' hn hlen.symm⟩
    (fun h hh => (rank_counterpart hn hn' hlen hh).1)
    (fun h hh => (rank_counterpart hn' hn hlen.symm hh).1)

/-- Graphs that unfold to the same trees are isomorphic. -/
theorem isomorphism_of_unfolds (hu : Unfolds view [] vs ts order) (hu' : Unfolds view' [] vs' ts order') :
    Isomorphism view view' vs vs' (counterpart order order') := by
  have hn := hu.encounters.nodup List.nodup_nil
  have hn' := hu'.encounters.nodup List.nodup_nil
  have hlen : order.length = order'.length := hu.length_objects.trans hu'.length_objects.symm
  have hreach : Reach view vs = {h | h ∈ order} :=
    Set.ext fun _ => hu.encounters.mem_iff_reaches.symm
  have hreach' : Reach view' vs' = {h | h ∈ order'} :=
    Set.ext fun _ => hu'.encounters.mem_iff_reaches.symm
  constructor
  case bijOn =>
    rw [hreach, hreach']
    exact bijOn_counterpart hn hn' hlen
  case values =>
    have hvalues := (hu'.values List.prefix_rfl).symm.trans (hu.values List.prefix_rfl)
    have hbehind : ∀ k ∈ vs'.flatMap Value.handles, behind order' (rank order' k) = k :=
      fun k hk => behind_rank hn' (hu'.encounters.next_subset hk)
    have hback := Value.map_rename_of_leftInv hbehind
    rw [← hback, hvalues, List.map_map]
    exact List.map_congr_left fun v _ => Value.rename_rename ..
  case views =>
    rw [hreach]
    intro h hh
    obtain ⟨hmem, hrank⟩ := rank_counterpart hn hn' hlen hh
    have hidx : order'.idxOf (counterpart order order' h) = order.idxOf h := by
      rw [← slot_rank hn' hmem, hrank, slot_rank hn hh]
    obtain ⟨b, i, hview, hi, hb, -⟩ := hu.object_at hh List.not_mem_nil
    obtain ⟨b', i', hview', hi', hb', hsub⟩ := hu'.object_at hmem List.not_mem_nil
    rw [hidx, hi] at hi'
    obtain rfl := Nat.add_left_cancel hi'
    rw [hb, Option.some.injEq] at hb'
    have hback := Blueprint.rename_of_leftInv fun k hk => behind_rank hn' (hsub hk)
    rw [hview, hview', ← hback, ← hb', Blueprint.rename_rename]
    rfl

end Wire

-- ---------------------------------------------------------------------------
-- Bytes
-- ---------------------------------------------------------------------------

variable {α : Type} {heap heap' : Heap α} {v v' : Value}

/-- The objects that two values lead to are the same up to the renaming of handles. -/
def Isomorphic (heap heap' : Heap α) (v v' : Value) : Prop :=
  ∃ f, Isomorphism heap.records heap'.records [v] [v'] f

theorem Isomorphic.symm (h : Isomorphic heap heap' v v') : Isomorphic heap' heap v' v := by
  obtain ⟨f, hf⟩ := h
  exact hf.symm

namespace Codec

variable {limits : Limits}

theorem encodeValue_of_isomorphic (h : Isomorphic heap heap' v v')
    (hv : (Codec.mk limits .generic).encodeValue v heap = .ok bytes) :
    (Codec.mk limits .generic).encodeValue v' heap' = .ok bytes := by
  obtain ⟨f, hf⟩ := h
  obtain ⟨t, order, hfits, hbytes, hu⟩ := encodeValue_ok.1 hv
  rw [generic_view] at hu
  have hu' := hf.unfolds hu nofun fun g hg => .root hg
  rw [← hf.values, List.map_nil] at hu'
  exact encodeValue_ok.2 ⟨t, _, hfits, hbytes, by rw [generic_view]; exact hu'⟩

theorem isomorphic_of_encodeValue (hv : (Codec.mk limits .generic).encodeValue v heap = .ok bytes)
    (hv' : (Codec.mk limits .generic).encodeValue v' heap' = .ok bytes) : Isomorphic heap heap' v v' := by
  obtain ⟨t, order, hfits, hbytes, hu⟩ := encodeValue_ok.1 hv
  obtain ⟨t', order', hfits', hbytes', hu'⟩ := encodeValue_ok.1 hv'
  rw [generic_view] at hu hu'
  have hspell : t.spell ++ [] = t'.spell ++ [] :=
    congrArg (· ++ []) (List.toByteArray_inj.1 (hbytes.symm.trans hbytes'))
  obtain ⟨rfl, -⟩ := t.spell_append_inj t' hfits.sized hfits'.sized [] [] hspell
  exact ⟨_, isomorphism_of_unfolds hu hu'⟩

/-- Isomorphic graphs are encoded alike, or neither of them is, and only isomorphic graphs are encoded
as the same bytes. -/
theorem encodeValue_isomorphic (limits : Limits) (heap heap' : Heap α) (v v' : Value) :
    (Isomorphic heap heap' v v' → ∀ bytes,
      (Codec.mk limits .generic).encodeValue v heap = .ok bytes ↔
        (Codec.mk limits .generic).encodeValue v' heap' = .ok bytes) ∧
    (∀ bytes, (Codec.mk limits .generic).encodeValue v heap = .ok bytes →
      (Codec.mk limits .generic).encodeValue v' heap' = .ok bytes → Isomorphic heap heap' v v') :=
  ⟨fun h _ => ⟨encodeValue_of_isomorphic h, encodeValue_of_isomorphic h.symm⟩,
    fun _ => isomorphic_of_encodeValue⟩

def displacedKnot : Heap Empty :=
  ⟨#[⟨"U", .record .empty⟩, ⟨"T", .record (.ofList [("me", .object (.ofSlot 1))])⟩]⟩

theorem encodeValue_isomorphic_knot : ∃ bytes,
    (Codec.mk {} .generic).encodeValue (.object (.ofSlot 0)) knot = .ok bytes ∧
      (Codec.mk {} .generic).encodeValue (.object (.ofSlot 1)) displacedKnot = .ok bytes ∧
      Isomorphic knot displacedKnot (.object (.ofSlot 0)) (.object (.ofSlot 1)) ∧
      ∀ bytes', (Codec.mk { maxDepth := 0 } .generic).encodeValue (.object (.ofSlot 0)) knot = .ok bytes' ↔
        (Codec.mk { maxDepth := 0 } .generic).encodeValue (.object (.ofSlot 1)) displacedKnot = .ok bytes' := by
  have h : (Codec.mk {} .generic).encodeValue (.object (.ofSlot 0)) knot =
      .ok ⟨#[0x0D, 0, 0, 0, 1, 84, 0, 0, 0, 0, 0, 0, 0, 1, 0, 0, 0, 2, 109, 101, 0x0C, 0, 0, 0, 0]⟩ := by
    cbv
  have h' : (Codec.mk {} .generic).encodeValue (.object (.ofSlot 1)) displacedKnot =
      .ok ⟨#[0x0D, 0, 0, 0, 1, 84, 0, 0, 0, 0, 0, 0, 0, 1, 0, 0, 0, 2, 109, 101, 0x0C, 0, 0, 0, 0]⟩ := by
    cbv
  have hiso := (encodeValue_isomorphic _ _ _ _ _).2 _ h h'
  exact ⟨_, h, h', hiso, (encodeValue_isomorphic _ _ _ _ _).1 hiso⟩

end Codec
end GraphRpc
