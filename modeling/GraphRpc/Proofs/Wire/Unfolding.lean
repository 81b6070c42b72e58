import Mathlib
import GraphRpc.Proofs.Wire.Tree

/-!
# Unfolding graphs

Which trees some values have on the wire, given the objects that were met before. Unfolding walks
the graph depth first: the objects it numbers are those that the walk meets, in that order, and the
trees are the values and objects with their handles replaced by these numbers.
-/

namespace GraphRpc.Wire

/-- The number of an object on the wire: its position among the objects met. -/
def rank (met : List Handle) (h : Handle) : Handle := .ofSlot (met.idxOf h)

/-- The trees of some values, when the objects in `met` have been numbered before and those in `met'`
are numbered after. -/
inductive Unfolds (view : View) :
    (met : List Handle) → List Value → List Tree → (met' : List Handle) → Prop
  | nil : Unfolds view met [] [] met
  | scalar : Unfolds view met vs ts met' → Unfolds view met (s.value :: vs) (.scalar s :: ts) met'
  | array : Unfolds view met items parts mid → Unfolds view mid vs ts met' →
      Unfolds view met (.array items :: vs) (.array parts :: ts) met'
  | map : Unfolds view met (flat entries) (flat parts) mid → Unfolds view mid vs ts met' →
      Unfolds view met (.map entries :: vs) (.map parts :: ts) met'
  | ref : h ∈ met → Unfolds view met vs ts met' →
      Unfolds view met (.object h :: vs) (.ref (rank met h) :: ts) met'
  | object {met mid met' h b fields vs ts} : h ∉ met → view h = some b →
      fields.map Prod.fst = b.fields.map Prod.fst →
      Unfolds view (met ++ [h]) (b.fields.map Prod.snd) (fields.map Prod.snd) mid →
      Unfolds view mid vs ts met' →
      Unfolds view met (.object h :: vs) (.object b.typeName (.ofSlot met.length) fields :: ts) met'

variable {view : View} {met mid met' order : List Handle} {vs : List Value} {ts : List Tree}

-- ---------------------------------------------------------------------------
-- Lists of values
-- ---------------------------------------------------------------------------

theorem unfolds_nil : Unfolds view met [] ts met' ↔ ts = [] ∧ met' = met := by
  constructor
  · intro h
    cases h
    exact ⟨rfl, rfl⟩
  · rintro ⟨rfl, rfl⟩
    exact .nil

theorem Unfolds.cons (hv : Unfolds view met [v] [t] mid) (hvs : Unfolds view mid vs ts met') :
    Unfolds view met (v :: vs) (t :: ts) met' := by
  cases hv with
  | scalar hnil =>
    obtain ⟨-, rfl⟩ := unfolds_nil.1 hnil
    exact .scalar hvs
  | array hparts hnil =>
    obtain ⟨-, rfl⟩ := unfolds_nil.1 hnil
    exact .array hparts hvs
  | map hparts hnil =>
    obtain ⟨-, rfl⟩ := unfolds_nil.1 hnil
    exact .map hparts hvs
  | ref hmem hnil =>
    obtain ⟨-, rfl⟩ := unfolds_nil.1 hnil
    exact .ref hmem hvs
  | object hnew hview hnames hfields hnil =>
    obtain ⟨-, rfl⟩ := unfolds_nil.1 hnil
    exact .object hnew hview hnames hfields hvs

theorem unfolds_cons : Unfolds view met (v :: vs) ts met' ↔ ∃ t us mid, ts = t :: us ∧
    Unfolds view met [v] [t] mid ∧ Unfolds view mid vs us met' := by
  constructor
  · intro h
    cases h with
    | scalar hvs => exact ⟨_, _, _, rfl, .scalar .nil, hvs⟩
    | array hparts hvs => exact ⟨_, _, _, rfl, .array hparts .nil, hvs⟩
    | map hparts hvs => exact ⟨_, _, _, rfl, .map hparts .nil, hvs⟩
    | ref hmem hvs => exact ⟨_, _, _, rfl, .ref hmem .nil, hvs⟩
    | object hnew hview hnames hfields hvs =>
      exact ⟨_, _, _, rfl, .object hnew hview hnames hfields .nil, hvs⟩
  · rintro ⟨t, us, mid, rfl, hv, hvs⟩
    exact hv.cons hvs

theorem Unfolds.length (h : Unfolds view met vs ts met') : ts.length = vs.length := by
  induction h with
  | nil => rfl
  | scalar _ ih => simp [ih]
  | array _ _ _ ih => simp [ih]
  | map _ _ _ ih => simp [ih]
  | ref _ _ ih => simp [ih]
  | object _ _ _ _ _ _ ih => simp [ih]

-- ---------------------------------------------------------------------------
-- Single values
-- ---------------------------------------------------------------------------

theorem unfolds_scalar {s : Scalar} :
    Unfolds view met [s.value] ts met' ↔ ts = [.scalar s] ∧ met' = met := by
  constructor
  · intro h
    generalize hv : s.value = v at h
    cases h with
    | scalar hnil =>
      obtain rfl := Scalar.value_inj.1 hv
      obtain ⟨rfl, rfl⟩ := unfolds_nil.1 hnil
      exact ⟨rfl, rfl⟩
    | array => exact (Scalar.value_ne_array hv).elim
    | map => exact (Scalar.value_ne_map hv).elim
    | _ => exact (Scalar.value_ne_object hv).elim
  · rintro ⟨rfl, rfl⟩
    exact .scalar .nil

theorem unfolds_array : Unfolds view met [.array items] ts met' ↔
    ∃ parts, ts = [.array parts] ∧ Unfolds view met items parts met' := by
  constructor
  · intro h
    generalize hv : Value.array items = v at h
    cases h with
    | scalar => exact (Scalar.value_ne_array hv.symm).elim
    | array hparts hnil =>
      cases hv
      obtain ⟨rfl, rfl⟩ := unfolds_nil.1 hnil
      exact ⟨_, rfl, hparts⟩
    | _ => cases hv
  · rintro ⟨parts, rfl, hparts⟩
    exact .array hparts .nil

theorem unfolds_map : Unfolds view met [.map entries] ts met' ↔
    ∃ parts, ts = [.map parts] ∧ Unfolds view met (flat entries) (flat parts) met' := by
  constructor
  · intro h
    generalize hv : Value.map entries = v at h
    cases h with
    | scalar => exact (Scalar.value_ne_map hv.symm).elim
    | map hparts hnil =>
      cases hv
      obtain ⟨rfl, rfl⟩ := unfolds_nil.1 hnil
      exact ⟨_, rfl, hparts⟩
    | _ => cases hv
  · rintro ⟨parts, rfl, hparts⟩
    exact .map hparts .nil

theorem unfolds_ref (hh : h ∈ met) :
    Unfolds view met [.object h] ts met' ↔ ts = [.ref (rank met h)] ∧ met' = met := by
  constructor
  · intro hu
    generalize hv : Value.object h = v at hu
    cases hu with
    | scalar => exact (Scalar.value_ne_object hv.symm).elim
    | ref _ hnil =>
      cases hv
      obtain ⟨rfl, rfl⟩ := unfolds_nil.1 hnil
      exact ⟨rfl, rfl⟩
    | object hnew =>
      cases hv
      exact (hnew hh).elim
    | _ => cases hv
  · rintro ⟨rfl, rfl⟩
    exact .ref hh .nil

theorem unfolds_object (hh : h ∉ met) : Unfolds view met [.object h] ts met' ↔
    ∃ b fields, ts = [.object b.typeName (.ofSlot met.length) fields] ∧ view h = some b ∧
      fields.map Prod.fst = b.fields.map Prod.fst ∧
      Unfolds view (met ++ [h]) (b.fields.map Prod.snd) (fields.map Prod.snd) met' := by
  constructor
  · intro hu
    generalize hv : Value.object h = v at hu
    cases hu with
    | scalar => exact (Scalar.value_ne_object hv.symm).elim
    | ref hmem =>
      cases hv
      exact (hh hmem).elim
    | object _ hview hnames hfields hnil =>
      cases hv
      obtain ⟨rfl, rfl⟩ := unfolds_nil.1 hnil
      exact ⟨_, _, rfl, hview, hnames, hfields⟩
    | _ => cases hv
  · rintro ⟨b, fields, rfl, hview, hnames, hfields⟩
    exact .object hh hview hnames hfields .nil

-- ---------------------------------------------------------------------------
-- The walk
-- ---------------------------------------------------------------------------

theorem Unfolds.encounters (h : Unfolds view met vs ts met') :
    Encounters view met (vs.flatMap Value.handles) met' := by
  induction h with
  | nil => exact .done
  | scalar _ ih => simpa using ih
  | array _ _ ihparts ih =>
    rw [List.flatMap_cons, Value.handles_array]
    exact ihparts.append ih
  | map _ _ ihparts ih =>
    rw [List.flatMap_cons, Value.handles_map]
    exact ihparts.append ih
  | ref hmem _ ih =>
    rw [List.flatMap_cons, Value.handles_object]
    exact .again hmem ih
  | object hnew hview _ _ _ ihfields ih =>
    rw [List.flatMap_cons, Value.handles_object]
    rw [List.flatMap_map] at ihfields
    exact .first hnew hview (ihfields.append ih)

theorem rank_of_prefix (hp : met <+: order) (hh : h ∈ met) : rank met h = rank order h := by
  obtain ⟨rest, rfl⟩ := hp
  rw [rank, rank, List.idxOf_append_of_mem hh]

theorem rank_next (hp : met ++ [h] <+: order) (hh : h ∉ met) : .ofSlot met.length = rank order h := by
  rw [← rank_of_prefix hp (by simp), rank, List.idxOf_append_of_notMem hh]
  simp

theorem length_le_of_nodup (hn : met.Nodup) : met.length ≤ 256 ^ 4 := by
  have hslots : (met.map Handle.slot).Nodup := List.Nodup.map (fun _ _ => Handle.slot_inj.1) hn
  have hsub : met.map Handle.slot ⊆ List.range (256 ^ 4) := by
    intro n hmem
    obtain ⟨h, -, rfl⟩ := List.mem_map.1 hmem
    exact List.mem_range.2 h.slot_lt
  calc met.length = (met.map Handle.slot).length := List.length_map _ |>.symm
    _ ≤ (List.range (256 ^ 4)).length := (hslots.subperm hsub).length_le
    _ = 256 ^ 4 := List.length_range

theorem length_lt_of_notMem (hn : met.Nodup) (hh : h ∉ met) : met.length < 256 ^ 4 := by
  have hlen := length_le_of_nodup (List.nodup_cons.2 ⟨hh, hn⟩)
  rw [List.length_cons] at hlen
  omega

theorem slot_rank (hn : met.Nodup) (hh : h ∈ met) : (rank met h).slot = met.idxOf h := by
  have hlt := List.idxOf_lt_length_of_mem hh
  have hlen := length_le_of_nodup hn
  exact Handle.slot_ofSlot (by omega)

-- ---------------------------------------------------------------------------
-- The trees
-- ---------------------------------------------------------------------------

/-- The trees stand for the values with their objects numbered. -/
theorem Unfolds.values (h : Unfolds view met vs ts met') (ho : met' <+: order) :
    ts.map Tree.value = vs.map (Value.rename (rank order)) := by
  induction h with
  | nil => rfl
  | scalar _ ih => rw [List.map_cons, List.map_cons, ih ho, Tree.value, Value.rename_scalar]
  | array _ hvs ihparts ih =>
    rw [List.map_cons, List.map_cons, ih ho, Tree.value, Value.rename_array,
      ihparts (hvs.encounters.met_prefix.trans ho)]
  | map _ hvs ihparts ih =>
    have hparts := ihparts (hvs.encounters.met_prefix.trans ho)
    rw [map_flat, map_flat, flat_inj] at hparts
    rw [List.map_cons, List.map_cons, ih ho, Tree.value, Value.rename_map, hparts]
  | ref hmem hvs ih =>
    rw [List.map_cons, List.map_cons, ih ho, Tree.value, Value.rename_object,
      rank_of_prefix (hvs.encounters.met_prefix.trans ho) hmem]
  | object hnew _ _ hfields hvs _ ih =>
    have hp := hfields.encounters.met_prefix.trans (hvs.encounters.met_prefix.trans ho)
    rw [List.map_cons, List.map_cons, ih ho, Tree.value, Value.rename_object, rank_next hp hnew]

/-- What stands in full are the objects that the walk meets, with their objects numbered. -/
theorem Unfolds.objects (h : Unfolds view met vs ts met') (ho : met' <+: order) :
    ∃ new, met' = met ++ new ∧
      List.Forall₂ (fun h b => ∃ b₀, view h = some b₀ ∧ b = b₀.rename (rank order)) new (objects ts) := by
  induction h with
  | nil => exact ⟨[], (List.append_nil _).symm, .nil⟩
  | scalar _ ih =>
    rw [objects_cons, objects_parts rfl]
    exact ih ho
  | array _ hvs ihparts ih =>
    obtain ⟨new, rfl, hnew⟩ := ihparts (hvs.encounters.met_prefix.trans ho)
    obtain ⟨new', rfl, hnew'⟩ := ih ho
    rw [objects_cons, objects_parts rfl]
    exact ⟨new ++ new', List.append_assoc .., List.rel_append hnew hnew'⟩
  | map _ hvs ihparts ih =>
    obtain ⟨new, rfl, hnew⟩ := ihparts (hvs.encounters.met_prefix.trans ho)
    obtain ⟨new', rfl, hnew'⟩ := ih ho
    rw [objects_cons, objects_parts rfl]
    exact ⟨new ++ new', List.append_assoc .., List.rel_append hnew hnew'⟩
  | ref _ _ ih =>
    rw [objects_cons, objects_parts rfl]
    exact ih ho
  | @object met mid met' h b fields vs ts _ hview hnames hfields hvs ihfields ih =>
    have hp := hvs.encounters.met_prefix.trans ho
    obtain ⟨new, rfl, hnew⟩ := ihfields hp
    obtain ⟨new', rfl, hnew'⟩ := ih ho
    have hvalues := hfields.values hp
    rw [List.map_map, List.map_map] at hvalues
    rw [objects_cons, objects_object]
    refine ⟨h :: (new ++ new'), by simp, .cons ⟨b, hview, ?_⟩ (List.rel_append hnew hnew')⟩
    rw [Blueprint.rename, Blueprint.mk.injEq]
    refine ⟨rfl, ?_⟩
    have hfst : (fields.map fun f => (f.1, f.2.value)).map Prod.fst = b.fields.map Prod.fst := by
      rw [List.map_map]
      exact hnames
    have hsnd : (fields.map fun f => (f.1, f.2.value)).map Prod.snd =
        b.fields.map fun f => f.2.rename (rank order) := by
      rw [List.map_map]
      exact hvalues
    rw [List.zip_of_prod hfst hsnd, List.zip_map']

theorem Unfolds.object_at (h : Unfolds view met vs ts met') (hg : g ∈ met') (hnew : g ∉ met) :
    ∃ b i, view g = some b ∧ met'.idxOf g = met.length + i ∧
      (Wire.objects ts)[i]? = some (b.rename (rank met')) ∧ b.handles ⊆ met' := by
  obtain ⟨new, rfl, hobjects⟩ := h.objects List.prefix_rfl
  have hlt := List.idxOf_lt_length_of_mem ((List.mem_append.1 hg).resolve_left hnew)
  obtain ⟨b, hview, hb⟩ := hobjects.get hlt (hobjects.length_eq ▸ hlt)
  rw [List.get_eq_getElem, List.getElem_idxOf] at hview
  obtain hold | ⟨b', hview', hsub⟩ := h.encounters.closed hg
  · exact absurd hold hnew
  · cases hview.symm.trans hview'
    refine ⟨b, new.idxOf g, hview, List.idxOf_append_of_notMem hnew, ?_, hsub⟩
    rw [← hb]
    exact List.getElem?_eq_getElem _

theorem Unfolds.length_objects (h : Unfolds view met vs ts met') :
    met'.length = met.length + (Wire.objects ts).length := by
  obtain ⟨new, rfl, hnew⟩ := h.objects List.prefix_rfl
  rw [List.length_append, hnew.length_eq]

theorem Unfolds.numbered (h : Unfolds view met vs ts met') (hn : met.Nodup) :
    NumberedFrom met.length ts := by
  induction h with
  | nil => exact numberedFrom_nil
  | scalar _ ih =>
    rw [numberedFrom_cons, numberedFrom_parts (by simp) rfl, objects_parts rfl]
    exact ⟨numberedFrom_nil, ih hn⟩
  | array hparts _ ihparts ih =>
    rw [numberedFrom_cons, numberedFrom_parts (by simp) rfl, objects_parts rfl, Tree.parts,
      ← hparts.length_objects]
    exact ⟨ihparts hn, ih (hparts.encounters.nodup hn)⟩
  | map hparts _ ihparts ih =>
    rw [numberedFrom_cons, numberedFrom_parts (by simp) rfl, objects_parts rfl, Tree.parts,
      ← hparts.length_objects]
    exact ⟨ihparts hn, ih (hparts.encounters.nodup hn)⟩
  | ref hmem _ ih =>
    rw [numberedFrom_cons, numberedFrom_ref, slot_rank hn hmem, objects_parts rfl]
    exact ⟨List.idxOf_lt_length_of_mem hmem, ih hn⟩
  | @object met mid met' h b fields vs ts hnew _ _ hfields _ ihfields ih =>
    have hn' : (met ++ [h]).Nodup := by
      rw [← List.concat_eq_append]
      exact .concat hnew hn
    have hlen := hfields.length_objects
    have hfields' := ihfields hn'
    have hvs' := ih (hfields.encounters.nodup hn')
    rw [List.length_append, List.length_singleton] at hlen hfields'
    rw [numberedFrom_cons, numberedFrom_object, objects_object, List.length_cons,
      Handle.slot_ofSlot (length_lt_of_notMem hn hnew)]
    refine ⟨⟨rfl, hfields'⟩, ?_⟩
    rw [show met.length + ((Wire.objects (fields.map Prod.snd)).length + 1) = mid.length by omega]
    exact hvs'

end GraphRpc.Wire
