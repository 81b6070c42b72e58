import Mathlib
import GraphRpc.Proofs.Instances.Access

/-!
# Round trip of instances

A graph of instances and records is decoded as the same graph: the objects are numbered by first
encounter, and each is an equal object of the same type whose handles are those numbers. An instance
is filled while the objects it refers to are still under way, which makes no difference to it, since
it holds no more of them than their handles.
-/

namespace GraphRpc

open Wire

variable {α : Type} {types : List (AppType α)} {matchers : List (FieldAccess α)}
  {f : Handle → Handle} {slot : Slot α} {order : List Handle}

-- ---------------------------------------------------------------------------
-- Slots
-- ---------------------------------------------------------------------------

def Record.rename (f : Handle → Handle) (r : Record) : Record where
  fields := r.fields.map fun field => (field.1, field.2.rename f)
  nodup := by
    rw [List.map_map]
    exact r.nodup

namespace Slot

/-- The slot holds an instance of the type registered under its type name, or a record if there is no
such type. -/
inductive Typed (types : List (AppType α)) : Slot α → Prop
  | app : AppType.named? types name = some t → Typed types ⟨name, t.object x⟩
  | record : AppType.named? types name = none → Typed types ⟨name, .record r⟩

/-- If no type is registered under the type name, then no matcher claims the object or its type. -/
def Unmatched (types : List (AppType α)) (matchers : List (FieldAccess α)) (slot : Slot α) : Prop :=
  AppType.named? types slot.typeName = none → ∀ m ∈ matchers,
    m.canRead slot.typeName slot.object = false ∧ m.canWrite slot.typeName = false

inductive Renamed (types : List (AppType α)) (f : Handle → Handle) : Slot α → Slot α → Prop
  | app : AppType.named? types name = some t →
      Renamed types f ⟨name, t.object x⟩ ⟨name, t.object (t.rename f x)⟩
  | record : AppType.named? types name = none →
      Renamed types f ⟨name, .record r⟩ ⟨name, .record (r.rename f)⟩

end Slot

theorem Blueprint.slot_rename (typeName : String) (r : Record) (f : Handle → Handle) :
    ((⟨typeName, r.fields⟩ : Blueprint).rename f).slot = (⟨typeName, .record (r.rename f)⟩ : Slot α) := by
  have hfields : (Record.ofList (r.rename f).fields).fields = (r.rename f).fields :=
    Record.fields_ofList (r.rename f).nodup
  have hrecord : Record.ofList (r.rename f).fields = r.rename f := by
    cases hr : Record.ofList (r.rename f).fields
    rw [hr] at hfields
    cases hr' : r.rename f
    rw [hr'] at hfields
    exact Record.mk.injEq .. ▸ hfields
  change (⟨typeName, .record (Record.ofList (r.rename f).fields)⟩ : Slot α) = _
  rw [hrecord]

/-- What was seen of an object is built as an equal one with its handles replaced: reader and writer
are those of the same type. -/
theorem AppType.build_of_seen (hr : ∀ t ∈ types, t.Restoring) (hf : Function.Injective f)
    (ht : slot.Typed types) (hu : slot.Unmatched types matchers)
    (hseen : (registry types matchers).seen slot = .ok b) :
    ∃ slot', (registry types matchers).build (b.rename f) = .ok slot' ∧ slot.Renamed types f slot' := by
  cases ht with
  | @app typeName t x hnamed =>
    have hrestoring := hr t (List.mem_of_find?_eq_some hnamed)
    obtain ⟨access, haccess, names, hnames, fields, hfields, rfl⟩ := seen_ok.1 hseen
    rw [resolveReader_named hnamed] at haccess
    cases haccess
    cases hnames
    rw [hrestoring.mapM_get] at hfields
    cases hfields
    refine ⟨⟨typeName, t.object (t.rename f x)⟩, ?_, .app hnamed⟩
    exact except_bind_ok.2 ⟨t.access.toFieldAccess, resolveWriter_named hnamed, except_bind_ok.2
      ⟨t.object t.access.blank, rfl, except_bind_ok.2 ⟨_, hrestoring.fill hf x, rfl⟩⟩⟩
  | @record typeName r hnamed =>
    have hm := hu hnamed
    rw [seen_record (resolveReader_unnamed hnamed fun m hmem => (hm m hmem).1)] at hseen
    cases hseen
    refine ⟨⟨typeName, .record (r.rename f)⟩, ?_, .record hnamed⟩
    rw [build_record (resolveWriter_unnamed hnamed fun m hmem => (hm m hmem).2), Blueprint.slot_rename]

-- ---------------------------------------------------------------------------
-- Graphs
-- ---------------------------------------------------------------------------

instance : Finite Handle := Finite.of_injective (fun h : Handle => (⟨h.slot, h.slot_lt⟩ : Fin (256 ^ 4)))
  fun _ _ he => Handle.slot_inj.1 (Fin.mk.inj he)

theorem Wire.injOn_rank (hn : order.Nodup) : Set.InjOn (rank order) {h | h ∈ order} := by
  intro g hg h hh he
  have hidx : order.idxOf g = order.idxOf h := by rw [← slot_rank hn hg, he, slot_rank hn hh]
  exact (List.idxOf_inj hg).1 hidx

theorem Wire.exists_injective_rank (hn : order.Nodup) :
    ∃ f : Handle → Handle, Function.Injective f ∧ ∀ h ∈ order, f h = rank order h := by
  have := Fintype.ofFinite Handle
  obtain ⟨g, hg⟩ := Set.MapsTo.exists_equiv_extend_of_card_eq (t := Finset.univ) rfl
    (fun _ _ => Finset.mem_coe.2 (Finset.mem_univ _)) (injOn_rank hn)
  exact ⟨fun h => g h, fun a b he => g.injective (Subtype.ext he), hg⟩

theorem Wire.exists_forall₂ {β γ δ : Type} {R : β → γ → Prop} {P : γ → δ → Prop} {Q : β → δ → Prop}
    {bs : List β} {cs : List γ} (h : List.Forall₂ R bs cs) (hR : ∀ b c, R b c → ∃ d, P c d ∧ Q b d) :
    ∃ ds, List.Forall₂ P cs ds ∧ List.Forall₂ Q bs ds := by
  induction h with
  | nil => exact ⟨[], .nil, .nil⟩
  | cons hbc _ ih =>
    obtain ⟨d, hP, hQ⟩ := hR _ _ hbc
    obtain ⟨ds, hPs, hQs⟩ := ih
    exact ⟨d :: ds, .cons hP hPs, .cons hQ hQs⟩

/-- `heap'` has the objects that `v` leads to in `heap` and no others. They are numbered in the order
in which a depth-first walk first meets them, and equal up to that. -/
structure Restored (registry : Registry α) (types : List (AppType α)) (heap heap' : Heap α) (v v' : Value)
    (f : Handle → Handle) : Prop where
  injective : Function.Injective f
  encounters : ∃ order, Encounters (registry.view heap) [] v.handles order ∧
    ∀ i (hi : i < order.length), f order[i] = .ofSlot i
  bijOn : Set.BijOn (fun h => (f h).slot) {h | Reaches (registry.view heap) v.handles h} {n | n < heap'.size}
  value : v' = v.rename f
  slots : ∀ h, Reaches (registry.view heap) v.handles h → ∃ slot slot', heap.slot? h = some slot ∧
    heap'.slot? (f h) = some slot' ∧ slot.Renamed types f slot'

theorem AppType.grows_of_unfolds {heap : Heap α} (hr : ∀ t ∈ types, t.Restoring)
    (hheld : ∀ h slot, Reaches ((registry types matchers).view heap) v.handles h →
      heap.slot? h = some slot → slot.Typed types ∧ slot.Unmatched types matchers)
    (hu : Unfolds ((registry types matchers).view heap) [] [v] [t] order)
    (hf : Function.Injective f) (hrank : ∀ h ∈ order, f h = rank order h) :
    ∃ slots, Grows (registry types matchers) [t] .empty (Heap.empty.extend slots) ∧
      List.Forall₂ (fun h slot' => ∃ slot, heap.slot? h = some slot ∧ slot.Renamed types f slot')
        order slots := by
  obtain ⟨new, hnew, hobjects⟩ := hu.objects List.prefix_rfl
  rw [List.nil_append] at hnew
  subst hnew
  have hobjects' := (List.forall₂_and_left (p := (· ∈ order)) ..).2 ⟨fun _ hh => hh, hobjects⟩
  have hstep : ∀ h b, (h ∈ order ∧ ∃ b₀, (registry types matchers).view heap h = some b₀ ∧
      b = b₀.rename (rank order)) → ∃ slot', (registry types matchers).build b = .ok slot' ∧
        ∃ slot, heap.slot? h = some slot ∧ slot.Renamed types f slot' := by
    rintro h _ ⟨hh, b, hview, rfl⟩
    obtain ⟨slot, hslot, hseen⟩ := view_eq_some.1 hview
    have hreach : Reaches ((registry types matchers).view heap) v.handles h := by
      simpa using hu.encounters.mem_iff_reaches.1 hh
    obtain ⟨htyped, hunmatched⟩ := hheld h slot hreach hslot
    obtain ⟨slot', hbuild, hrenamed⟩ := build_of_seen hr hf htyped hunmatched hseen
    obtain hnil | ⟨b', hview', hsub⟩ := hu.encounters.closed hh
    · cases hnil
    cases hview.symm.trans hview'
    refine ⟨slot', ?_, slot, hslot, hrenamed⟩
    rw [← Blueprint.rename_congr fun k hk => hrank k (hsub hk)]
    exact hbuild
  obtain ⟨slots, hbuilt, hslots⟩ := exists_forall₂ hobjects' hstep
  exact ⟨slots, ⟨hu.numbered List.nodup_nil, slots, hbuilt, rfl⟩, hslots⟩

/-- Decoding what was encoded succeeds and gives the same graph of instances and records. -/
theorem AppType.decodeValue_restored {limits : Limits} {heap : Heap α} (hr : ∀ t ∈ types, t.Restoring)
    (hheld : ∀ h slot, Reaches ((registry types matchers).view heap) v.handles h →
      heap.slot? h = some slot → slot.Typed types ∧ slot.Unmatched types matchers)
    (h : (Codec.mk limits (registry types matchers)).encodeValue v heap = .ok bytes) :
    ∃ v' heap' f,
      (Codec.mk limits (registry types matchers)).decodeValue bytes.data.toList = .ok (v', heap') ∧
      Restored (registry types matchers) types heap heap' v v' f := by
  obtain ⟨t, order, hfits, rfl, hu⟩ := encodeValue_ok.1 h
  have hn : order.Nodup := hu.encounters.nodup List.nodup_nil
  have hmem {h} : h ∈ order ↔ Reaches ((registry types matchers).view heap) v.handles h := by
    simpa using hu.encounters.mem_iff_reaches
  obtain ⟨f, hf, hrank⟩ := exists_injective_rank hn
  obtain ⟨slots, hgrows, hslots⟩ := grows_of_unfolds hr hheld hu hf hrank
  refine ⟨t.value, _, f, decodeValue_ok.2 ⟨t, hfits, by rw [List.data_toByteArray], hgrows, rfl⟩, ?_⟩
  have hslot : ∀ h ∈ order, (f h).slot = order.idxOf h := fun h hh => by
    rw [hrank h hh, slot_rank hn hh]
  constructor
  case injective => exact hf
  case encounters =>
    refine ⟨order, by simpa using hu.encounters, fun i hi => ?_⟩
    rw [hrank _ (List.getElem_mem hi), rank, hn.idxOf_getElem i hi]
  case bijOn =>
    have hsize : (Heap.empty.extend slots : Heap α).size = order.length := by
      rw [Heap.size_extend, ← hslots.length_eq]
      exact Nat.zero_add _
    simp only [← hmem, hsize]
    exact (bijOn_idxOf hn).congr fun h hh => (hslot h hh).symm
  case value =>
    have hvalue := hu.values List.prefix_rfl
    rw [List.map_singleton, List.map_singleton, List.cons.injEq] at hvalue
    rw [hvalue.1]
    exact Value.rename_congr fun k hk => (hrank k (hmem.2 (.root hk))).symm
  case slots =>
    intro h hh
    have hlt := List.idxOf_lt_length_of_mem (hmem.2 hh)
    obtain ⟨slot, hheap, hrenamed⟩ := hslots.get hlt (hslots.length_eq ▸ hlt)
    rw [List.get_eq_getElem, List.getElem_idxOf] at hheap
    refine ⟨slot, _, hheap, ?_, hrenamed⟩
    simp only [Heap.slot?, Heap.extend, Heap.empty, hslot h (hmem.2 hh), List.get_eq_getElem]
    simp

-- ---------------------------------------------------------------------------
-- A sample type
-- ---------------------------------------------------------------------------

namespace Sample

def personType : AppType Instance where
  τ := Person
  access := person
  unwrap_eq_some := by
    intro a x
    cases a <;> simp [person, Instance.person?]
  rename f p := { p with friend := p.friend.map f }
  rename_id p := by simp

theorem rename_ofFriend (f : Handle → Handle) (friend : Option Handle) :
    (ofFriend friend).rename f = ofFriend (friend.map f) := by
  cases friend with
  | none => exact Value.rename_scalar f .null
  | some h => exact Value.rename_object f h

theorem toFriend_ofFriend (friend : Option Handle) : toFriend (ofFriend friend) = .ok friend := by
  cases friend <;> rfl

theorem restoring_personType : personType.Restoring where
  nodup := by decide
  restores := by
    intro f _ p
    have hname : (Value.str p.name).rename f = .str p.name := Value.rename_scalar f (.str p.name)
    have hage : (Value.i64 p.age).rename f = .i64 p.age := Value.rename_scalar f (.i64 p.age)
    simp only [personType, person, List.foldlM_cons, List.foldlM_nil, hname, hage, rename_ofFriend,
      toFriend_ofFriend]
    rfl

def matched : List (FieldAccess Instance) := [startingWith "P_" "m1"]

def friends : Heap Instance :=
  ⟨#[⟨"User", .app (.person ⟨"al", 31, some (.ofSlot 1)⟩)⟩,
    ⟨"Note", .record (.ofList [("of", .object (.ofSlot 0))])⟩]⟩

theorem held_friends {slot : Slot Instance} (h : friends.slot? g = some slot) :
    slot.Typed [personType] ∧ slot.Unmatched [personType] matched := by
  have hmem : slot ∈ friends.slots.toList := Array.mem_toList_iff.2 (Array.mem_of_getElem? h)
  obtain rfl | rfl : slot = _ ∨ slot = _ := by simpa [friends] using hmem
  · exact ⟨.app (t := personType) (x := ⟨"al", 31, some (.ofSlot 1)⟩) rfl, nofun⟩
  · refine ⟨.record rfl, fun _ m hm => ?_⟩
    obtain rfl := List.mem_singleton.1 hm
    exact ⟨by cbv, by cbv⟩

/-- A record with a type name that is not registered but that the matcher claims. -/
def claimed : Heap Instance := ⟨#[⟨"P_x", .record (.ofList [("a", .i8 1)])⟩]⟩

end Sample

theorem AppType.decodeValue_restored_friends :
    (∀ t ∈ [Sample.personType], t.Restoring) ∧
    (∀ h slot, Reaches ((registry [Sample.personType] Sample.matched).view Sample.friends)
      (Value.object (.ofSlot 0)).handles h → Sample.friends.slot? h = some slot →
        slot.Typed [Sample.personType] ∧ slot.Unmatched [Sample.personType] Sample.matched) ∧
    ∃ bytes, (Codec.mk {} (registry [Sample.personType] Sample.matched)).encodeValue
        (.object (.ofSlot 0)) Sample.friends = .ok bytes ∧
      ∃ v' heap' f, (Codec.mk {} (registry [Sample.personType] Sample.matched)).decodeValue
          bytes.data.toList = .ok (v', heap') ∧
        Restored (registry [Sample.personType] Sample.matched) [Sample.personType] Sample.friends heap'
          (.object (.ofSlot 0)) v' f := by
  have hr : ∀ t ∈ [Sample.personType], t.Restoring := by
    simpa using Sample.restoring_personType
  have h : (Codec.mk {} (registry [Sample.personType] Sample.matched)).encodeValue
      (.object (.ofSlot 0)) Sample.friends = .ok ⟨#[13, 0, 0, 0, 4, 85, 115, 101, 114, 0, 0, 0, 0, 0, 0, 0,
        3, 0, 0, 0, 4, 110, 97, 109, 101, 8, 0, 0, 0, 2, 97, 108, 0, 0, 0, 3, 97, 103, 101, 5, 0, 0, 0, 0,
        0, 0, 0, 31, 0, 0, 0, 6, 102, 114, 105, 101, 110, 100, 13, 0, 0, 0, 4, 78, 111, 116, 101, 0, 0, 0,
        1, 0, 0, 0, 1, 0, 0, 0, 2, 111, 102, 12, 0, 0, 0, 0]⟩ := by
    cbv
  exact ⟨hr, fun _ _ _ hslot => Sample.held_friends hslot, _, h,
    decodeValue_restored hr (fun _ _ _ hslot => Sample.held_friends hslot) h⟩

theorem Slot.Renamed.size {slot slot' : Slot α} (h : slot.Renamed types f slot') :
    slot'.object.record?.map Record.size = slot.object.record?.map Record.size := by
  cases h with
  | app => rfl
  | record => simp [Object.record?, Record.size, Record.rename]

/-- A matcher comes before the record access. Records that it claims are read and built its way, here
with a field more, whatever application types are registered. -/
theorem AppType.not_restored_claimed :
    (∀ t ∈ [Sample.personType], t.Restoring) ∧
    (∀ h slot, Reaches ((registry [Sample.personType] Sample.matched).view Sample.claimed)
      (Value.object (.ofSlot 0)).handles h → Sample.claimed.slot? h = some slot →
        slot.Typed [Sample.personType]) ∧
    ∃ bytes, (Codec.mk {} (registry [Sample.personType] Sample.matched)).encodeValue
        (.object (.ofSlot 0)) Sample.claimed = .ok bytes ∧
      ∀ v' heap' f, (Codec.mk {} (registry [Sample.personType] Sample.matched)).decodeValue
          bytes.data.toList = .ok (v', heap') →
        ¬ Restored (registry [Sample.personType] Sample.matched) [Sample.personType] Sample.claimed heap'
          (.object (.ofSlot 0)) v' f := by
  have hencode : (Codec.mk {} (registry [Sample.personType] Sample.matched)).encodeValue
      (.object (.ofSlot 0)) Sample.claimed =
        .ok ⟨#[13, 0, 0, 0, 3, 80, 95, 120, 0, 0, 0, 0, 0, 0, 0, 1, 0, 0, 0, 1, 97, 2, 1]⟩ := by
    cbv
  have hdecode : (Codec.mk {} (registry [Sample.personType] Sample.matched)).decodeValue
      [13, 0, 0, 0, 3, 80, 95, 120, 0, 0, 0, 0, 0, 0, 0, 1, 0, 0, 0, 1, 97, 2, 1] =
        .ok (.object (.ofSlot 0), ⟨#[⟨"P_x", .record (.ofList [("_by", .str "m1"), ("a", .i8 1)])⟩]⟩) := by
    cbv
  refine ⟨by simpa using Sample.restoring_personType, fun h slot _ hslot => ?_, _, hencode, ?_⟩
  · have hmem : slot ∈ Sample.claimed.slots.toList := Array.mem_toList_iff.2 (Array.mem_of_getElem? hslot)
    obtain rfl : slot = _ := by simpa [Sample.claimed] using hmem
    exact .record rfl
  · rintro v' heap' f hdecode' hrestored
    rw [hdecode] at hdecode'
    cases hdecode'
    obtain ⟨slot, slot', hslot, hslot', hrenamed⟩ := hrestored.slots (.ofSlot 0) (.root (by simp))
    cases hslot
    have hmem := Array.mem_toList_iff.2 (Array.mem_of_getElem? hslot')
    rw [List.mem_singleton] at hmem
    subst hmem
    have hsize : some 2 = some 1 := hrenamed.size
    exact absurd hsize (by decide)

end GraphRpc
