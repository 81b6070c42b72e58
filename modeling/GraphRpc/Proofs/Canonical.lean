import Mathlib
import GraphRpc.Proofs.Wire.Records
import GraphRpc.Proofs.Wire.Spelling

/-!
# Canonical bytes

Accepted bytes leave no freedom to the encoder but one: an object may list a field name twice, which
a record cannot. Apart from that, encoding what was decoded gives the same bytes again.
-/

namespace GraphRpc

open Wire

variable {α : Type}

namespace Wire

-- ---------------------------------------------------------------------------
-- Objects in the order of their slots
-- ---------------------------------------------------------------------------

/-- The handles of the first `k` slots. -/
def below (k : Nat) : List Handle := (List.range k).map Handle.ofSlot

theorem length_below : (below k).length = k := by simp [below]

theorem below_succ : below (k + 1) = below k ++ [.ofSlot k] := by
  simp [below, List.range_succ]

theorem mem_below (hh : h.slot < k) : h ∈ below k :=
  List.mem_map.2 ⟨h.slot, List.mem_range.2 hh, h.ofSlot_slot⟩

theorem notMem_below (hk : h.slot = k) : h ∉ below k := by
  intro hh
  obtain ⟨n, hn, rfl⟩ := List.mem_map.1 hh
  have hlt := List.mem_range.1 hn
  have hs := (Handle.ofSlot n).slot_lt
  rw [hk] at hs
  rw [Handle.slot_ofSlot (by omega)] at hk
  omega

/-- A handle among those of the first slots is its own number. -/
theorem rank_below (hn : (below k).Nodup) (hh : h.slot < k) : rank (below k) h = h := by
  have hlt : h.slot < (below k).length := by rwa [length_below]
  have hget : (below k)[h.slot] = h := by simp [below]
  have hidx := hn.idxOf_getElem h.slot hlt
  rw [hget] at hidx
  rw [rank, hidx, Handle.ofSlot_slot]

/-- The objects from slot `k` on are seen to be those of some blueprints. -/
def Sees (view : View) (k : Nat) (bs : List Blueprint) : Prop :=
  ∀ i (hi : i < bs.length), view (.ofSlot (k + i)) = some bs[i]

theorem sees_append {view : View} :
    Sees view k (a ++ b) ↔ Sees view k a ∧ Sees view (k + a.length) b := by
  constructor
  · intro h
    refine ⟨fun i hi => ?_, fun i hi => ?_⟩
    · rw [h i (by rw [List.length_append]; omega), List.getElem_append_left hi]
    · have hi' : a.length + i < (a ++ b).length := by
        rw [List.length_append]
        omega
      rw [Nat.add_assoc, h (a.length + i) hi', List.getElem_append_right (by omega)]
      simp
  · rintro ⟨ha, hb⟩ i hi
    by_cases hlt : i < a.length
    · rw [ha i hlt, List.getElem_append_left hlt]
    · rw [List.length_append] at hi
      have hv := hb (i - a.length) (by omega)
      rw [show k + a.length + (i - a.length) = k + i by omega] at hv
      rw [hv, List.getElem_append_right (by omega)]

theorem sees_cons {view : View} :
    Sees view k (b :: bs) ↔ view (.ofSlot k) = some b ∧ Sees view (k + 1) bs := by
  rw [← List.singleton_append, sees_append]
  exact and_congr_left fun _ =>
    ⟨fun h => h 0 Nat.one_pos, fun h i hi => by obtain rfl := Nat.lt_one_iff.1 hi; exact h⟩

/-- Trees numbered on from `k` are what their values unfold to, where objects are in that order. -/
def Refolds (view : View) (ts : List Tree) : Prop :=
  ∀ k, (below k).Nodup → NumberedFrom k ts → Sees view k (objects ts) →
    Unfolds view (below k) (ts.map Tree.value) ts (below (k + (objects ts).length))

theorem refolds_list {view : View} (h : ∀ t ∈ ts, Refolds view [t]) : Refolds view ts := by
  induction ts with
  | nil => exact fun k _ _ _ => .nil
  | cons t ts ih =>
    intro k hk hn hs
    rw [numberedFrom_cons] at hn
    rw [objects_cons, sees_append] at hs
    have ht := h t (by simp) k hk hn.1 hs.1
    have hts := ih (fun u hu => h u (by simp [hu])) _ (ht.encounters.nodup hk) hn.2 hs.2
    rw [objects_cons, List.length_append, ← Nat.add_assoc]
    exact ht.cons hts

/-- What is numbered in wire order unfolds back to itself. -/
theorem refolds (view : View) (t : Tree) : Refolds view [t] := by
  induction t using Tree.byParts with
  | step t ih =>
    have hparts := refolds_list ih
    intro k hk hn hs
    cases t with
    | scalar s =>
      rw [objects_parts rfl, List.map_singleton, Tree.value]
      exact .scalar .nil
    | array items =>
      rw [numberedFrom_parts (by simp) rfl] at hn
      rw [objects_parts rfl] at hs ⊢
      rw [List.map_singleton, Tree.value]
      exact .array (hparts k hk hn hs) .nil
    | map entries =>
      rw [numberedFrom_parts (by simp) rfl] at hn
      rw [objects_parts rfl] at hs ⊢
      rw [List.map_singleton, Tree.value]
      have hflat := hparts k hk hn hs
      rw [Tree.parts, map_flat] at hflat
      exact .map hflat .nil
    | ref h =>
      rw [numberedFrom_ref] at hn
      rw [objects_parts rfl, List.map_singleton, Tree.value]
      have hu : Unfolds view (below k) [.object h] [.ref (rank (below k) h)] (below k) :=
        .ref (mem_below hn) .nil
      rw [rank_below hk hn] at hu
      exact hu
    | object typeName h fields =>
      rw [numberedFrom_object] at hn
      obtain ⟨rfl, hn⟩ := hn
      rw [objects_object, sees_cons, Handle.ofSlot_slot] at hs
      rw [objects_object, List.map_singleton, Tree.value]
      -- An object is numbered in front of its fields, so these go on from the next slot.
      have hmet : below (h.slot + 1) = below h.slot ++ [h] := by rw [below_succ, h.ofSlot_slot]
      have hk' : (below (h.slot + 1)).Nodup := by
        rw [hmet, ← List.concat_eq_append]
        exact .concat (notMem_below rfl) hk
      have hfields := hparts (h.slot + 1) hk' hn hs.2
      rw [hmet, Tree.parts, List.map_map] at hfields
      have hnames : fields.map Prod.fst =
          (fields.map fun f => (f.1, f.2.value)).map Prod.fst := by simp
      have hu := Unfolds.object (notMem_below rfl) hs.1 hnames (by rw [List.map_map]; exact hfields)
        .nil
      rw [length_below, h.ofSlot_slot] at hu
      rw [List.length_cons, Nat.add_comm _ 1, ← Nat.add_assoc]
      exact hu

-- ---------------------------------------------------------------------------
-- Field names
-- ---------------------------------------------------------------------------

def Tree.NamesDistinct : Tree → Prop
  | object _ _ fields => (fields.map Prod.fst).Nodup
  | _ => True

theorem forall_nodes_singleton {P : Tree → Prop} :
    (∀ n ∈ nodes [t], P n) ↔ P t ∧ ∀ n ∈ nodes t.parts, P n := by
  rw [nodes_singleton, List.forall_mem_cons]

/-- Objects are written with the names of their fields, each once. -/
theorem Unfolds.namesDistinct {view : View} (h : Unfolds view met vs ts met')
    (hnames : ∀ {h b}, view h = some b → (b.fields.map Prod.fst).Nodup) :
    ∀ n ∈ nodes ts, n.NamesDistinct := by
  have hcons {t : Tree} {ts : List Tree} (ht : t.NamesDistinct)
      (hparts : ∀ n ∈ nodes t.parts, n.NamesDistinct) (hts : ∀ n ∈ nodes ts, n.NamesDistinct) :
      ∀ n ∈ nodes (t :: ts), n.NamesDistinct := by
    rw [← List.singleton_append, nodes_append]
    exact List.forall_mem_append.2 ⟨forall_nodes_singleton.2 ⟨ht, hparts⟩, hts⟩
  induction h with
  | nil => simp
  | scalar _ ih => exact hcons trivial (by simp [Tree.parts]) ih
  | array _ _ ihparts ih => exact hcons trivial ihparts ih
  | map _ _ ihparts ih => exact hcons trivial ihparts ih
  | ref _ _ ih => exact hcons trivial (by simp [Tree.parts]) ih
  | object _ hview hfst _ _ ihparts ih =>
    refine hcons ?_ ihparts ih
    rw [Tree.NamesDistinct, hfst]
    exact hnames hview

theorem sees_built {ts : List Tree} (h : ∀ n ∈ nodes ts, n.NamesDistinct)
    (hsize : (objects ts).length ≤ 256 ^ 4) :
    Sees (Heap.empty.extend ((objects ts).map Blueprint.slot) : Heap α).records 0 (objects ts) := by
  intro i hi
  refine Heap.records_extend_new (Handle.slot_ofSlot (by omega)) (List.getElem?_eq_getElem hi) ?_
  obtain ⟨n, hn, hb⟩ := List.mem_filterMap.1 (List.getElem_mem hi)
  cases n with
  | object typeName h' fields =>
    rw [← Option.some.inj hb, List.map_map]
    exact h _ hn
  | _ => cases hb

end Wire

namespace Codec

/-- Accepted bytes are those of a single list of trees. Encoding the decoded values gives the
same bytes again just when no object in there lists a field name twice. -/
theorem encodeParams_of_decodeParams {limits : Limits} {heap : Heap α}
    (h : (Codec.mk limits .generic).decodeParams input = .ok (values, heap)) :
    ∃ ts, (∀ us, Spells us input ↔ us = ts) ∧
      (bytesOf ((Codec.mk limits .generic).encodeParams values heap) = .ok input.toByteArray ↔
        ∀ n ∈ nodes ts, n.NamesDistinct) := by
  obtain ⟨ts, hlen, hf, rfl, hg, rfl⟩ := decodeParams_ok.1 h
  obtain ⟨hn, rfl⟩ := grows_generic.1 hg
  have hts : Spells ts (spellParams ts) := ⟨hlen.widen, fun t ht => (hf t ht).sized, rfl⟩
  refine ⟨ts, fun us => ⟨fun hus => hus.unique hts, fun heq => heq ▸ hts⟩, ?_⟩
  rw [bytesOf_encodeParams_ok, generic_view]
  constructor
  · rintro ⟨us, order, hlen', hf', hb, hu⟩
    have hus : Spells us (spellParams ts) :=
      ⟨hlen'.widen, fun u hmem => (hf' u hmem).sized, List.toByteArray_inj.1 hb⟩
    rw [hts.unique hus]
    exact hu.namesDistinct Heap.nodup_of_records
  · intro hnames
    have hn₀ : NumberedFrom 0 ts := hn
    have hsize : (objects ts).length ≤ 256 ^ 4 := by
      have hle := hn₀.length_le (Nat.zero_le _)
      rwa [Nat.zero_add] at hle
    have hu := refolds_list (fun t _ => refolds _ t) 0 List.nodup_nil hn₀
      (sees_built (α := α) hnames hsize)
    exact ⟨ts, _, hlen, hf, rfl, hu⟩

/-- Two records that refer to each other. The first has the second in its field `a`, and refers to it once
more in a field with another name, or with the same one. -/
def knotted (name : String) : Tree :=
  .object "T" (.ofSlot 0)
    [("a", .object "U" (.ofSlot 1) [("b", .ref (.ofSlot 0))]), (name, .ref (.ofSlot 1))]

theorem nodes_knotted (name : String) : (knotted name).nodes = [knotted name,
    .object "U" (.ofSlot 1) [("b", .ref (.ofSlot 0))], .ref (.ofSlot 0), .ref (.ofSlot 1)] := by
  simp [Tree.nodes_eq, knotted, Tree.parts]

theorem spells_knotted {name : String} (hname : name.utf8ByteSize = 1) {input : List UInt8}
    (hinput : input = spellParams [knotted name]) : Spells [knotted name] input := by
  have hcount {n : Nat} (hn : n ≤ 2) : Within n maxWord := ⟨hn.trans (by decide), hn.trans (by decide)⟩
  have hletter {s : String} (hs : s.utf8ByteSize = 1) : Within s.utf8ByteSize maxWord := hcount (by omega)
  have hnone {β : Type} (p : β → Prop) := List.forall_mem_nil p
  refine ⟨hcount (Nat.le_succ 1), ?_, hinput⟩
  rw [List.forall_mem_singleton, Tree.Sized, nodes_knotted]
  simp only [List.forall_mem_cons, knotted, Tree.Bounded, widest]
  exact ⟨⟨hcount le_rfl, hletter rfl, hletter rfl, hletter hname, hnone _⟩,
    ⟨hcount (Nat.le_succ 1), hletter rfl, hletter rfl, hnone _⟩, trivial, trivial, hnone _⟩

def knottedBytes (name : UInt8) : List UInt8 :=
  [0, 0, 0, 1, 0x0D, 0, 0, 0, 1, 84, 0, 0, 0, 0, 0, 0, 0, 2,
    0, 0, 0, 1, 97, 0x0D, 0, 0, 0, 1, 85, 0, 0, 0, 1, 0, 0, 0, 1, 0, 0, 0, 1, 98, 0x0C, 0, 0, 0, 0,
    0, 0, 0, 1, name, 0x0C, 0, 0, 0, 1]

theorem encodeParams_of_decodeParams_knotted :
    (∃ values heap, (Codec.mk {} (.generic (α := Empty))).decodeParams (knottedBytes 99) = .ok (values, heap) ∧
      (∀ us, Spells us (knottedBytes 99) ↔ us = [knotted "c"]) ∧
      bytesOf ((Codec.mk {} .generic).encodeParams values heap) = .ok (knottedBytes 99).toByteArray) ∧
    ∃ values heap, (Codec.mk {} (.generic (α := Empty))).decodeParams (knottedBytes 97) = .ok (values, heap) ∧
      (∀ us, Spells us (knottedBytes 97) ↔ us = [knotted "a"]) ∧
      bytesOf ((Codec.mk {} .generic).encodeParams values heap) ≠ .ok (knottedBytes 97).toByteArray := by
  have hdistinct : (Codec.mk {} (.generic (α := Empty))).decodeParams (knottedBytes 99) =
      .ok ([.object (.ofSlot 0)],
        ⟨#[⟨"T", .record (.ofList [("a", .object (.ofSlot 1)), ("c", .object (.ofSlot 1))])⟩,
          ⟨"U", .record (.ofList [("b", .object (.ofSlot 0))])⟩]⟩) := by
    cbv
  have htwice : (Codec.mk {} (.generic (α := Empty))).decodeParams (knottedBytes 97) =
      .ok ([.object (.ofSlot 0)], ⟨#[⟨"T", .record (.ofList [("a", .object (.ofSlot 1))])⟩,
        ⟨"U", .record (.ofList [("b", .object (.ofSlot 0))])⟩]⟩) := by
    cbv
  obtain ⟨ts, hts, hsame⟩ := encodeParams_of_decodeParams hdistinct
  obtain ⟨us, hus, hother⟩ := encodeParams_of_decodeParams htwice
  obtain rfl := (hts [knotted "c"]).1 (spells_knotted rfl (by cbv))
  obtain rfl := (hus [knotted "a"]).1 (spells_knotted rfl (by cbv))
  refine ⟨⟨_, _, hdistinct, hts, hsame.2 ?_⟩, ⟨_, _, htwice, hus, fun heq => ?_⟩⟩
  · rw [nodes, List.flatMap_singleton, nodes_knotted]
    simp [knotted, Tree.NamesDistinct]
  · have hnames := hother.1 heq (knotted "a") (List.mem_flatMap_of_mem (by simp) (Tree.mem_nodes_self _))
    simp [knotted, Tree.NamesDistinct] at hnames

end Codec
end GraphRpc
