import Mathlib
import GraphRpc.Proofs.Graph
import GraphRpc.Proofs.Wire.Steps

/-!
# Wire trees

A value as the wire has it: containers hold their parts, and an object stands in full where it
comes first and as a reference everywhere else. What the bytes of a tree are, what value and what
objects they stand for and which limits they keep are functions of the tree alone; a heap matters
only to which tree a value has.
-/

namespace GraphRpc

open Binary Wire

namespace Scalar

def tag : Scalar → Tag
  | null => .null
  | bool _ => .bool
  | i8 _ => .i8
  | i16 _ => .i16
  | i32 _ => .i32
  | i64 _ => .i64
  | f32 _ => .f32
  | f64 _ => .f64
  | str _ => .str
  | bytes _ => .bytes

def content : Scalar → List UInt8
  | null => []
  | bool b => [if b then 1 else 0]
  | i8 n => bigEndian 1 n.toUInt8.toNat
  | i16 n => bigEndian 2 n.toUInt16.toNat
  | i32 n => bigEndian 4 n.toUInt32.toNat
  | i64 n => bigEndian 8 n.toUInt64.toNat
  | f32 x => bigEndian 4 x.bits.toNat
  | f64 x => bigEndian 8 x.bits.toNat
  | str s => spellText s
  | bytes data => bigEndian 4 data.size ++ data.data.toList

def spell (s : Scalar) : List UInt8 := s.tag.byte :: s.content

def Bounded (limits : Limits) : Scalar → Prop
  | str s => Within s.utf8ByteSize limits.maxStringLen
  | bytes data => Within data.size limits.maxBytesLen
  | _ => True

end Scalar

namespace Wire

inductive Tree where
  | scalar (s : Scalar)
  | array (items : List Tree)
  | map (entries : List (Tree × Tree))
  /-- An object that came before. -/
  | ref (h : Handle)
  /-- An object in full, with its number. -/
  | object (typeName : String) (h : Handle) (fields : List (String × Tree))

namespace Tree

def parts : Tree → List Tree
  | array items => items
  | map entries => flat entries
  | object _ _ fields => fields.map Prod.snd
  | scalar _ | ref _ => []

theorem sizeOf_lt_of_mem_parts {t p : Tree} (h : p ∈ t.parts) : sizeOf p < sizeOf t := by
  cases t with
  | array items =>
    have hs := List.sizeOf_lt_of_mem (show p ∈ items from h)
    rw [array.sizeOf_spec]
    omega
  | map entries =>
    have hs := sizeOf_lt_of_mem_flat h
    rw [map.sizeOf_spec]
    omega
  | object typeName number fields =>
    obtain ⟨⟨name, v⟩, hf, rfl⟩ := List.mem_map.1 h
    have hs := List.sizeOf_lt_of_mem hf
    rw [Prod.mk.sizeOf_spec] at hs
    rw [object.sizeOf_spec]
    dsimp only
    omega
  | _ => simp [parts] at h

/-- Induction over trees: what holds of a tree whenever it holds of its parts holds of all. -/
theorem byParts {P : Tree → Prop} (step : ∀ t, (∀ p ∈ t.parts, P p) → P t) (t : Tree) : P t :=
  step t fun p _ => byParts step p
termination_by sizeOf t
decreasing_by exact sizeOf_lt_of_mem_parts (by assumption)

/-- The tree and all trees within it, in the order in which they start on the wire. -/
def nodes (t : Tree) : List Tree := t :: t.parts.attach.flatMap fun p => p.1.nodes
termination_by sizeOf t
decreasing_by exact sizeOf_lt_of_mem_parts p.2

theorem nodes_eq (t : Tree) : t.nodes = t :: t.parts.flatMap nodes := by
  rw [nodes, List.flatMap_subtype (g := nodes) (by simp), List.unattach_attach]

theorem forall_mem_nodes {P : Tree → Prop} {t : Tree} :
    (∀ n ∈ t.nodes, P n) ↔ P t ∧ ∀ p ∈ t.parts, ∀ n ∈ p.nodes, P n := by
  rw [nodes_eq]
  simp only [List.mem_cons, forall_eq_or_imp, List.mem_flatMap]
  exact and_congr_right fun _ => ⟨fun h p hp n hn => h n ⟨p, hp, hn⟩, fun h n ⟨p, hp, hn⟩ => h p hp n hn⟩

theorem mem_nodes_self (t : Tree) : t ∈ t.nodes := by
  rw [nodes_eq]
  exact List.mem_cons_self

def value : Tree → Value
  | scalar s => s.value
  | array items => .array (items.map fun t => t.value)
  | map entries => .map (entries.map fun e => (e.1.value, e.2.value))
  | ref h => .object h
  | object _ h _ => .object h
termination_by t => sizeOf t
decreasing_by
  · exact sizeOf_lt_of_mem_parts (t := array items) (by assumption)
  · exact sizeOf_lt_of_mem_parts (t := map entries) (mem_flat.2 ⟨e, by assumption, .inl rfl⟩)
  · exact sizeOf_lt_of_mem_parts (t := map entries) (mem_flat.2 ⟨e, by assumption, .inr rfl⟩)

def spell : Tree → List UInt8
  | scalar s => s.spell
  | array items =>
    Tag.array.byte :: (bigEndian 4 items.length ++ items.flatMap fun t => t.spell)
  | map entries =>
    Tag.map.byte :: (bigEndian 4 entries.length ++ entries.flatMap fun e => e.1.spell ++ e.2.spell)
  | ref h => Tag.objectRef.byte :: bigEndian 4 h.slot
  | object typeName h fields =>
    Tag.object.byte :: (spellText typeName ++ bigEndian 4 h.slot ++ bigEndian 4 fields.length ++
      fields.flatMap fun f => spellText f.1 ++ f.2.spell)
termination_by t => sizeOf t
decreasing_by
  · exact sizeOf_lt_of_mem_parts (t := array items) (by assumption)
  · exact sizeOf_lt_of_mem_parts (t := map entries) (mem_flat.2 ⟨e, by assumption, .inl rfl⟩)
  · exact sizeOf_lt_of_mem_parts (t := map entries) (mem_flat.2 ⟨e, by assumption, .inr rfl⟩)
  · exact sizeOf_lt_of_mem_parts (t := object typeName h fields) (List.mem_map_of_mem (by assumption))

-- ---------------------------------------------------------------------------
-- Limits
-- ---------------------------------------------------------------------------

/-- The limits on the lengths that stand in a node itself. -/
def Bounded (limits : Limits) : Tree → Prop
  | scalar s => s.Bounded limits
  | array items => Within items.length limits.maxCollectionLen
  | map entries => Within entries.length limits.maxCollectionLen
  | ref _ => True
  | object typeName _ fields =>
    Within fields.length limits.maxFields ∧ Within typeName.utf8ByteSize limits.maxStringLen ∧
      ∀ f ∈ fields, Within f.1.utf8ByteSize limits.maxStringLen

/-- Containers and objects nest at most `room` deep. -/
def NestsWithin : (room : Nat) → Tree → Prop
  | _, scalar _ | _, ref _ => True
  | 0, _ => False
  | room + 1, t => ∀ p ∈ t.parts, p.NestsWithin room

structure Fits (limits : Limits) (room : Nat) (t : Tree) : Prop where
  bounded : ∀ n ∈ t.nodes, n.Bounded limits
  nests : t.NestsWithin room

theorem fits_iff {limits : Limits} {t : Tree} :
    t.Fits limits (room + 1) ↔ t.Bounded limits ∧ ∀ p ∈ t.parts, p.Fits limits room := by
  have hnests : t.NestsWithin (room + 1) ↔ ∀ p ∈ t.parts, p.NestsWithin room := by
    cases t <;> simp [NestsWithin, parts]
  constructor
  · rintro ⟨hb, hn⟩
    obtain ⟨hb, hbs⟩ := forall_mem_nodes.1 hb
    exact ⟨hb, fun p hp => ⟨hbs p hp, hnests.1 hn p hp⟩⟩
  · rintro ⟨hb, hp⟩
    exact ⟨forall_mem_nodes.2 ⟨hb, fun p h => (hp p h).bounded⟩, hnests.2 fun p h => (hp p h).nests⟩

theorem fits_scalar {limits : Limits} {s : Scalar} :
    (scalar s).Fits limits room ↔ s.Bounded limits := by
  constructor
  · intro h
    exact h.bounded _ (mem_nodes_self _)
  · intro h
    refine ⟨fun n hn => ?_, by cases room <;> trivial⟩
    rw [nodes_eq, parts, List.flatMap_nil, List.mem_singleton] at hn
    exact hn ▸ h

theorem fits_ref {limits : Limits} : (ref h).Fits limits room := by
  refine ⟨fun n hn => ?_, by cases room <;> trivial⟩
  rw [nodes_eq, parts, List.flatMap_nil, List.mem_singleton] at hn
  exact hn ▸ trivial

theorem fits_array {limits : Limits} {items : List Tree} :
    (array items).Fits limits (room + 1) ↔
      Within items.length limits.maxCollectionLen ∧ ∀ t ∈ items, t.Fits limits room := fits_iff

theorem fits_map {limits : Limits} {entries : List (Tree × Tree)} :
    (map entries).Fits limits (room + 1) ↔
      Within entries.length limits.maxCollectionLen ∧ ∀ t ∈ flat entries, t.Fits limits room := fits_iff

theorem fits_object {limits : Limits} {fields : List (String × Tree)} :
    (object typeName h fields).Fits limits (room + 1) ↔
      Within fields.length limits.maxFields ∧ Within typeName.utf8ByteSize limits.maxStringLen ∧
        (∀ f ∈ fields, Within f.1.utf8ByteSize limits.maxStringLen) ∧
        ∀ t ∈ fields.map Prod.snd, t.Fits limits room := by
  rw [fits_iff, Bounded, parts, and_assoc, and_assoc]

theorem not_fits_zero {limits : Limits} {t : Tree} (hs : ∀ s, t ≠ scalar s) (hr : ∀ h, t ≠ ref h) :
    ¬ t.Fits limits 0 := by
  intro ht
  have hn := ht.nests
  cases t with
  | scalar s => exact hs s rfl
  | ref h => exact hr h rfl
  | _ => exact hn

end Tree

def spellParams (ts : List Tree) : List UInt8 := bigEndian 4 ts.length ++ ts.flatMap Tree.spell

-- ---------------------------------------------------------------------------
-- Objects
-- ---------------------------------------------------------------------------

/-- What the wire says of an object that stands in full. -/
def Tree.blueprint? : Tree → Option Blueprint
  | .object typeName _ fields => some ⟨typeName, fields.map fun f => (f.1, f.2.value)⟩
  | _ => none

def nodes (ts : List Tree) : List Tree := ts.flatMap Tree.nodes

/-- The objects that stand in full in some trees, in wire order. -/
def objects (ts : List Tree) : List Blueprint := (nodes ts).filterMap Tree.blueprint?

/-- Objects are numbered on from `k` in wire order, and references go to smaller numbers. -/
def Sequential : (k : Nat) → (nodes : List Tree) → Prop
  | _, [] => True
  | k, .ref h :: rest => h.slot < k ∧ Sequential k rest
  | k, .object _ h _ :: rest => h.slot = k ∧ Sequential (k + 1) rest
  | k, .scalar _ :: rest | k, .array _ :: rest | k, .map _ :: rest => Sequential k rest

theorem sequential_append (a b : List Tree) : Sequential k (a ++ b) ↔
    Sequential k a ∧ Sequential (k + (a.filterMap Tree.blueprint?).length) b := by
  induction a generalizing k with
  | nil => simp [Sequential]
  | cons t a ih =>
    cases t with
    | ref h => simp [Sequential, ih, Tree.blueprint?, List.filterMap_cons, and_assoc]
    | object typeName h fields =>
      have hk (n : Nat) : k + 1 + n = k + (n + 1) := by omega
      simp [Sequential, ih, Tree.blueprint?, and_assoc, hk]
    | _ => simp [Sequential, ih, Tree.blueprint?, List.filterMap_cons]

theorem Sequential.length_le {nodes : List Tree} (h : Sequential k nodes) (hk : k ≤ 256 ^ 4) :
    k + (nodes.filterMap Tree.blueprint?).length ≤ 256 ^ 4 := by
  induction nodes generalizing k with
  | nil => exact hk
  | cons t nodes ih =>
    cases t with
    | ref number =>
      rw [List.filterMap_cons_none rfl]
      exact ih h.2 hk
    | object typeName number fields =>
      obtain ⟨rfl, h⟩ := h
      have hlen := ih h number.slot_lt
      change _ + ((nodes.filterMap Tree.blueprint?).length + 1) ≤ _
      omega
    | _ =>
      rw [List.filterMap_cons_none rfl]
      exact ih h hk

/-- Some trees are numbered as if `k` objects had come before. -/
def NumberedFrom (k : Nat) (ts : List Tree) : Prop := Sequential k (nodes ts)

section
variable {k : Nat} {t : Tree} {ts us : List Tree}

@[simp] theorem nodes_nil : nodes [] = [] := rfl

@[simp] theorem nodes_append : nodes (ts ++ us) = nodes ts ++ nodes us := List.flatMap_append

theorem nodes_singleton : nodes [t] = t :: nodes t.parts := by
  simp [nodes, Tree.nodes_eq t]

@[simp] theorem objects_nil : objects [] = [] := rfl

@[simp] theorem objects_append : objects (ts ++ us) = objects ts ++ objects us := by
  simp [objects]

theorem objects_cons : objects (t :: ts) = objects [t] ++ objects ts := @objects_append [t] ts

theorem objects_singleton : objects [t] = t.blueprint?.toList ++ objects t.parts := by
  rw [objects, nodes_singleton]
  cases h : t.blueprint? <;> simp [objects, h]

theorem objects_parts (ho : t.blueprint? = none) : objects [t] = objects t.parts := by
  rw [objects_singleton, ho]
  rfl

theorem objects_object {fields : List (String × Tree)} : objects [.object typeName h fields] =
    ⟨typeName, fields.map fun f => (f.1, f.2.value)⟩ :: objects (fields.map Prod.snd) :=
  objects_singleton

@[simp] theorem numberedFrom_nil : NumberedFrom k [] := trivial

theorem numberedFrom_append : NumberedFrom k (ts ++ us) ↔
    NumberedFrom k ts ∧ NumberedFrom (k + (objects ts).length) us := by
  rw [NumberedFrom, nodes_append, sequential_append]
  rfl

theorem numberedFrom_cons : NumberedFrom k (t :: ts) ↔
    NumberedFrom k [t] ∧ NumberedFrom (k + (objects [t]).length) ts :=
  @numberedFrom_append k [t] ts

theorem numberedFrom_ref : NumberedFrom k [.ref h] ↔ h.slot < k := by
  simp [NumberedFrom, nodes_singleton, Tree.parts, Sequential]

theorem numberedFrom_object {fields : List (String × Tree)} :
    NumberedFrom k [.object typeName h fields] ↔
      h.slot = k ∧ NumberedFrom (k + 1) (fields.map Prod.snd) := by
  simp [NumberedFrom, nodes_singleton, Tree.parts, Sequential]

theorem numberedFrom_parts (hr : ∀ h, t ≠ .ref h) (ho : t.blueprint? = none) :
    NumberedFrom k [t] ↔ NumberedFrom k t.parts := by
  cases t with
  | ref h => exact (hr h rfl).elim
  | object typeName h fields => cases ho
  | _ => rw [NumberedFrom, nodes_singleton]; rfl

end
end Wire
end GraphRpc
