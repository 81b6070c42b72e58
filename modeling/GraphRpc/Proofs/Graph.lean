import Mathlib
import GraphRpc.Proofs.Heap

/-!
# Object graphs

The values that come with a heap are the roots of a graph: a handle leads to an object, and the
object's fields hold further handles. What a walk sees of the objects is a view, so that the graph
is the same notion for records and for any other kind of object. Two graphs are the same up to
identity when renaming the handles of one gives the other.
-/

namespace GraphRpc

-- ---------------------------------------------------------------------------
-- Values
-- ---------------------------------------------------------------------------

inductive Scalar where
  | null
  | bool (b : Bool)
  | i8 (n : Int8)
  | i16 (n : Int16)
  | i32 (n : Int32)
  | i64 (n : Int64)
  | f32 (x : Binary32)
  | f64 (x : Binary64)
  | str (s : String)
  | bytes (data : ByteArray)

def Scalar.value : Scalar → Value
  | null => .null
  | bool b => .bool b
  | i8 n => .i8 n
  | i16 n => .i16 n
  | i32 n => .i32 n
  | i64 n => .i64 n
  | f32 x => .f32 x
  | f64 x => .f64 x
  | str s => .str s
  | bytes data => .bytes data

theorem Scalar.value_inj {s s' : Scalar} : s.value = s'.value ↔ s = s' := by
  cases s <;> cases s' <;> simp [value]

theorem Scalar.value_ne_array {s : Scalar} : s.value ≠ .array items := by cases s <;> nofun

theorem Scalar.value_ne_map {s : Scalar} : s.value ≠ .map entries := by cases s <;> nofun

theorem Scalar.value_ne_object {s : Scalar} : s.value ≠ .object h := by cases s <;> nofun

theorem Value.shape (v : Value) : (∃ s : Scalar, v = s.value) ∨ (∃ items, v = .array items) ∨
    (∃ entries, v = .map entries) ∨ ∃ h, v = .object h := by
  cases v with
  | null => exact .inl ⟨.null, rfl⟩
  | bool b => exact .inl ⟨.bool b, rfl⟩
  | i8 n => exact .inl ⟨.i8 n, rfl⟩
  | i16 n => exact .inl ⟨.i16 n, rfl⟩
  | i32 n => exact .inl ⟨.i32 n, rfl⟩
  | i64 n => exact .inl ⟨.i64 n, rfl⟩
  | f32 x => exact .inl ⟨.f32 x, rfl⟩
  | f64 x => exact .inl ⟨.f64 x, rfl⟩
  | str s => exact .inl ⟨.str s, rfl⟩
  | bytes data => exact .inl ⟨.bytes data, rfl⟩
  | array items => exact .inr (.inl ⟨items, rfl⟩)
  | map entries => exact .inr (.inr (.inl ⟨entries, rfl⟩))
  | object h => exact .inr (.inr (.inr ⟨h, rfl⟩))

def flat {β : Type} (entries : List (β × β)) : List β := entries.flatMap fun e => [e.1, e.2]

section Flat
variable {β γ : Type}

@[simp] theorem flat_nil : flat ([] : List (β × β)) = [] := rfl

@[simp] theorem flat_cons (e : β × β) (entries : List (β × β)) :
    flat (e :: entries) = e.1 :: e.2 :: flat entries := rfl

theorem mem_flat {entries : List (β × β)} : b ∈ flat entries ↔ ∃ e ∈ entries, b = e.1 ∨ b = e.2 := by
  simp [flat]

theorem map_flat (f : β → γ) (entries : List (β × β)) :
    (flat entries).map f = flat (entries.map fun e => (f e.1, f e.2)) := by
  induction entries with
  | nil => rfl
  | cons e entries ih => simp [ih]

theorem flatMap_flat (f : β → List γ) (entries : List (β × β)) :
    (flat entries).flatMap f = entries.flatMap fun e => f e.1 ++ f e.2 := by
  induction entries with
  | nil => rfl
  | cons e entries ih => simp [ih]

theorem flat_inj : ∀ {a b : List (β × β)}, flat a = flat b ↔ a = b
  | [], [] => by simp
  | [], _ :: _ => by simp
  | _ :: _, [] => by simp
  | (k, v) :: a, (l, w) :: b => by simp [flat_inj (a := a) (b := b), and_assoc]

theorem length_flat (entries : List (β × β)) : (flat entries).length = 2 * entries.length := by
  induction entries with
  | nil => rfl
  | cons e entries ih =>
    simp only [flat_cons, List.length_cons, ih]
    omega

theorem sizeOf_lt_of_mem_flat [SizeOf β] {entries : List (β × β)} (h : b ∈ flat entries) :
    sizeOf b < sizeOf entries := by
  obtain ⟨⟨k, v⟩, he, hb⟩ := mem_flat.1 h
  have hs := List.sizeOf_lt_of_mem he
  rw [Prod.mk.sizeOf_spec] at hs
  rcases hb with rfl | rfl <;> omega

end Flat

namespace Value

def parts : Value → List Value
  | array items => items
  | map entries => flat entries
  | _ => []

theorem sizeOf_lt_of_mem_parts {v p : Value} (h : p ∈ v.parts) : sizeOf p < sizeOf v := by
  cases v with
  | array items =>
    have hs := List.sizeOf_lt_of_mem (show p ∈ items from h)
    rw [array.sizeOf_spec]
    omega
  | map entries =>
    have hs := sizeOf_lt_of_mem_flat h
    rw [map.sizeOf_spec]
    omega
  | _ => simp [parts] at h

/-- Induction over values: what holds of a value whenever it holds of its parts holds of all. -/
theorem byParts {P : Value → Prop} (step : ∀ v, (∀ p ∈ v.parts, P p) → P v) (v : Value) : P v :=
  step v fun p _ => byParts step p
termination_by sizeOf v
decreasing_by exact sizeOf_lt_of_mem_parts (by assumption)

def handles : Value → List Handle
  | object h => [h]
  | array items => items.flatMap fun v => v.handles
  | map entries => entries.flatMap fun e => e.1.handles ++ e.2.handles
  | _ => []
termination_by v => sizeOf v
decreasing_by
  · exact sizeOf_lt_of_mem_parts (v := array items) (by assumption)
  · exact sizeOf_lt_of_mem_parts (v := map entries) (mem_flat.2 ⟨e, by assumption, .inl rfl⟩)
  · exact sizeOf_lt_of_mem_parts (v := map entries) (mem_flat.2 ⟨e, by assumption, .inr rfl⟩)

def rename (f : Handle → Handle) : Value → Value
  | object h => object (f h)
  | array items => array (items.map fun v => v.rename f)
  | map entries => map (entries.map fun e => (e.1.rename f, e.2.rename f))
  | v => v
termination_by v => sizeOf v
decreasing_by
  · exact sizeOf_lt_of_mem_parts (v := array items) (by assumption)
  · exact sizeOf_lt_of_mem_parts (v := map entries) (mem_flat.2 ⟨e, by assumption, .inl rfl⟩)
  · exact sizeOf_lt_of_mem_parts (v := map entries) (mem_flat.2 ⟨e, by assumption, .inr rfl⟩)

@[simp] theorem handles_scalar (s : Scalar) : s.value.handles = [] := by
  cases s <;> rw [Scalar.value, handles] <;> simp

@[simp] theorem handles_object (h : Handle) : (object h).handles = [h] := by rw [handles]

theorem handles_array (items : List Value) : (array items).handles = items.flatMap handles := by
  rw [handles]

theorem handles_map (entries : List (Value × Value)) :
    (map entries).handles = (flat entries).flatMap handles := by
  rw [handles, flatMap_flat]

@[simp] theorem rename_scalar (f : Handle → Handle) (s : Scalar) : s.value.rename f = s.value := by
  cases s <;> rw [Scalar.value, rename] <;> simp

@[simp] theorem rename_object (f : Handle → Handle) (h : Handle) :
    (object h).rename f = object (f h) := by rw [rename]

theorem rename_array (f : Handle → Handle) (items : List Value) :
    (array items).rename f = array (items.map (rename f)) := by rw [rename]

theorem rename_map (f : Handle → Handle) (entries : List (Value × Value)) :
    (map entries).rename f = map (entries.map fun e => (e.1.rename f, e.2.rename f)) := by rw [rename]

end Value

-- ---------------------------------------------------------------------------
-- Views
-- ---------------------------------------------------------------------------

/-- What a walk sees of an object, which is also enough to build it. -/
structure Blueprint where
  typeName : String
  fields : List (String × Value)

namespace Blueprint

def handles (b : Blueprint) : List Handle := b.fields.flatMap fun f => f.2.handles

def rename (f : Handle → Handle) (b : Blueprint) : Blueprint :=
  ⟨b.typeName, b.fields.map fun field => (field.1, field.2.rename f)⟩

end Blueprint

/-- What a walk sees behind each handle. -/
abbrev View := Handle → Option Blueprint

/-- The records of a heap with their type names and fields. Nothing else is seen. -/
def Heap.records {α : Type} (heap : Heap α) : View := fun h =>
  (heap.slot? h).bind fun slot => slot.object.record?.map fun r => ⟨slot.typeName, r.fields⟩

-- ---------------------------------------------------------------------------
-- Walks
-- ---------------------------------------------------------------------------

inductive Reaches (view : View) (roots : List Handle) : Handle → Prop
  | root : h ∈ roots → Reaches view roots h
  | field : Reaches view roots g → view g = some b → h ∈ b.handles → Reaches view roots h

/-- A depth-first walk. It started with the handles in `met`, goes through all the objects that the
next handles lead to, object by object and field by field, and met the handles in `met'` in this
order. -/
inductive Encounters (view : View) : (met next met' : List Handle) → Prop
  | done : Encounters view met [] met
  | again : h ∈ met → Encounters view met next met' → Encounters view met (h :: next) met'
  | first : h ∉ met → view h = some b → Encounters view (met ++ [h]) (b.handles ++ next) met' →
      Encounters view met (h :: next) met'

namespace Encounters

variable {view : View} {met next met' : List Handle}

theorem append (ha : Encounters view met a mid) (hb : Encounters view mid b met') :
    Encounters view met (a ++ b) met' := by
  induction ha with
  | done => exact hb
  | again hmem _ ih => exact again hmem (ih hb)
  | first hnew hview _ ih =>
    rw [List.cons_append]
    refine first hnew hview ?_
    rw [← List.append_assoc]
    exact ih hb

theorem met_prefix (h : Encounters view met next met') : met <+: met' := by
  induction h with
  | done => exact List.prefix_rfl
  | again _ _ ih => exact ih
  | first _ _ _ ih => exact (List.prefix_append _ _).trans ih

theorem nodup (h : Encounters view met next met') (hmet : met.Nodup) : met'.Nodup := by
  induction h with
  | done => exact hmet
  | again _ _ ih => exact ih hmet
  | first hnew _ _ ih =>
    refine ih ?_
    rw [← List.concat_eq_append]
    exact .concat hnew hmet

theorem next_subset (h : Encounters view met next met') : next ⊆ met' := by
  induction h with
  | done => exact List.nil_subset _
  | again hmem htail ih => exact List.cons_subset.2 ⟨htail.met_prefix.subset hmem, ih⟩
  | first _ _ htail ih =>
    refine List.cons_subset.2 ⟨htail.met_prefix.subset (by simp), ?_⟩
    exact fun g hg => ih (List.mem_append_right _ hg)

/-- Whatever the walk met by itself it could see, and it went on to all that is in there. -/
theorem closed (h : Encounters view met next met') (hg : g ∈ met') :
    g ∈ met ∨ ∃ b, view g = some b ∧ b.handles ⊆ met' := by
  induction h with
  | done => exact .inl hg
  | again _ _ ih => exact ih hg
  | first _ hview htail ih =>
    rcases ih hg with hmem | hb
    · rcases List.mem_append.1 hmem with hmem | hlast
      · exact .inl hmem
      · obtain rfl := List.mem_singleton.1 hlast
        exact .inr ⟨_, hview, fun _ hk => htail.next_subset (List.mem_append_left _ hk)⟩
    · exact .inr hb

theorem reaches (h : Encounters view met next met') (hmet : ∀ g ∈ met, Reaches view roots g)
    (hnext : ∀ g ∈ next, Reaches view roots g) : ∀ g ∈ met', Reaches view roots g := by
  induction h with
  | done => exact hmet
  | again _ _ ih => exact ih hmet (List.forall_mem_cons.1 hnext).2
  | first _ hview _ ih =>
    obtain ⟨hh, hnext⟩ := List.forall_mem_cons.1 hnext
    refine ih (fun g hg => ?_) (fun g hg => ?_)
    · exact (List.mem_append.1 hg).elim (hmet g) fun hg => List.mem_singleton.1 hg ▸ hh
    · exact (List.mem_append.1 hg).elim (hh.field hview) (hnext g)

/-- A walk from nothing meets exactly the handles that its roots lead to. -/
theorem mem_iff_reaches (h : Encounters view [] roots met') : g ∈ met' ↔ Reaches view roots g := by
  constructor
  · exact h.reaches (by simp) (fun _ => .root) g
  · intro hg
    induction hg with
    | root hr => exact h.next_subset hr
    | field _ hview hb ih =>
      obtain hmem | ⟨b, hview', hsub⟩ := h.closed ih
      · cases hmem
      · cases hview.symm.trans hview'
        exact hsub hb

end Encounters

-- ---------------------------------------------------------------------------
-- Renumberings
-- ---------------------------------------------------------------------------

/-- `heap'` has what `vs` lead to in `heap` and nothing else: `number` counts the handles in the
order in which a depth-first walk first meets them, and gives each the slot of its record. -/
structure Renumbering {α : Type} (heap heap' : Heap α) (vs vs' : List Value)
    (number : Handle → Nat) : Prop where
  encounters : ∃ order, Encounters heap.records [] (vs.flatMap Value.handles) order ∧
    ∀ i (hi : i < order.length), number order[i] = i
  bijOn : Set.BijOn number {h | Reaches heap.records (vs.flatMap Value.handles) h}
    {n | n < heap'.size}
  values : vs' = vs.map (Value.rename fun h => .ofSlot (number h))
  records : ∀ h, Reaches heap.records (vs.flatMap Value.handles) h → ∃ b, heap.records h = some b ∧
    heap'.records (.ofSlot (number h)) = some (b.rename fun h => .ofSlot (number h))

end GraphRpc
