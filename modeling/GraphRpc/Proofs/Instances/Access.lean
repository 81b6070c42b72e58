import Mathlib
import GraphRpc.Proofs.Isomorphism
import GraphRpc.Proofs.RoundTrip
import GraphRpc.Sample

/-!
# Instances of application types

An application type is registered with accessors for its fields. Accessors that restore an instance
from what they read of it make the type one that can be sent: what the reader of the type sees of
an instance is enough for the writer of the type to build it again. Both are found by the same name,
one with the instance at hand and the other without it.
-/

namespace GraphRpc

open Wire

-- ---------------------------------------------------------------------------
-- Application types
-- ---------------------------------------------------------------------------

/-- An application type among the instances `α`, with the access to its fields. -/
structure AppType (α : Type) where
  τ : Type
  access : TypedAccess α τ
  unwrap_eq_some : ∀ {a x}, access.unwrap a = some x ↔ a = access.wrap x
  rename : (Handle → Handle) → τ → τ
  rename_id : ∀ x, rename id x = x

namespace AppType

variable {α : Type} {t : AppType α} {f : Handle → Handle}

def name (t : AppType α) : String := t.access.typeName

def object (t : AppType α) (x : t.τ) : Object α := .app (t.access.wrap x)

/-- The accessors have names of their own. Setting every field of a blank instance, in order, to
what its accessor reads of another instance, with the handles in it replaced one to one, gives that
other instance with its handles replaced. -/
structure Restoring (t : AppType α) : Prop where
  nodup : (t.access.accessors.map Accessor.name).Nodup
  restores : ∀ f : Handle → Handle, Function.Injective f → ∀ x,
    t.access.accessors.foldlM (fun y a => a.set y ((a.get x).rename f)) t.access.blank =
      .ok (t.rename f x)

-- ---------------------------------------------------------------------------
-- Reading and filling
-- ---------------------------------------------------------------------------

theorem instanceOf_object (t : AppType α) (x : t.τ) : t.access.instanceOf (t.object x) = .ok x := by
  have hunwrap : t.access.instance? (t.object x) = some x := t.unwrap_eq_some.2 rfl
  rw [TypedAccess.instanceOf, hunwrap]

theorem Restoring.accessor (h : t.Restoring) (ha : a ∈ t.access.accessors) :
    t.access.accessor a.name = .ok a := by
  have hfind : t.access.accessors.find? (·.name == a.name) = some a := by
    have hinj := List.inj_on_of_nodup_map h.nodup
    obtain ⟨b, hb⟩ := Option.isSome_iff_exists.1
      (List.find?_isSome (p := fun b => b.name == a.name) |>.2 ⟨a, ha, beq_self_eq_true _⟩)
    have hname := beq_iff_eq.1 (List.find?_some (p := fun b : Accessor t.τ => b.name == a.name) hb)
    rw [hb, hinj (List.mem_of_find?_eq_some hb) ha hname]
  rw [TypedAccess.accessor, hfind]

def fields (t : AppType α) (x : t.τ) : List (String × Value) :=
  t.access.accessors.map fun a => (a.name, a.get x)

theorem Restoring.mapM_get (h : t.Restoring) (x : t.τ) :
    ((t.access.accessors.map Accessor.name).mapM fun name => do
      return (name, ← t.access.toFieldAccess.get (t.object x) name)) = .ok (t.fields x) := by
  have hsub : ∀ {as : List (Accessor t.τ)}, as ⊆ t.access.accessors →
      ((as.map Accessor.name).mapM fun name => do
        return (name, ← t.access.toFieldAccess.get (t.object x) name)) =
        .ok (as.map fun a => (a.name, a.get x)) := by
    intro as has
    induction as with
    | nil => rfl
    | cons a as ih =>
      obtain ⟨ha, has⟩ := List.cons_subset.1 has
      have hget : t.access.toFieldAccess.get (t.object x) a.name = .ok (a.get x) :=
        except_bind_ok.2 ⟨x, t.instanceOf_object x, except_bind_ok.2 ⟨a, h.accessor ha, rfl⟩⟩
      rw [List.map_cons, List.mapM_cons]
      exact except_bind_ok.2 ⟨(a.name, a.get x), except_bind_ok.2 ⟨_, hget, rfl⟩,
        except_bind_ok.2 ⟨_, ih has, rfl⟩⟩
  exact hsub (List.Subset.refl _)

theorem Restoring.foldlM_set (h : t.Restoring) (g : Accessor t.τ → Value) {as : List (Accessor t.τ)}
    (has : as ⊆ t.access.accessors) {x y : t.τ} (hfold : as.foldlM (fun y a => a.set y (g a)) x = .ok y) :
    (as.map fun a => (a.name, g a)).foldlM (fun o f => t.access.toFieldAccess.set o f.1 f.2)
      (t.object x) = .ok (t.object y) := by
  induction as generalizing x with
  | nil =>
    cases hfold
    rfl
  | cons a as ih =>
    obtain ⟨ha, has⟩ := List.cons_subset.1 has
    rw [List.foldlM_cons, except_bind_ok] at hfold
    obtain ⟨x', hset, hfold⟩ := hfold
    have hstep : t.access.toFieldAccess.set (t.object x) a.name (g a) = .ok (t.object x') :=
      except_bind_ok.2 ⟨a, h.accessor ha, except_bind_ok.2 ⟨x, t.instanceOf_object x,
        except_bind_ok.2 ⟨x', hset, rfl⟩⟩⟩
    rw [List.map_cons, List.foldlM_cons]
    exact except_bind_ok.2 ⟨_, hstep, ih has hfold⟩

/-- An instance is built again from what was read of it. -/
theorem Restoring.fill (h : t.Restoring) (hf : Function.Injective f) (x : t.τ) :
    ((t.fields x).map fun field => (field.1, field.2.rename f)).foldlM
      (fun o f => t.access.toFieldAccess.set o f.1 f.2) (t.object t.access.blank) =
        .ok (t.object (t.rename f x)) := by
  rw [fields, List.map_map]
  exact h.foldlM_set (fun a => (a.get x).rename f) (List.Subset.refl _) (h.restores f hf x)

-- ---------------------------------------------------------------------------
-- Their registry
-- ---------------------------------------------------------------------------

variable {types : List (AppType α)} {matchers : List (FieldAccess α)}

/-- The registry of some application types, each under its own name. Besides there may be matchers, and
all else is left to the record access. -/
def registry (types : List (AppType α)) (matchers : List (FieldAccess α)) : Registry α :=
  ⟨types.map fun t => (t.name, t.access.toFieldAccess), matchers, .record⟩

def named? (types : List (AppType α)) (name : String) : Option (AppType α) :=
  types.find? (·.name == name)

theorem name_of_named? (h : named? types typeName = some t) : t.name = typeName :=
  beq_iff_eq.1 (List.find?_some (p := fun t : AppType α => t.name == typeName) h)

theorem candidates_registry (typeName : String) : (registry types matchers).candidates typeName =
    ((named? types typeName).map fun t => t.access.toFieldAccess).toList ++ matchers ++ [.record] := by
  have hlookup : (registry types matchers).byType.lookup typeName =
      (named? types typeName).map fun t => t.access.toFieldAccess := by
    unfold registry named?
    induction types with
    | nil => rfl
    | cons t types ih =>
      rw [List.map_cons, List.lookup_cons, List.find?_cons, BEq.comm (a := t.name), ih]
      cases typeName == t.name <;> rfl
  rw [Registry.candidates, hlookup]
  rfl

theorem resolveReader_named (h : named? types typeName = some t) (x : t.τ) :
    (registry types matchers).resolveReader typeName (t.object x) = .ok t.access.toFieldAccess := by
  have hcan : t.access.toFieldAccess.canRead typeName (t.object x) = true := by
    have hunwrap : t.access.instance? (t.object x) = some x := t.unwrap_eq_some.2 rfl
    have hname : t.access.typeName = typeName := name_of_named? h
    simp only [TypedAccess.toFieldAccess, hunwrap, hname, beq_self_eq_true, Option.isSome_some,
      Bool.and_self]
  rw [Registry.resolveReader, candidates_registry, h, Option.map_some, Option.toList_some,
    List.append_assoc, List.singleton_append, List.find?_cons, hcan]

theorem resolveWriter_named (h : named? types typeName = some t) :
    (registry types matchers).resolveWriter typeName = .ok t.access.toFieldAccess := by
  have hcan : t.access.toFieldAccess.canWrite typeName = true := by
    have hname : t.access.typeName = typeName := name_of_named? h
    simp only [TypedAccess.toFieldAccess, hname, beq_self_eq_true]
  rw [Registry.resolveWriter, candidates_registry, h, Option.map_some, Option.toList_some,
    List.append_assoc, List.singleton_append, List.find?_cons, hcan]

theorem resolveReader_unnamed (h : named? types typeName = none)
    (hm : ∀ m ∈ matchers, m.canRead typeName (.record r) = false) :
    (registry types matchers).resolveReader typeName (.record r) = .ok .record := by
  have hnone : matchers.find? (·.canRead typeName (.record r)) = none :=
    List.find?_eq_none.2 fun m hmem => by simp [hm m hmem]
  rw [Registry.resolveReader, candidates_registry, h, List.find?_append, List.find?_append, hnone]
  rfl

theorem resolveWriter_unnamed (h : named? types typeName = none)
    (hm : ∀ m ∈ matchers, m.canWrite typeName = false) :
    (registry types matchers).resolveWriter typeName = .ok .record := by
  have hnone : matchers.find? (·.canWrite typeName) = none :=
    List.find?_eq_none.2 fun m hmem => by simp [hm m hmem]
  rw [Registry.resolveWriter, candidates_registry, h, List.find?_append, List.find?_append, hnone]
  rfl

end AppType
end GraphRpc
