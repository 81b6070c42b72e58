import Mathlib
import GraphRpc.Heap.Equality
import GraphRpc.Proofs.Graph

/-!
# Bisimilar graphs

Two graphs are bisimilar when a relation between their objects accounts for it: related objects have
the same type name and the same fields in order, and what is in their fields is the same up to related
objects. A comparison that goes from pair to pair, and takes a pair of objects that it met before to
agree, finds just that out. It may do so because a pair that does not agree ends all of it.
-/

namespace GraphRpc

open Value (Seen)

-- ---------------------------------------------------------------------------
-- Bisimilarity
-- ---------------------------------------------------------------------------

def Scalar.Same : Scalar → Scalar → Prop
  | f32 x, f32 y => x.ieeeEq y
  | f64 x, f64 y => x.ieeeEq y
  | s, t => s = t

/-- Values of one shape with related handles at the same places and equal scalars everywhere else. -/
inductive Value.Alike (R : Handle → Handle → Prop) : Value → Value → Prop
  | scalar {s t : Scalar} (h : s.Same t) : Alike R s.value t.value
  | array {as bs : List Value} (h : List.Forall₂ (Alike R) as bs) : Alike R (.array as) (.array bs)
  | map {as bs : List (Value × Value)} (h : List.Forall₂ (Alike R) (flat as) (flat bs)) :
    Alike R (.map as) (.map bs)
  | object {x y : Handle} (h : R x y) : Alike R (.object x) (.object y)

namespace Record

def values (r : Record) : List Value := r.fields.map Prod.snd

theorem length_values {r s : Record} (h : r.names = s.names) : r.values.length = s.values.length := by
  simpa [values, names] using congrArg List.length h

structure Alike (R : Handle → Handle → Prop) (r s : Record) : Prop where
  names : r.names = s.names
  values : List.Forall₂ (Value.Alike R) r.values s.values

end Record

namespace Heap

variable {α : Type}

/-- Two objects that cannot be told apart if related ones cannot. The heaps may be `one` and the
same. -/
structure Matches (left right : Heap α) (one : Bool) (R : Handle → Handle → Prop) (x y : Handle) :
    Prop where
  typeName : left.typeName? x = right.typeName? y
  object : (∃ r s, left.record? x = some r ∧ right.record? y = some s ∧ r.Alike R s) ∨
    left.record? x = none ∧ right.record? y = none ∧ one = true ∧ x = y

def Bisimulation (left right : Heap α) (one : Bool) (R : Handle → Handle → Prop) : Prop :=
  ∀ x y, R x y → left.Matches right one R x y

def Bisimilar (left right : Heap α) (one : Bool) (a b : Value) : Prop :=
  ∃ R, left.Bisimulation right one R ∧ a.Alike R b

-- ---------------------------------------------------------------------------
-- Comparing
-- ---------------------------------------------------------------------------

/-- What is to be compared in place of two values, or nothing if they differ. -/
def unfolded? (left right : Heap α) (one : Bool) : Value → Value → Option (List (Value × Value))
  | .object x, .object y =>
    if left.typeName? x = right.typeName? y then
      match left.record? x, right.record? y with
      | some r, some s => if r.names = s.names then some (r.values.zip s.values) else none
      | none, none => if one && x == y then some [] else none
      | _, _ => none
    else none
  | .array as, .array bs => if as.length = bs.length then some (as.zip bs) else none
  | .map as, .map bs => if as.length = bs.length then some ((flat as).zip (flat bs)) else none
  | a, b => if a.eqv b then some [] else none

end Heap

def Value.pair : Value → Value → Seen
  | .object x, .object y => [(x, y)]
  | _, _ => []

namespace Heap

variable {α : Type}

/-- Comparing pairs of values, the first ones first, comes to an `answer` after finitely many pairs,
where the pairs of objects in `seen` were met before. -/
inductive Compares (left right : Heap α) (one : Bool) : Seen → List (Value × Value) → Bool → Prop
  | done (seen : Seen) : Compares left right one seen [] true
  | met (h : (x, y) ∈ seen) (next : Compares left right one seen rest answer) :
    Compares left right one seen ((.object x, .object y) :: rest) answer
  | differ (hnew : ∀ p ∈ a.pair b, p ∉ seen) (h : left.unfolded? right one a b = none)
    (rest : List (Value × Value)) : Compares left right one seen ((a, b) :: rest) false
  | unfold (hnew : ∀ p ∈ a.pair b, p ∉ seen) (h : left.unfolded? right one a b = some pairs)
    (next : Compares left right one (a.pair b ++ seen) (pairs ++ rest) answer) :
    Compares left right one seen ((a, b) :: rest) answer

end Heap

-- ---------------------------------------------------------------------------
-- What differs is not bisimilar, and the rest is
-- ---------------------------------------------------------------------------

theorem beq_bytes {a b : ByteArray} : (a == b) = true ↔ a = b := by
  have hdata : (a == b) = (a.data == b.data) := rfl
  rw [hdata, beq_iff_eq, ByteArray.ext_iff]

theorem Scalar.eqv_value {s t : Scalar} : s.value.eqv t.value = true ↔ s.Same t := by
  cases s <;> cases t <;> simp [value, Value.eqv, Same, beq_bytes]

theorem Value.pair_cases (a b : Value) :
    (∃ x y, a = .object x ∧ b = .object y) ∨ a.pair b = [] := by
  cases a <;> cases b <;> simp [pair]

theorem forall₂_iff_zip {R : Value → Value → Prop} {as bs : List Value} : List.Forall₂ R as bs ↔
    as.length = bs.length ∧ ∀ p ∈ as.zip bs, R p.1 p.2 := by
  rw [List.forall₂_iff_zip, Prod.forall]

namespace Heap

variable {α : Type} {left right : Heap α} {one : Bool} {R : Handle → Handle → Prop} {a b : Value}
  {x y : Handle} {pairs : List (Value × Value)} {answer : Bool} {seen : Seen}

theorem matches_iff_unfolded : left.Matches right one R x y ↔
    ∃ pairs, left.unfolded? right one (.object x) (.object y) = some pairs ∧
      ∀ p ∈ pairs, p.1.Alike R p.2 := by
  constructor
  · rintro ⟨htype, ⟨r, s, hr, hs, hnames, hvalues⟩ | ⟨hr, hs, rfl, rfl⟩⟩
    · refine ⟨r.values.zip s.values, ?_, (forall₂_iff_zip.1 hvalues).2⟩
      simp only [unfolded?, htype, hr, hs, hnames, if_true]
    · exact ⟨[], by simp [unfolded?, htype, hr, hs], by simp⟩
  · rintro ⟨pairs, h, hpairs⟩
    simp only [unfolded?] at h
    split at h
    · next htype =>
      refine ⟨htype, ?_⟩
      split at h
      · next r s hr hs =>
        split at h
        · next hnames =>
          cases h
          have hlen := Record.length_values hnames
          exact .inl ⟨r, s, hr, hs, hnames, forall₂_iff_zip.2 ⟨hlen, hpairs⟩⟩
        · cases h
      · next hr hs =>
        split at h
        · next hone =>
          obtain ⟨hone, hxy⟩ := Bool.and_eq_true_iff.1 hone
          exact .inr ⟨hr, hs, hone, beq_iff_eq.1 hxy⟩
        · cases h
      · cases h
    · cases h

theorem unfolded?_of_scalar (left right : Heap α) (one : Bool) (s : Scalar) (b : Value) :
    left.unfolded? right one s.value b = if s.value.eqv b then some [] else none := by
  cases s <;> rfl

theorem alike_of_unfolded (hpair : a.pair b = []) (h : left.unfolded? right one a b = some pairs)
    (hpairs : ∀ p ∈ pairs, p.1.Alike R p.2) : a.Alike R b := by
  obtain ⟨s, rfl⟩ | ⟨as, rfl⟩ | ⟨as, rfl⟩ | ⟨x, rfl⟩ := a.shape
  · obtain ⟨t, rfl⟩ | ⟨bs, rfl⟩ | ⟨bs, rfl⟩ | ⟨y, rfl⟩ := b.shape
    · rw [unfolded?_of_scalar] at h
      split at h
      · next hsame => exact .scalar (Scalar.eqv_value.1 hsame)
      · cases h
    all_goals cases s <;> cases h
  · cases b with
    | array bs =>
      simp only [unfolded?] at h
      split at h
      · next hlen =>
        cases h
        exact .array (forall₂_iff_zip.2 ⟨hlen, hpairs⟩)
      · cases h
    | _ => cases h
  · cases b with
    | map bs =>
      simp only [unfolded?] at h
      split at h
      · next hlen =>
        cases h
        refine .map (forall₂_iff_zip.2 ⟨?_, hpairs⟩)
        rw [length_flat, length_flat, hlen]
      · cases h
    | _ => cases h
  · cases b with
    | object y => cases hpair
    | _ => cases h

theorem unfolded_of_alike (hR : left.Bisimulation right one R) (h : a.Alike R b) :
    ∃ pairs, left.unfolded? right one a b = some pairs ∧ ∀ p ∈ pairs, p.1.Alike R p.2 := by
  cases h with
  | scalar h => exact ⟨[], by rw [unfolded?_of_scalar, if_pos (Scalar.eqv_value.2 h)], by simp⟩
  | array h =>
    obtain ⟨hlen, hpairs⟩ := forall₂_iff_zip.1 h
    exact ⟨_, if_pos hlen, hpairs⟩
  | map h =>
    obtain ⟨hlen, hpairs⟩ := forall₂_iff_zip.1 h
    rw [length_flat, length_flat] at hlen
    exact ⟨_, if_pos (by omega), hpairs⟩
  | object h => exact matches_iff_unfolded.1 (hR _ _ h)

/-- Pairs of objects that were found to agree make up a bisimulation. -/
theorem Compares.sound (h : Compares left right one seen pairs answer) (hyes : answer = true) :
    ∃ met : Seen, seen ⊆ met ∧ (∀ p ∈ pairs, p.1.Alike (fun x y => (x, y) ∈ met) p.2) ∧
      ∀ x y, (x, y) ∈ met → (x, y) ∈ seen ∨ left.Matches right one (fun x y => (x, y) ∈ met) x y := by
  induction h with
  | done seen => exact ⟨seen, fun _ => id, by simp, fun _ _ => .inl⟩
  | met h next ih =>
    obtain ⟨met, hseen, hrest, hmatches⟩ := ih hyes
    exact ⟨met, hseen, List.forall_mem_cons.2 ⟨.object (hseen h), hrest⟩, hmatches⟩
  | differ => cases hyes
  | @unfold seen a b pairs rest answer hnew h next ih =>
    obtain ⟨met, hseen, hpairs, hmatches⟩ := ih hyes
    obtain ⟨hhere, hrest⟩ := List.forall_mem_append.1 hpairs
    -- What two objects lead to is compared before anything is concluded about them, so the pairs met
    -- in the end bear out every one of them.
    refine ⟨met, fun p hp => hseen (List.mem_append_right _ hp), ?_, ?_⟩
    · refine List.forall_mem_cons.2 ⟨?_, hrest⟩
      obtain ⟨x, y, rfl, rfl⟩ | hpair := a.pair_cases b
      · exact .object (hseen (List.mem_append_left _ (List.mem_singleton_self _)))
      · exact alike_of_unfolded hpair h hhere
    · intro x y hxy
      refine (hmatches x y hxy).elim (fun hmem => ?_) .inr
      rcases List.mem_append.1 hmem with hpair | hmem
      · obtain ⟨x', y', rfl, rfl⟩ | hnone := a.pair_cases b
        · cases List.mem_singleton.1 hpair
          exact .inr (matches_iff_unfolded.2 ⟨pairs, h, hhere⟩)
        · rw [hnone] at hpair
          cases hpair
      · exact .inl hmem

/-- What is found to differ is not related by any bisimulation. -/
theorem Compares.complete (hR : left.Bisimulation right one R)
    (h : Compares left right one seen pairs answer) (hpairs : ∀ p ∈ pairs, p.1.Alike R p.2) :
    answer = true := by
  induction h with
  | done => rfl
  | met h next ih => exact ih (List.forall_mem_cons.1 hpairs).2
  | differ hnew h rest =>
    obtain ⟨pairs, hsome, -⟩ := unfolded_of_alike hR (List.forall_mem_cons.1 hpairs).1
    rw [h] at hsome
    cases hsome
  | unfold hnew h next ih =>
    obtain ⟨hhere, hrest⟩ := List.forall_mem_cons.1 hpairs
    obtain ⟨pairs, hsome, hparts⟩ := unfolded_of_alike hR hhere
    rw [h] at hsome
    cases hsome
    exact ih (List.forall_mem_append.2 ⟨hparts, hrest⟩)

theorem Compares.bisimilar_iff (h : Compares left right one [] [(a, b)] answer) :
    answer = true ↔ left.Bisimilar right one a b := by
  constructor
  · intro hyes
    obtain ⟨met, -, hpairs, hmatches⟩ := h.sound hyes
    exact ⟨_, fun x y hxy => (hmatches x y hxy).resolve_left (by simp),
      hpairs (a, b) (List.mem_singleton_self _)⟩
  · rintro ⟨R, hR, hab⟩
    exact h.complete hR (by simpa using hab)

end Heap

end GraphRpc
