import Mathlib
import GraphRpc.Proofs.Equality.Bisimulation

/-!
# Equality of graphs is bisimilarity

The comparison of two graphs follows the fields of their objects in depth. Every descent meets a pair
of slots that was not met before, so none is cut short, and the comparison ends with what comparing
pair after pair comes to: the graphs are equal if they are bisimilar, and only then.
-/

namespace GraphRpc

open Value (Seen)

-- ---------------------------------------------------------------------------
-- Comparing some pairs and then others
-- ---------------------------------------------------------------------------

namespace Heap

variable {α : Type} {left right : Heap α} {one : Bool} {a b : Value} {x y : Handle}
  {pairs more : List (Value × Value)} {seen seen' : Seen} {outcome : Bool × Seen}

/-- Comparing these pairs in front of all others has this outcome: unless they differ, the others are
compared next, with what was met meanwhile. -/
structure Follows (left right : Heap α) (one : Bool) (seen : Seen) (pairs : List (Value × Value))
    (outcome : Bool × Seen) : Prop where
  agree : outcome.1 = true → seen ⊆ outcome.2 ∧ ∀ {rest answer},
    Compares left right one outcome.2 rest answer →
      Compares left right one seen (pairs ++ rest) answer
  differ : outcome.1 = false → ∀ rest, Compares left right one seen (pairs ++ rest) false

namespace Follows

theorem nil : Follows left right one seen [] (true, seen) where
  agree _ := ⟨fun _ => id, id⟩
  differ := nofun

theorem next (h : Follows left right one seen pairs (true, seen'))
    (hmore : Follows left right one seen' more outcome) :
    Follows left right one seen (pairs ++ more) outcome where
  agree hyes := by
    obtain ⟨hseen, hpairs⟩ := h.agree rfl
    obtain ⟨hseen', hrest⟩ := hmore.agree hyes
    refine ⟨fun p hp => hseen' (hseen hp), fun hanswer => ?_⟩
    rw [List.append_assoc]
    exact hpairs (hrest hanswer)
  differ hno rest := by
    rw [List.append_assoc]
    exact (h.agree rfl).2 (hmore.differ hno rest)

theorem stop (h : Follows left right one seen pairs (false, seen')) (more : List (Value × Value)) :
    Follows left right one seen (pairs ++ more) (false, seen') where
  agree := nofun
  differ _ rest := by
    rw [List.append_assoc]
    exact h.differ rfl (more ++ rest)

theorem met (h : (x, y) ∈ seen) :
    Follows left right one seen [(.object x, .object y)] (true, seen) where
  agree _ := ⟨fun _ => id, .met h⟩
  differ := nofun

theorem apart (hnew : ∀ p ∈ a.pair b, p ∉ seen) (h : left.unfolded? right one a b = none)
    (hno : outcome.1 = false) : Follows left right one seen [(a, b)] outcome where
  agree hyes := by
    rw [hno] at hyes
    cases hyes
  differ _ rest := .differ hnew h rest

theorem unfold (hnew : ∀ p ∈ a.pair b, p ∉ seen) (h : left.unfolded? right one a b = some pairs)
    (hpairs : Follows left right one (a.pair b ++ seen) pairs outcome) :
    Follows left right one seen [(a, b)] outcome where
  agree hyes := by
    obtain ⟨hseen, hrest⟩ := hpairs.agree hyes
    exact ⟨fun p hp => hseen (List.mem_append_right _ hp), fun hanswer => .unfold hnew h (hrest hanswer)⟩
  differ hno rest := .unfold hnew h (hpairs.differ hno rest)

end Follows

end Heap

-- ---------------------------------------------------------------------------
-- Lists of values
-- ---------------------------------------------------------------------------

namespace Value

variable {objects : Handle → Handle → StateM Seen Bool}

theorem agree_scalar (s : Scalar) (b : Value) : agree objects s.value b = pure (s.value.eqv b) := by
  cases s <;> rfl

theorem agreeItems_length {as bs : List Value} (hlen : as.length ≠ bs.length) (seen : Seen) :
    ((agreeItems objects as bs).run seen).1 = false := by
  induction as generalizing bs seen with
  | nil =>
    cases bs with
    | nil => exact (hlen rfl).elim
    | cons b bs => rfl
  | cons a as ih =>
    cases bs with
    | nil => rfl
    | cons b bs =>
      simp only [agreeItems, StateT.run_bind]
      generalize (agree objects a b).run seen = r
      obtain ⟨_ | _, seen'⟩ := r
      · rfl
      · exact ih (by simpa using hlen) seen'

theorem agreeEntries_eq (as bs : List (Value × Value)) :
    agreeEntries objects as bs = agreeItems objects (flat as) (flat bs) := by
  induction as generalizing bs with
  | nil =>
    cases bs with
    | nil => rfl
    | cons b bs => rfl
  | cons a as ih =>
    cases bs with
    | nil => rfl
    | cons b bs =>
      simp only [agreeEntries, flat_cons, agreeItems, ih]

theorem agreeFields_eq {as bs : List (String × Value)} (hnames : as.map Prod.fst = bs.map Prod.fst) :
    agreeFields objects as bs = agreeItems objects (as.map Prod.snd) (bs.map Prod.snd) := by
  induction as generalizing bs with
  | nil =>
    cases bs with
    | nil => rfl
    | cons b bs => cases hnames
  | cons a as ih =>
    cases bs with
    | nil => cases hnames
    | cons b bs =>
      obtain ⟨hname, hrest⟩ := List.cons_eq_cons.1 hnames
      simp only [agreeFields, List.map_cons, agreeItems, if_pos hname, ih hrest]

theorem agreeFields_names {as bs : List (String × Value)} (hnames : as.map Prod.fst ≠ bs.map Prod.fst)
    (seen : Seen) : ((agreeFields objects as bs).run seen).1 = false := by
  induction as generalizing bs seen with
  | nil =>
    cases bs with
    | nil => exact (hnames rfl).elim
    | cons b bs => rfl
  | cons a as ih =>
    cases bs with
    | nil => rfl
    | cons b bs =>
      simp only [agreeFields]
      split
      · next hname =>
        rw [StateT.run_bind]
        generalize (agree objects a.2 b.2).run seen = r
        obtain ⟨_ | _, seen'⟩ := r
        · rfl
        · exact ih (fun hrest => hnames (by rw [List.map_cons, List.map_cons, hname, hrest])) seen'
      · rfl

end Value

-- ---------------------------------------------------------------------------
-- Every descent meets a new pair
-- ---------------------------------------------------------------------------

namespace Heap

variable {α : Type} {left right : Heap α} {one : Bool} {x y : Handle} {seen seen' : Seen} {fuel : Nat}

def unmet (left right : Heap α) (seen : Seen) : Finset (Nat × Nat) :=
  (Finset.range left.size ×ˢ Finset.range right.size) \
    (seen.map fun p => (p.1.slot, p.2.slot)).toFinset

theorem mem_unmet {i j : Nat} : (i, j) ∈ left.unmet right seen ↔
    (i < left.size ∧ j < right.size) ∧ ∀ p ∈ seen, (p.1.slot, p.2.slot) ≠ (i, j) := by
  simp [unmet]

theorem card_unmet_le (h : seen ⊆ seen') :
    (left.unmet right seen').card ≤ (left.unmet right seen).card := by
  refine Finset.card_le_card fun p hp => ?_
  obtain ⟨hlt, hnew⟩ := mem_unmet.1 hp
  exact mem_unmet.2 ⟨hlt, fun q hq => hnew q (h hq)⟩

theorem card_unmet_cons (hnew : (x, y) ∉ seen) (hx : x.slot < left.size) (hy : y.slot < right.size) :
    (left.unmet right ((x, y) :: seen)).card < (left.unmet right seen).card := by
  refine Finset.card_lt_card (Finset.ssubset_iff_of_subset ?_ |>.2 ⟨(x.slot, y.slot), ?_, ?_⟩)
  · intro p hp
    obtain ⟨hlt, hall⟩ := mem_unmet.1 hp
    exact mem_unmet.2 ⟨hlt, (List.forall_mem_cons.1 hall).2⟩
  · refine mem_unmet.2 ⟨⟨hx, hy⟩, fun p hp hslots => hnew ?_⟩
    obtain ⟨hpx, hpy⟩ := Prod.mk.inj hslots
    obtain rfl := Handle.slot_inj.1 hpx
    obtain rfl := Handle.slot_inj.1 hpy
    exact hp
  · intro hmem
    exact (mem_unmet.1 hmem).2 (x, y) (List.mem_cons_self ..) rfl

theorem slot_lt_of_record (h : left.record? x = some r) : x.slot < left.size := by
  by_contra hge
  have hnone : left.slots[x.slot]? = none := Array.getElem?_eq_none (Nat.le_of_not_lt hge)
  simp [record?, object?, slot?, hnone] at h

/-- Objects are compared as they should be, as long as few enough pairs are unmet. -/
def ComparedBy (left right : Heap α) (one : Bool) (fuel : Nat)
    (objects : Handle → Handle → StateM Seen Bool) : Prop :=
  ∀ x y seen, (left.unmet right seen).card < fuel →
    Follows left right one seen [(.object x, .object y)] ((objects x y).run seen)

variable {objects : Handle → Handle → StateM Seen Bool}

theorem follows_agreeItems {as bs : List Value} (hlen : as.length = bs.length)
    (hitems : ∀ a ∈ as, ∀ b seen, (left.unmet right seen).card < fuel →
      Follows left right one seen [(a, b)] ((Value.agree objects a b).run seen))
    (hfuel : (left.unmet right seen).card < fuel) :
    Follows left right one seen (as.zip bs) ((Value.agreeItems objects as bs).run seen) := by
  induction as generalizing bs seen with
  | nil =>
    obtain rfl := List.length_eq_zero_iff.1 hlen.symm
    exact .nil
  | cons a as ih =>
    cases bs with
    | nil => cases hlen
    | cons b bs =>
      obtain ⟨hfirst, hitems⟩ := List.forall_mem_cons.1 hitems
      have hfirst := hfirst b seen hfuel
      simp only [Value.agreeItems, StateT.run_bind]
      generalize (Value.agree objects a b).run seen = r at hfirst
      obtain ⟨_ | _, seen'⟩ := r
      · exact hfirst.stop (as.zip bs)
      · -- What was met stays met, so there are no more pairs left than before.
        have hfuel := (card_unmet_le (hfirst.agree rfl).1).trans_lt hfuel
        exact hfirst.next (ih (Nat.succ.inj hlen) hitems hfuel)

theorem follows_agree (hobjects : left.ComparedBy right one fuel objects) (a b : Value) (seen : Seen)
    (hfuel : (left.unmet right seen).card < fuel) :
    Follows left right one seen [(a, b)] ((Value.agree objects a b).run seen) := by
  induction a using Value.byParts generalizing b seen with
  | step a ih =>
    obtain ⟨s, rfl⟩ | ⟨as, rfl⟩ | ⟨as, rfl⟩ | ⟨x, rfl⟩ := a.shape
    · have hnew : ∀ p ∈ s.value.pair b, p ∉ seen := by cases s <;> simp [Value.pair, Scalar.value]
      have hpair : s.value.pair b = [] := by cases s <;> rfl
      rw [Value.agree_scalar]
      cases heqv : s.value.eqv b with
      | true =>
        refine .unfold hnew (by rw [unfolded?_of_scalar, heqv]; rfl) ?_
        rw [hpair]
        exact .nil
      | false => exact .apart hnew (by rw [unfolded?_of_scalar, heqv]; rfl) rfl
    · cases b with
      | array bs =>
        by_cases hlen : as.length = bs.length
        · exact .unfold (by simp [Value.pair]) (if_pos hlen) (follows_agreeItems hlen ih hfuel)
        · exact .apart (by simp [Value.pair]) (if_neg hlen) (Value.agreeItems_length hlen seen)
      | _ => exact .apart (by simp [Value.pair]) rfl rfl
    · cases b with
      | map bs =>
        rw [Value.agree, Value.agreeEntries_eq]
        by_cases hlen : as.length = bs.length
        · have hflat : (flat as).length = (flat bs).length := by rw [length_flat, length_flat, hlen]
          exact .unfold (by simp [Value.pair]) (if_pos hlen) (follows_agreeItems hflat ih hfuel)
        · have hflat : (flat as).length ≠ (flat bs).length := by
            rw [length_flat, length_flat]
            omega
          exact .apart (by simp [Value.pair]) (if_neg hlen) (Value.agreeItems_length hflat seen)
      | _ => exact .apart (by simp [Value.pair]) rfl rfl
    · cases b with
      | object y =>
        rw [Value.agree]
        exact hobjects x y seen hfuel
      | _ => exact .apart (by simp [Value.pair]) rfl rfl

theorem objectsAgree_succ (left right : Heap α) (one : Bool) (fuel : Nat) (x y : Handle) (seen : Seen) :
    (left.objectsAgree right one (fuel + 1) x y).run seen =
      if (x, y) ∈ seen then (true, seen)
      else if left.typeName? x = right.typeName? y then
        match left.record? x, right.record? y with
        | some r, some s =>
          (Value.agreeFields (left.objectsAgree right one fuel) r.fields s.fields).run ((x, y) :: seen)
        | none, none => (one && x == y, (x, y) :: seen)
        | _, _ => (false, (x, y) :: seen)
      else (false, (x, y) :: seen) := by
  simp only [objectsAgree, StateT.run_bind]
  change (if (x, y) ∈ seen then (pure true : StateM Seen Bool) else _).run seen = _
  by_cases hmet : (x, y) ∈ seen
  · simp only [if_pos hmet]
    rfl
  · simp only [if_neg hmet]
    by_cases htype : left.typeName? x = right.typeName? y
    · simp only [if_pos htype]
      cases left.record? x <;> cases right.record? y <;> rfl
    · simp only [if_neg htype]
      rfl

theorem follows_objectsAgree (left right : Heap α) (one : Bool) (fuel : Nat) :
    left.ComparedBy right one fuel (left.objectsAgree right one fuel) := by
  induction fuel with
  | zero => exact fun x y seen hfuel => (Nat.not_lt_zero _ hfuel).elim
  | succ fuel ih =>
    intro x y seen hfuel
    rw [objectsAgree_succ]
    by_cases hmet : (x, y) ∈ seen
    · rw [if_pos hmet]
      exact .met hmet
    have hnew : ∀ p ∈ (Value.object x).pair (.object y), p ∉ seen := by simpa [Value.pair] using hmet
    rw [if_neg hmet]
    by_cases htype : left.typeName? x = right.typeName? y
    · rw [if_pos htype]
      cases hr : left.record? x with
      | none =>
        cases hs : right.record? y with
        | none =>
          cases hone : one && x == y with
          | true => exact .unfold hnew (by simp [unfolded?, htype, hr, hs, hone]) .nil
          | false => exact .apart hnew (by simp [unfolded?, htype, hr, hs, hone]) rfl
        | some s => exact .apart hnew (by simp [unfolded?, htype, hr, hs]) rfl
      | some r =>
        cases hs : right.record? y with
        | none => exact .apart hnew (by simp [unfolded?, htype, hr, hs]) rfl
        | some s =>
          by_cases hnames : r.names = s.names
          · have hunfolded : left.unfolded? right one (.object x) (.object y) =
                some (r.values.zip s.values) := by
              simp only [unfolded?, htype, hr, hs, hnames, if_true]
            have hlen := Record.length_values hnames
            -- Both slots exist, so this pair is one less to be met below.
            have hless := card_unmet_cons hmet (slot_lt_of_record hr) (slot_lt_of_record hs)
            refine .unfold hnew hunfolded ?_
            dsimp only
            rw [Value.agreeFields_eq hnames]
            exact follows_agreeItems hlen (fun a _ b seen => follows_agree ih a b seen)
              (Nat.lt_of_lt_of_le hless (Nat.le_of_lt_succ hfuel))
          · refine .apart hnew (by simp only [unfolded?, htype, hr, hs, hnames, if_true, if_false]) ?_
            exact Value.agreeFields_names hnames _
    · rw [if_neg htype]
      exact .apart hnew (by simp only [unfolded?, htype, if_false]) rfl

/-- The comparison ends with the answer that is given: no descent is cut short. -/
theorem compares_valuesAgree (left right : Heap α) (one : Bool) (a b : Value) :
    Compares left right one [] [(a, b)] (left.valuesAgree right one a b) := by
  have hfuel : (left.unmet right []).card < left.comparisonFuel right := by
    simp [unmet, comparisonFuel]
  have h := follows_agree (follows_objectsAgree left right one _) a b [] hfuel
  unfold valuesAgree
  generalize (Value.agree (left.objectsAgree right one (left.comparisonFuel right)) a b).run [] = r at h
  obtain ⟨_ | _, met⟩ := r
  · exact h.differ rfl []
  · exact (h.agree rfl).2 (.done met)

/-- Comparing two graphs ends, and finds them equal just when they are bisimilar. -/
theorem graphEq_bisimilar (left right : Heap α) (a b : Value) :
    (Compares left right false [] [(a, b)] (left.graphEq a right b) ∧
      (left.graphEq a right b = true ↔ left.Bisimilar right false a b)) ∧
    Compares left left true [] [(a, b)] (left.graphEqWithin a b) ∧
      (left.graphEqWithin a b = true ↔ left.Bisimilar left true a b) := by
  have hapart := left.compares_valuesAgree right false a b
  have hwithin := left.compares_valuesAgree left true a b
  exact ⟨⟨hapart, hapart.bisimilar_iff⟩, hwithin, hwithin.bisimilar_iff⟩

/-- Records in a circle, each of which holds the next. -/
def circle (n : Nat) : Heap Empty :=
  ⟨(Array.range n).map fun i => ⟨"T", .record (.ofList [("next", .object (.ofSlot ((i + 1) % n)))])⟩⟩

-- How often an object occurs does not show.
example : (circle 2).graphEq (.object (.ofSlot 0)) (circle 3) (.object (.ofSlot 1)) = true := by cbv

end Heap

end GraphRpc
