import Mathlib
import GraphRpc.Proofs.Contents

/-!
# Walks step by step

The depth-first walk of the encoder as a state machine, so that there is something to say of a walk
that does not come to its end. It goes into every array and map, and into each object where it first
meets it.
-/

namespace GraphRpc

/-- Where a walk is: the objects that it met so far, and the values that come next, each with the number
of arrays, maps and objects around it. -/
structure Walk where
  met : List Handle
  next : List (Nat × Value)

namespace Walk

def start (v : Value) : Walk := ⟨[], [(0, v)]⟩

def behind (view : View) (d : Nat) (h : Handle) : List (Nat × Value) :=
  (view h).elim [] fun b => b.fields.map fun f => (d, f.2)

/-- Walking on by one value. An object that was met before is passed by. -/
def step (view : View) : Walk → Option Walk
  | ⟨_, []⟩ => none
  | ⟨met, (d, .object h) :: next⟩ =>
    if h ∈ met then some ⟨met, next⟩ else some ⟨met ++ [h], behind view (d + 1) h ++ next⟩
  | ⟨met, (d, v) :: next⟩ => some ⟨met, v.parts.map (d + 1, ·) ++ next⟩

/-- The value that the walk is about to go into, unless it is an object met before. A handle with nothing
behind it counts: it is not looked up before it is entered. -/
def current : Walk → Option (Nat × Value)
  | ⟨_, []⟩ => none
  | ⟨met, (d, .object h) :: _⟩ => if h ∈ met then none else some (d, .object h)
  | ⟨_, p :: _⟩ => some p

def nesting (limits : Limits) (s : Walk) : List Extent :=
  match s.current with
  | some (d, .array _) | some (d, .map _) | some (d, .object _) =>
    [⟨.nestingDepth, d + 1, limits.maxDepth⟩]
  | _ => []

section
variable {view : View} {met : List Handle} {next : List (Nat × Value)} {v : Value} {h : Handle}

theorem step_parts (hv : ∀ h, v ≠ .object h) :
    step view ⟨met, (d, v) :: next⟩ = some ⟨met, v.parts.map (d + 1, ·) ++ next⟩ := by
  cases v with
  | object h => exact (hv h rfl).elim
  | _ => rfl

theorem step_again (hh : h ∈ met) : step view ⟨met, (d, .object h) :: next⟩ = some ⟨met, next⟩ :=
  if_pos hh

theorem step_first (hh : h ∉ met) : step view ⟨met, (d, .object h) :: next⟩ =
    some ⟨met ++ [h], behind view (d + 1) h ++ next⟩ := if_neg hh

theorem current_again (hh : h ∈ met) : current ⟨met, (d, .object h) :: next⟩ = none := if_pos hh

theorem current_fresh (hv : ∀ h ∈ met, v ≠ .object h) :
    current ⟨met, (d, v) :: next⟩ = some (d, v) := by
  cases v with
  | object h => exact if_neg fun hh => hv h hh rfl
  | _ => rfl

theorem current_first (hh : h ∉ met) :
    current ⟨met, (d, .object h) :: next⟩ = some (d, .object h) := if_neg hh

theorem current_eq_some {s : Walk} (hs : s.current = some (d, v)) : ∃ next, s.next = (d, v) :: next := by
  obtain ⟨met, _ | ⟨⟨k, w⟩, next⟩⟩ := s
  · cases hs
  · refine ⟨next, ?_⟩
    by_cases hw : ∃ h ∈ met, w = .object h
    · obtain ⟨h, hh, rfl⟩ := hw
      rw [current_again hh] at hs
      cases hs
    · rw [current_fresh fun h hh heq => hw ⟨h, hh, heq⟩] at hs
      rw [Option.some.inj hs]

theorem nesting_scalar {s : Scalar} {limits : Limits} :
    nesting limits ⟨met, (d, s.value) :: next⟩ = [] := by
  cases s <;> rfl

theorem nesting_eq {s : Walk} {limits : Limits} (hs : s.current = some (d, v))
    (hv : ∀ s : Scalar, v ≠ s.value) : s.nesting limits = [⟨.nestingDepth, d + 1, limits.maxDepth⟩] := by
  rw [nesting, hs]
  obtain ⟨s, rfl⟩ | ⟨items, rfl⟩ | ⟨entries, rfl⟩ | ⟨h, rfl⟩ := v.shape
  · exact (hv s rfl).elim
  · rfl
  · rfl
  · rfl

theorem step_cases {s s' : Walk} (hs : s.step view = some s') : ∃ d v next, s.next = (d, v) :: next ∧
    ((∀ h, v ≠ .object h) ∧ s' = ⟨s.met, v.parts.map (d + 1, ·) ++ next⟩ ∨
      (∃ h ∈ s.met, v = .object h ∧ s' = ⟨s.met, next⟩) ∨
      ∃ h ∉ s.met, v = .object h ∧ s' = ⟨s.met ++ [h], behind view (d + 1) h ++ next⟩) := by
  obtain ⟨met, _ | ⟨⟨d, v⟩, next⟩⟩ := s
  · cases hs
  · refine ⟨d, v, next, rfl, ?_⟩
    by_cases hv : ∃ h, v = .object h
    · obtain ⟨h, rfl⟩ := hv
      by_cases hh : h ∈ met
      · rw [step_again hh] at hs
        exact .inr (.inl ⟨h, hh, rfl, (Option.some.inj hs).symm⟩)
      · rw [step_first hh] at hs
        exact .inr (.inr ⟨h, hh, rfl, (Option.some.inj hs).symm⟩)
    · rw [step_parts (not_exists.1 hv)] at hs
      exact .inl ⟨not_exists.1 hv, (Option.some.inj hs).symm⟩

end
end Walk

-- ---------------------------------------------------------------------------
-- Many steps
-- ---------------------------------------------------------------------------

/-- The walk comes from one state to another, in any number of steps. -/
def Walks (view : View) : Walk → Walk → Prop :=
  Relation.ReflTransGen fun s s' => s.step view = some s'

namespace Walks

variable {view : View} {s s' m : Walk} {v w : Value}

theorem refl (s : Walk) : Walks view s s := Relation.ReflTransGen.refl

theorem head (hs : s.step view = some m) (h : Walks view m s') : Walks view s s' :=
  Relation.ReflTransGen.head hs h

theorem tail (h : Walks view s m) (hs : m.step view = some s') : Walks view s s' :=
  Relation.ReflTransGen.tail h hs

theorem trans (h : Walks view s m) (h' : Walks view m s') : Walks view s s' :=
  Relation.ReflTransGen.trans h h'

theorem cases_step (hs : s.step view = some s') (h : Walks view s m) : m = s ∨ Walks view s' m := by
  rcases Relation.ReflTransGen.cases_head h with rfl | ⟨n, hn, hnm⟩
  · exact .inl rfl
  · cases hs.symm.trans hn
    exact .inr hnm

theorem eq_of_done (hs : s.next = []) (h : Walks view s m) : m = s := by
  rcases Relation.ReflTransGen.cases_head h with rfl | ⟨n, hn, -⟩
  · rfl
  · obtain ⟨d, v, next, hnext, -⟩ := Walk.step_cases hn
    rw [hs] at hnext
    cases hnext

theorem to_done (hm : Walks view s m) (h : Walks view s s') (hs : s'.next = []) : Walks view m s' := by
  have hunique : Relator.RightUnique fun s s' : Walk => s.step view = some s' :=
    fun _ _ _ ha hb => Option.some.inj (ha.symm.trans hb)
  rcases Relation.ReflTransGen.total_of_right_unique hunique hm h with hms | hsm
  · exact hms
  · rw [eq_of_done hs hsm]
    exact refl _

theorem contains (h : Walks view (.start v) s) : ∀ p ∈ s.next, Contains view [v] p.2 := by
  induction h with
  | refl => exact List.forall_mem_singleton.2 (.root (List.mem_singleton_self v))
  | tail _ hs ih =>
    obtain ⟨d, w, next, hnext, hcase⟩ := Walk.step_cases hs
    rw [hnext] at ih
    obtain ⟨hw, hrest⟩ := List.forall_mem_cons.1 ih
    rcases hcase with ⟨-, rfl⟩ | ⟨g, -, rfl, rfl⟩ | ⟨g, -, rfl, rfl⟩
    · refine List.forall_mem_append.2 ⟨fun p hp => ?_, hrest⟩
      obtain ⟨u, hu, rfl⟩ := List.mem_map.1 hp
      exact hw.part hu
    · exact hrest
    · refine List.forall_mem_append.2 ⟨fun p hp => ?_, hrest⟩
      unfold Walk.behind at hp
      cases hg : view g with
      | none => simp [hg] at hp
      | some b =>
        rw [hg] at hp
        obtain ⟨f, hf, rfl⟩ := List.mem_map.1 hp
        exact hw.field hg hf

theorem comes_up (h : Walks view s s') (hs : s'.next = []) (hp : p ∈ s.next) :
    ∃ m next, Walks view s m ∧ m.next = p :: next := by
  induction h using Relation.ReflTransGen.head_induction_on with
  | refl =>
    rw [hs] at hp
    cases hp
  | head hstep _ ih =>
    -- Either it is the first that comes next, or the step leaves it where it is.
    obtain ⟨d, w, next, hnext, hcase⟩ := Walk.step_cases hstep
    rw [hnext] at hp
    rcases List.mem_cons.1 hp with rfl | hp
    · exact ⟨_, next, refl _, hnext⟩
    · have hlater := ih (by
        rcases hcase with ⟨-, rfl⟩ | ⟨g, -, -, rfl⟩ | ⟨g, -, -, rfl⟩
        · exact List.mem_append_right _ hp
        · exact hp
        · exact List.mem_append_right _ hp)
      obtain ⟨m, next', hm, hnext'⟩ := hlater
      exact ⟨m, next', hm.head hstep, hnext'⟩

/-- Somewhere the walk is about to go into the value. -/
def Enters (view : View) (v w : Value) : Prop :=
  ∃ s d, Walks view (.start v) s ∧ s.current = some (d, w)

/-- The walk went into each object that it met. -/
theorem enters_met (h : Walks view (.start v) s) : ∀ g ∈ s.met, Enters view v (.object g) := by
  induction h with
  | refl => exact List.forall_mem_nil _
  | @tail s s' hwalk hs ih =>
    obtain ⟨d, w, next, hnext, hcase⟩ := Walk.step_cases hs
    rcases hcase with ⟨-, rfl⟩ | ⟨g, -, rfl, rfl⟩ | ⟨g, hg, rfl, rfl⟩
    · exact ih
    · exact ih
    · refine List.forall_mem_append.2 ⟨ih, List.forall_mem_singleton.2 ⟨s, d, hwalk, ?_⟩⟩
      obtain ⟨met, _⟩ := s
      cases hnext
      exact Walk.current_first hg

theorem enters (h : Walks view (.start v) s) (hs : s.next = (d, w) :: next) : Enters view v w := by
  by_cases hw : ∃ g ∈ s.met, w = .object g
  · obtain ⟨g, hg, rfl⟩ := hw
    exact h.enters_met g hg
  · obtain ⟨met, _⟩ := s
    cases hs
    exact ⟨_, d, h, Walk.current_fresh fun g hg heq => hw ⟨g, hg, heq⟩⟩

theorem enters_of_mem (h : Walks view (.start v) s) (hwalk : Walks view (.start v) s')
    (hs : s'.next = []) (hp : p ∈ s.next) : Enters view v p.2 := by
  obtain ⟨m, next, hm, hnext⟩ := (h.to_done hwalk hs).comes_up hs hp
  exact (h.trans hm).enters hnext

end Walks

/-- A walk that comes to its end goes into everything that its start leads to. -/
theorem Contains.enters {view : View} (h : Contains view [v] w) (hwalk : Walks view (.start v) s)
    (hs : s.next = []) : Walks.Enters view v w := by
  induction h with
  | root hv =>
    obtain rfl := List.mem_singleton.1 hv
    exact (Walks.refl _).enters rfl
  | @part w p _ hp ih =>
    obtain ⟨⟨met, _⟩, d, hm, hcurrent⟩ := ih
    obtain ⟨next, hnext⟩ := Walk.current_eq_some hcurrent
    cases hnext
    have hw : ∀ g, w ≠ .object g := by
      rintro g rfl
      cases hp
    exact (hm.tail (Walk.step_parts hw)).enters_of_mem hwalk hs
      (List.mem_append_left _ (List.mem_map_of_mem hp))
  | @field g b f _ hview hf ih =>
    obtain ⟨⟨met, _⟩, d, hm, hcurrent⟩ := ih
    obtain ⟨next, hnext⟩ := Walk.current_eq_some hcurrent
    cases hnext
    have hg : g ∉ met := by
      intro hg
      rw [Walk.current_again hg] at hcurrent
      cases hcurrent
    have hbehind : (d + 1, f.2) ∈ Walk.behind view (d + 1) g := by
      rw [Walk.behind, hview]
      exact List.mem_map_of_mem hf
    exact (hm.tail (Walk.step_first hg)).enters_of_mem hwalk hs (List.mem_append_left _ hbehind)

end GraphRpc
