import Mathlib
import GraphRpc.Sample

/-!
# Precedence

Which accesses are asked about a type is a matter of the registrations alone: the last one for exactly
its name, every matcher, and the last fallback. So whatever changes none of these changes no answer for
the type. Main statement: the reader and the writer of a type are the first capable one of these, and
they stay the same under every edit of the registrations that leaves them alone.
-/

namespace GraphRpc

variable {α : Type} {typeName : String}

namespace Registration

/-- The access that is registered for exactly this type name. -/
def forType? (typeName : String) : Registration α → Option (FieldAccess α)
  | type name access => if name = typeName then some access else none
  | matcher _ | fallback _ => none

def matcher? : Registration α → Option (FieldAccess α)
  | matcher access => some access
  | type .. | fallback _ => none

def fallback? : Registration α → Option (FieldAccess α)
  | fallback access => some access
  | type .. | matcher _ => none

def typed {τ : Type} (t : TypedAccess α τ) : Registration α := type t.typeName t.toFieldAccess

/-- The accesses that serve a type after these registrations, the one asked first in front. -/
def precedence (registrations : List (Registration α)) (typeName : String) : List (FieldAccess α) :=
  (registrations.filterMap (forType? typeName)).getLast?.toList ++ registrations.filterMap matcher? ++
    [(registrations.filterMap fallback?).getLast?.getD .record]

/-- A change of registrations that is none for `typeName`. Each can be undone, so what is inserted can be
deleted and put in another place. -/
inductive Edit (typeName : String) : List (Registration α) → List (Registration α) → Prop
  | other {name access before after} (hname : name ≠ typeName) :
    Edit typeName (before ++ after) (before ++ type name access :: after)
  /-- A registration is inserted that a later one replaces. -/
  | replaced {access last before between after} :
    Edit typeName (before ++ (between ++ type typeName last :: after))
      (before ++ type typeName access :: (between ++ type typeName last :: after))
  | fallback {access last before between after} :
    Edit typeName (before ++ (between ++ fallback last :: after))
      (before ++ fallback access :: (between ++ fallback last :: after))
  | past {name access asked before after} :
    Edit typeName (before ++ type name access :: matcher asked :: after)
      (before ++ matcher asked :: type name access :: after)

theorem Edit.precedence_eq {registrations registrations' : List (Registration α)}
    (h : Edit typeName registrations registrations') :
    precedence registrations' typeName = precedence registrations typeName := by
  cases h with
  | other hname => simp [precedence, forType?, matcher?, fallback?, hname, List.filterMap_cons]
  | replaced | fallback | past =>
    simp [precedence, forType?, matcher?, fallback?, List.filterMap_cons, List.getLast?_cons]

theorem precedence_eq_of_edits {registrations registrations' : List (Registration α)}
    (h : Relation.EqvGen (Edit typeName) registrations registrations') :
    precedence registrations' typeName = precedence registrations typeName := by
  induction h with
  | rel before after hedit => exact hedit.precedence_eq
  | refl => rfl
  | symm before after h ih => exact ih.symm
  | trans before between after h h' ih ih' => exact ih'.trans ih

end Registration

namespace Registry

open Registration

theorem lookup_register (registry : Registry α) (registration : Registration α) :
    (registry.register registration).byType.lookup typeName =
      (registration.forType? typeName).or (registry.byType.lookup typeName) := by
  cases registration with
  | matcher access => rfl
  | fallback access => rfl
  | type name access =>
    rw [register, forType?]
    by_cases hname : name = typeName
    · simp [hname]
    · have hbeq : (typeName == name) = false := beq_eq_false_iff_ne.2 (Ne.symm hname)
      rw [List.lookup_cons, hbeq, if_neg hname, Option.none_or]
      induction registry.byType with
      | nil => rfl
      | cons x l ih => grind

theorem matchers_register (registry : Registry α) (registration : Registration α) :
    (registry.register registration).matchers = registry.matchers ++ registration.matcher?.toList := by
  cases registration <;> simp [register, matcher?]

theorem fallback_register (registry : Registry α) (registration : Registration α) :
    (registry.register registration).fallback = registration.fallback?.getD registry.fallback := by
  cases registration <;> rfl

theorem parts_ofList (registrations : List (Registration α)) (typeName : String) :
    (ofList registrations).byType.lookup typeName =
        (registrations.filterMap (forType? typeName)).getLast? ∧
      (ofList registrations).matchers = registrations.filterMap matcher? ∧
      (ofList registrations).fallback =
        (registrations.filterMap fallback?).getLast?.getD .record := by
  unfold ofList
  -- Registering goes on at the end, so the induction is on the registrations before the last.
  induction registrations using List.reverseRecOn with
  | nil => exact ⟨rfl, rfl, rfl⟩
  | append_singleton registrations registration ih =>
    obtain ⟨htype, hmatchers, hfallback⟩ := ih
    have hone {β : Type} (f : Registration α → Option β) :
        [registration].filterMap f = (f registration).toList := by
      cases h : f registration <;> simp [h]
    have hlast {β : Type} (o : Option β) : o.toList.getLast? = o := by cases o <;> rfl
    simp only [List.foldl_append, List.foldl_cons, List.foldl_nil, List.filterMap_append,
      List.getLast?_append, hone, hlast, Option.getD_or]
    rw [lookup_register, matchers_register, fallback_register, htype, hmatchers, hfallback]
    exact ⟨rfl, rfl, rfl⟩

/-- The accesses that a registry asks are those that its registrations say. -/
theorem candidates_ofList (registrations : List (Registration α)) (typeName : String) :
    (ofList registrations).candidates typeName = precedence registrations typeName := by
  obtain ⟨htype, hmatchers, hfallback⟩ := parts_ofList registrations typeName
  rw [candidates, precedence, htype, hmatchers, hfallback]

-- ---------------------------------------------------------------------------
-- The first capable access
-- ---------------------------------------------------------------------------

/-- The first access that is capable is the result, and a fault if none is. -/
structure Resolves (capable : FieldAccess α → Bool) (fault : AccessFault) (asked : List (FieldAccess α))
    (result : Except CodecFault (FieldAccess α)) : Prop where
  ok_iff : ∀ access, result = .ok access ↔ ∃ before after, asked = before ++ access :: after ∧
    capable access ∧ ∀ earlier ∈ before, capable earlier = false
  error_iff : result = .error (.fieldAccess fault) ↔ ∀ access ∈ asked, capable access = false

variable {capable : FieldAccess α → Bool} {fault : AccessFault} {asked : List (FieldAccess α)}

theorem Resolves.of_some {access : FieldAccess α} (h : asked.find? capable = some access) :
    Resolves capable fault asked (.ok access) where
  ok_iff other := by
    have hiff : asked.find? capable = some other ↔ _ := List.find?_eq_some_iff_append
    simp only [h, Option.some.injEq, Bool.not_eq_eq_eq_not, Bool.not_true] at hiff
    rw [Except.ok.injEq, hiff]
    exact ⟨fun ⟨hcan, before, after, hasked, hnone⟩ => ⟨before, after, hasked, hcan, hnone⟩,
      fun ⟨before, after, hasked, hcan, hnone⟩ => ⟨hcan, before, after, hasked, hnone⟩⟩
  error_iff := by
    have hcan := List.find?_some h
    have hmem := List.mem_of_find?_eq_some h
    refine iff_of_false nofun fun hnone => ?_
    rw [hnone access hmem] at hcan
    cases hcan

theorem Resolves.of_none (h : asked.find? capable = none) :
    Resolves capable fault asked (.error (.fieldAccess fault)) where
  ok_iff access := by
    refine iff_of_false nofun fun ⟨before, after, hasked, hcan, _⟩ => ?_
    exact List.find?_eq_none.1 h access (hasked ▸ List.mem_append_right _ (List.mem_cons_self ..)) hcan
  error_iff := iff_of_true rfl fun access hmem => Bool.eq_false_iff.2 (List.find?_eq_none.1 h access hmem)

theorem resolveReader_candidates (registry : Registry α) (typeName : String) (o : Object α) :
    Resolves (·.canRead typeName o) (.unreadable typeName) (registry.candidates typeName)
      (registry.resolveReader typeName o) := by
  rw [resolveReader]
  cases h : (registry.candidates typeName).find? (·.canRead typeName o) with
  | some access => exact .of_some h
  | none => exact .of_none h

theorem resolveWriter_candidates (registry : Registry α) (typeName : String) :
    Resolves (·.canWrite typeName) (.unconstructible typeName) (registry.candidates typeName)
      (registry.resolveWriter typeName) := by
  rw [resolveWriter]
  cases h : (registry.candidates typeName).find? (·.canWrite typeName) with
  | some access => exact .of_some h
  | none => exact .of_none h

/-- What reads and what writes a type is the first capable one of the accesses that its registrations
say, and no edit that is none for the type changes it. -/
theorem resolved_by_precedence (registrations : List (Registration α)) (typeName : String) :
    (∀ o, Resolves (·.canRead typeName o) (.unreadable typeName) (precedence registrations typeName)
      ((ofList registrations).resolveReader typeName o)) ∧
    Resolves (·.canWrite typeName) (.unconstructible typeName) (precedence registrations typeName)
      ((ofList registrations).resolveWriter typeName) ∧
    ∀ edited, Relation.EqvGen (Edit typeName) registrations edited →
      (∀ o, (ofList edited).resolveReader typeName o = (ofList registrations).resolveReader typeName o) ∧
      (ofList edited).resolveWriter typeName = (ofList registrations).resolveWriter typeName := by
  rw [← candidates_ofList]
  refine ⟨resolveReader_candidates _ typeName, resolveWriter_candidates _ typeName, ?_⟩
  intro edited hedits
  have hsame : (ofList edited).candidates typeName = (ofList registrations).candidates typeName := by
    rw [candidates_ofList, candidates_ofList, precedence_eq_of_edits hedits]
  exact ⟨fun o => by rw [resolveReader, resolveReader, hsame], by rw [resolveWriter, resolveWriter, hsame]⟩

open Sample

theorem resolved_by_precedence_counters :
    let registrations : List (Registration Instance) :=
      [.typed person, .typed (counter "Counter" "first"), .fallback incapable,
        .typed (counter "Counter" "second"), .matcher (startingWith "C" "x"), .fallback .record]
    let edited : List (Registration Instance) :=
      [.matcher (startingWith "C" "x"), .typed (counter "Counter" "second"), .fallback .record]
    Relation.EqvGen (Edit "Counter") registrations edited ∧
    (∀ o, (ofList edited).resolveReader "Counter" o = (ofList registrations).resolveReader "Counter" o) ∧
    (ofList edited).resolveWriter "Counter" = (ofList registrations).resolveWriter "Counter" := by
  intro registrations edited
  have hperson := @Edit.other Instance "Counter" "User" person.toFieldAccess [] registrations.tail
    (by decide)
  have hfirst := @Edit.replaced Instance "Counter" (counter "Counter" "first").toFieldAccess
    (counter "Counter" "second").toFieldAccess [] [.fallback incapable]
    [.matcher (startingWith "C" "x"), .fallback .record]
  have hfallback := @Edit.fallback Instance "Counter" incapable .record []
    [.typed (counter "Counter" "second"), .matcher (startingWith "C" "x")] []
  have hpast := @Edit.past Instance "Counter" "Counter" (counter "Counter" "second").toFieldAccess
    (startingWith "C" "x") [] [.fallback .record]
  have hedits : Relation.EqvGen (Edit "Counter") registrations edited :=
    (((Relation.EqvGen.rel _ _ hperson).symm.trans _ _ _ (Relation.EqvGen.rel _ _ hfirst).symm).trans _ _ _
      (Relation.EqvGen.rel _ _ hfallback).symm).trans _ _ _ (.rel _ _ hpast)
  exact ⟨hedits, (resolved_by_precedence registrations "Counter").2.2 edited hedits⟩

end Registry
end GraphRpc
