import Mathlib
import GraphRpc.Settings.Validation

/-!
# Bounds of settings

Settings without problems keep the bounds that the problems speak of, and every problem that is found
is one. Two bounds are not kept to the letter: a shutdown may take nearly 61 seconds, since only whole
seconds are looked at, and the length of an application's name is taken in bytes.
-/

namespace GraphRpc

-- ---------------------------------------------------------------------------
-- Durations
-- ---------------------------------------------------------------------------

namespace Duration

variable {d : Duration} {n : Nat}

instance : LinearOrder Duration :=
  LinearOrder.lift' nanoseconds fun ⟨_⟩ ⟨_⟩ h => congrArg mk h

theorem lt_iff {a b : Duration} : a < b ↔ a.nanoseconds < b.nanoseconds := Iff.rfl

theorem millis_lt : d.millis < n ↔ d < ofMillis n := Nat.div_lt_iff_lt_mul (by decide)

theorem seconds_lt : d.seconds < n ↔ d < ofSeconds n := by
  have hunit : n * 1000 * 1000000 = n * 1000000000 := mul_assoc n 1000 1000000
  rw [seconds, Nat.div_lt_iff_lt_mul (by decide), lt_iff, ofSeconds, ofMillis, hunit]

theorem isZero_iff : d.isZero ↔ d ≤ ofSeconds 0 := decide_eq_true_iff.trans Nat.le_zero.symm

end Duration

theorem length_le_utf8ByteSize (s : String) : s.length ≤ s.utf8ByteSize := by
  rw [← String.utf8Len_toList, ← String.length_toList]
  induction s.toList with
  | nil => rfl
  | cons c cs ih => exact Nat.add_le_add ih c.utf8Size_pos

-- ---------------------------------------------------------------------------
-- What is asked of settings
-- ---------------------------------------------------------------------------

@[mk_iff]
structure OutboundSettings.Bounded (o : OutboundSettings) : Prop where
  capacity : o.policy ≠ .unbounded → 1 ≤ o.capacity

@[mk_iff]
structure ServerSettings.Bounded (s : ServerSettings) : Prop where
  address : Address.isSocket s.address
  maxConnections : 1 ≤ s.maxConnections ∧ s.maxConnections ≤ 100000
  shutdownTimeout : .ofSeconds 1 ≤ s.shutdownTimeout
  callTimeout : ∀ d ∈ s.callTimeout, .ofSeconds 0 < d
  outbound : s.outbound.Bounded

@[mk_iff]
structure ClientSettings.Bounded (c : ClientSettings) : Prop where
  address : c.address ≠ ""
  connectionTimeout : .ofMillis 100 ≤ c.connectionTimeout
  callTimeout : ∀ d ∈ c.callTimeout, .ofSeconds 0 < d
  outbound : c.outbound.Bounded

@[mk_iff]
structure Limits.Bounded (l : Limits) : Prop where
  maxFrameSize : 16 ≤ l.maxFrameSize ∧ l.maxFrameSize ≤ 2 ^ 32 - 1
  maxStringLen : 1 ≤ l.maxStringLen
  maxCollectionLen : 1 ≤ l.maxCollectionLen
  maxDepth : 1 ≤ l.maxDepth ∧ l.maxDepth ≤ 1024

@[mk_iff]
structure DispatchSettings.Bounded (d : DispatchSettings) : Prop where
  workers : d.strategy = .pooled → 1 ≤ d.workers ∧ d.workers ≤ 512

@[mk_iff]
structure LoggingSettings.Bounded (exist : String → Bool) (l : LoggingSettings) : Prop where
  appName : l.appName ≠ ""
  output : l.toConsole ∨ l.toFile
  filePath : l.toFile → ∃ path, l.filePath = some path ∧
    ∀ parent ∈ Path.parent? path, parent ≠ "" → exist parent

/-- All bounds but the two upper ones that are not kept to the letter. -/
@[mk_iff]
structure Settings.Bounded (exist : String → Bool) (s : Settings) : Prop where
  server : s.server.Bounded
  client : s.client.Bounded
  codec : s.codec.Bounded
  dispatch : s.dispatch.Bounded
  logging : s.logging.Bounded exist

-- ---------------------------------------------------------------------------
-- Sections
-- ---------------------------------------------------------------------------

theorem firstProblem_eq_nil {c : Prop} [Decidable c] {p : SettingsProblem} {ps : List SettingsProblem} :
    (if c then [p] else ps) = [] ↔ ¬ c ∧ ps = [] := by
  by_cases h : c <;> simp [h]

theorem OutboundSettings.problems_eq_nil {o : OutboundSettings} : o.problems = [] ↔ o.Bounded := by
  rw [problems, problemIf_eq_nil, bounded_iff, not_and, Nat.one_le_iff_ne_zero]

theorem callTimeoutProblems_eq_nil {t : Option Duration} :
    callTimeoutProblems t = [] ↔ ∀ d ∈ t, .ofSeconds 0 < d := by
  cases t <;> simp [callTimeoutProblems, Duration.isZero_iff]

theorem ServerSettings.problems_eq_nil {s : ServerSettings} :
    s.problems = [] ↔ s.Bounded ∧ s.shutdownTimeout < .ofSeconds 61 := by
  have haddress : ¬ s.address.isEmpty ∧ Address.isSocket s.address ↔ Address.isSocket s.address := by
    refine and_iff_right_of_imp fun hsocket hempty => ?_
    rw [String.isEmpty_iff.1 hempty] at hsocket
    cases hsocket
  have hlong : ¬ 60 < s.shutdownTimeout.seconds ↔ s.shutdownTimeout < .ofSeconds 61 := by
    rw [not_lt, ← Nat.lt_succ_iff, Duration.seconds_lt]
  simp only [problems, List.append_eq_nil_iff, firstProblem_eq_nil, problemIf_eq_nil, not_not, haddress,
    hlong, Duration.seconds_lt, not_lt, callTimeoutProblems_eq_nil, OutboundSettings.problems_eq_nil,
    bounded_iff, ← Nat.one_le_iff_ne_zero]
  tauto

theorem ClientSettings.problems_eq_nil {c : ClientSettings} : c.problems = [] ↔ c.Bounded := by
  simp only [problems, List.append_eq_nil_iff, problemIf_eq_nil, String.isEmpty_iff, Duration.millis_lt,
    not_lt, callTimeoutProblems_eq_nil, OutboundSettings.problems_eq_nil, bounded_iff, and_assoc]

theorem Limits.problems_eq_nil {l : Limits} : l.problems = [] ↔ l.Bounded := by
  simp only [problems, List.append_eq_nil_iff, firstProblem_eq_nil, problemIf_eq_nil, bounded_iff]
  omega

theorem DispatchSettings.problems_eq_nil {d : DispatchSettings} : d.problems = [] ↔ d.Bounded := by
  rw [problems, bounded_iff]
  cases d.strategy with
  | inline => exact iff_of_true rfl nofun
  | pooled =>
    simp only [firstProblem_eq_nil, problemIf_eq_nil, forall_const]
    omega

theorem LoggingSettings.problems_eq_nil {exist : String → Bool} {l : LoggingSettings} :
    l.problems exist = [] ↔ l.Bounded exist ∧ l.appName.utf8ByteSize ≤ 64 := by
  obtain ⟨appName, level, toConsole, toFile, filePath, json⟩ := l
  simp only [problems, List.append_eq_nil_iff, firstProblem_eq_nil, problemIf_eq_nil,
    String.isEmpty_iff, not_lt, bounded_iff]
  cases toFile with
  | false => simp [and_right_comm]
  | true =>
    cases filePath with
    | none => simp
    | some path =>
      dsimp only
      cases hparent : Path.parent? path with
      | none => simp [hparent]
      | some parent => simp [hparent, and_right_comm]

-- ---------------------------------------------------------------------------
-- All settings
-- ---------------------------------------------------------------------------

namespace Settings

variable {exist : String → Bool} {s : Settings}

theorem problems_eq_nil : s.problems exist = [] ↔ s.Bounded exist ∧
    s.server.shutdownTimeout < .ofSeconds 61 ∧ s.logging.appName.utf8ByteSize ≤ 64 := by
  simp only [problems, List.append_eq_nil_iff, ServerSettings.problems_eq_nil,
    ClientSettings.problems_eq_nil, Limits.problems_eq_nil, DispatchSettings.problems_eq_nil,
    LoggingSettings.problems_eq_nil, bounded_iff]
  tauto

theorem problems_default (exist : String → Bool) : ({} : Settings).problems exist = [] := rfl

structure Announced (exist : String → Bool) (s : Settings) : Prop extends s.Bounded exist where
  longestShutdown : s.server.shutdownTimeout ≤ .ofSeconds 60
  longestName : s.logging.appName.length ≤ 64

/-- Settings with a timeout that is too long by a part of a second, or with a name of enough characters
but of too many bytes. -/
def Misjudged (exist : String → Bool) (s : Settings) : Prop :=
  s.Bounded exist ∧
    (.ofSeconds 60 < s.server.shutdownTimeout ∧ s.server.shutdownTimeout < .ofSeconds 61 ∧
        s.logging.appName.utf8ByteSize ≤ 64 ∨
      s.server.shutdownTimeout ≤ .ofSeconds 60 ∧ s.logging.appName.length ≤ 64 ∧
        64 < s.logging.appName.utf8ByteSize)

theorem announced_iff : s.Announced exist ↔ s.Bounded exist ∧
    s.server.shutdownTimeout ≤ .ofSeconds 60 ∧ s.logging.appName.length ≤ 64 :=
  ⟨fun h => ⟨h.toBounded, h.longestShutdown, h.longestName⟩, fun ⟨h, ht, hn⟩ => ⟨h, ht, hn⟩⟩

theorem judged_iff : (s.problems exist = [] ↔ s.Announced exist) ↔ ¬ s.Misjudged exist := by
  have hsecond : s.server.shutdownTimeout ≤ .ofSeconds 60 → s.server.shutdownTimeout < .ofSeconds 61 :=
    fun h => h.trans_lt (by decide)
  have hbytes : s.logging.appName.utf8ByteSize ≤ 64 → s.logging.appName.length ≤ 64 :=
    (length_le_utf8ByteSize _).trans
  rw [problems_eq_nil, announced_iff, Misjudged]
  by_cases hb : s.Bounded exist
  · rcases le_or_gt s.server.shutdownTimeout (.ofSeconds 60) with ht | ht
    · simp only [hb, ht, hsecond ht, ht.not_gt, true_and, false_and, false_or, not_and, not_lt]
      exact ⟨Iff.mpr, fun h => ⟨hbytes, h⟩⟩
    · simp only [hb, ht, ht.not_ge, true_and, false_and, or_false, iff_false]
  · simp only [hb, false_and, not_false_eq_true]

/-- Settings are accepted just when they keep the bounds that validation announces, unless they are
misjudged. What is said of others are the messages of the sections, one section after another, and a
strict check refuses them with these. -/
theorem bounds_enforced (exist : String → Bool) (s : Settings) :
    (s.problems exist = [] ↔ s.Bounded exist ∧ s.server.shutdownTimeout < .ofSeconds 61 ∧
      s.logging.appName.utf8ByteSize ≤ 64) ∧
    ((s.problems exist = [] ↔ s.Announced exist) ↔ ¬ s.Misjudged exist) ∧
    (s.problems exist).map (·.message) = [s.server.problems, s.client.problems, s.codec.problems,
      s.dispatch.problems, s.logging.problems exist].flatMap (·.map (·.message)) ∧
    s.check exist = if s.problems exist = [] then .ok ()
      else .error (.invalid ((s.problems exist).map (·.message))) := by
  refine ⟨problems_eq_nil, judged_iff, ?_, ?_⟩
  · simp [problems]
  · rw [check]
    split
    · next hnone => rw [if_pos hnone]
    · next hsome => rw [if_neg hsome]

/-- A server that waits almost a second too long when it shuts down. -/
def lingering : Settings where
  server := { shutdownTimeout := .ofMillis 60999 }

/-- An application with a name of 33 characters in 66 bytes. -/
def accented : Settings where
  logging := { appName := .ofList (.replicate 33 'é') }

theorem bounds_misjudged : lingering.problems (fun _ => true) = [] ∧
    ¬ lingering.Announced (fun _ => true) ∧ accented.Announced (fun _ => true) ∧
    accented.problems (fun _ => true) ≠ [] := by
  have hdefault : Bounded (fun _ => true) {} := (problems_eq_nil.1 (problems_default _)).1
  refine ⟨by decide, fun h => absurd h.longestShutdown (by decide), ?_,
    fun h => absurd (problems_eq_nil.1 h).2.2 (by decide)⟩
  exact
    { hdefault with
      logging := ⟨by decide, .inl rfl, nofun⟩
      longestShutdown := by decide
      longestName := by decide }

end Settings
end GraphRpc
