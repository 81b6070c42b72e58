import Mathlib
import GraphRpc.Proofs.Lifetime.Bystanders
import GraphRpc.Proofs.Lifetime.Task

/-!
# Listeners

Whatever happens to a connection, and in whatever order, each of its listeners is told at most once: that
there is a transport, that there was a fault, and that the transport is at its end. A fault is reported by
whoever of the task meets with it first. It closes the connection before the task goes on, so that the next
fault is not reported any more.
-/

namespace GraphRpc

variable {α : Type}

open Endpoint

-- ---------------------------------------------------------------------------
-- Chores
-- ---------------------------------------------------------------------------

def Chore.closes : Chore α → Bool
  | reporting .. | closing _ .swapping => true
  | _ => false

/-- What is kept while chores are seen through. A failure is reported once: it was not before it is about
to be, and after that the connection is closed or about to be closed. -/
structure Chore.Plan (chores : List (Chore α)) (fault : Bool) (e : Endpoint α) : Prop where
  reported : fault → e.connection.closed ∨
    ∃ failure later, chores = .closing failure .swapping :: later
  unreported : ∀ why failure later, chores = .reporting why failure :: later → fault = false
  later : ∀ chore ∈ chores.tail, ∃ failure, chore = .closing failure .swapping

namespace Chore

variable {fault : Bool} {e e' : Endpoint α} {chore : Chore α} {chores later : List (Chore α)}

theorem Plan.of_closing (hclosed : fault → e.connection.closed)
    (hall : ∀ chore ∈ chores, ∃ failure, chore = .closing failure .swapping) : Plan chores fault e where
  reported hfault := .inl (hclosed hfault)
  unreported why failure later heq := by
    obtain ⟨_, h⟩ := hall _ (heq ▸ List.mem_cons_self ..)
    cases h
  later chore hmem := hall chore (List.mem_of_mem_tail hmem)

theorem Plan.nil (hclosed : fault → e.connection.closed) : Plan ([] : List (Chore α)) fault e :=
  .of_closing hclosed fun _ hmem => (nomatch hmem)

theorem Plan.mono (h : Plan chores fault e) (hclosed : e.connection.closed → e'.connection.closed) :
    Plan chores fault e' :=
  ⟨fun hfault => (h.reported hfault).imp hclosed id, h.unreported, h.later⟩

end Chore

namespace ClosingPhase

theorem step_ne_swapping (phase : ClosingPhase α) (failure : Failure) (seen : List UInt64)
    (e : Endpoint α) : (phase.step failure seen e).1 ≠ .swapping := by
  cases phase with
  | swapping | iterating =>
    simp only [step]
    split <;> simp
  | signalling | clearing | listing | returned => simp [step]
  | failing ids d =>
    by_cases hd : d = .done
    · subst hd
      cases ids <;> simp [step]
    · rw [step_failing hd]
      simp

theorem closed_step_swapping (failure : Failure) (seen : List UInt64) (e : Endpoint α) :
    (step .swapping failure seen e).2.connection.closed := by
  simp only [step]
  split
  · assumption
  · rfl

end ClosingPhase

namespace Chore

/-- What a step of a chore can come to, and whether a failure is reported in it. -/
inductive Step : Chore α → Endpoint α → List (Chore α) → (reports : Bool) → Endpoint α → Prop
  | needless {why e} (hclosed : e.connection.closed) : Step (.failing why) e [] false e
  | fails {why e} (hopen : e.connection.closed = false) :
    Step (.failing why) e [.reporting why .closed] false e
  | reports {why failure e} : Step (.reporting why failure) e [.closing failure .swapping] true
      { e with trace := e.trace.emit (.faulted why) }
  | closed {failure e} : Step (.closing failure .returned) e [] false e
  | closes {failure phase phase' e e'} (hphase : phase' ≠ .swapping) (hlife : SameLife e e')
    (hclosed : phase = .swapping → e'.connection.closed) :
    Step (.closing failure phase) e [.closing failure phase'] false e'

theorem step_spec (chore : Chore α) (seen : List UInt64) (e : Endpoint α) :
    ∃ reports, Step chore e (chore.step seen e).1 reports (chore.step seen e).2 := by
  cases chore with
  | failing why =>
    cases hclosed : e.connection.closed with
    | true => exact ⟨_, by simpa [step, hclosed] using .needless hclosed⟩
    | false => exact ⟨_, by simpa [step, hclosed] using .fails hclosed⟩
  | reporting why failure => exact ⟨_, .reports⟩
  | closing failure phase =>
    have hcloses : Step (.closing failure phase) e
        [.closing failure (phase.step failure seen e).1] false (phase.step failure seen e).2 :=
      .closes (phase.step_ne_swapping failure seen e) (phase.sameLife_step ..) fun hphase =>
        hphase ▸ ClosingPhase.closed_step_swapping failure seen e
    cases phase with
    | returned => exact ⟨_, .closed⟩
    | swapping | signalling | clearing | listing | iterating | failing => exact ⟨_, hcloses⟩

variable {reports : Bool}

theorem Step.life (h : Step chore e chores reports e') :
    (e.connection.closed → e'.connection.closed) ∧
    e'.trace.heard = e.trace.heard ++ (if reports then [.error] else []) ∧
    e'.trace.counters.connectionsTotal = e.trace.counters.connectionsTotal ∧
    e'.trace.counters.connectionsActive = e.trace.counters.connectionsActive := by
  cases h with
  | needless | fails | closed => exact ⟨id, (List.append_nil _).symm, rfl, rfl⟩
  | reports => exact ⟨id, Trace.heard_emit .., rfl, rfl⟩
  | closes hphase hlife hclosed =>
    exact ⟨hlife.closed, hlife.heard.trans (List.append_nil _).symm, hlife.total, hlife.active⟩

theorem Step.unreported (h : Step chore e chores reports e') (hp : Plan (chore :: later) fault e)
    (hreports : reports) : fault = false := by
  cases h with
  | reports => exact hp.unreported _ _ _ rfl
  | needless | fails | closed | closes => cases hreports

theorem Step.plan (h : Step chore e chores reports e') (hp : Plan (chore :: later) fault e) :
    Plan (chores ++ later) (fault || reports) e' := by
  have hlater : ∀ chore ∈ later, ∃ failure, chore = .closing failure .swapping := hp.later
  have hclosed (hne : ∀ failure, chore ≠ .closing failure .swapping) (hfault : fault) :
      e.connection.closed := by
    refine (hp.reported hfault).resolve_right ?_
    rintro ⟨failure, rest, heq⟩
    exact hne failure (List.cons.inj heq).1
  cases h with
  | needless hclosed =>
    rw [Bool.or_false]
    exact .of_closing (fun _ => hclosed) hlater
  | fails hopen =>
    have hfault : fault = false := by
      by_contra hfault
      have := hclosed (by simp) (Bool.not_eq_false _ ▸ hfault)
      rw [hopen] at this
      cases this
    rw [hfault]
    exact ⟨fun hfalse => (nomatch hfalse), fun _ _ _ _ => rfl, hlater⟩
  | reports => exact ⟨fun _ => .inr ⟨_, _, rfl⟩, fun _ _ _ heq => (nomatch heq), hlater⟩
  | closed =>
    rw [Bool.or_false]
    exact .of_closing (hclosed (by simp)) hlater
  | @closes failure phase phase' _ _ hphase hlife hcloses =>
    rw [Bool.or_false]
    refine ⟨fun hfault => .inl ?_, fun _ _ _ heq => (nomatch heq), hlater⟩
    by_cases hswapping : phase = .swapping
    · exact hcloses hswapping
    · exact hlife.closed (hclosed (by simpa using hswapping) hfault)

theorem Step.bound (h : Step chore e chores reports e')
    (hbound : e.connection.closed ∨ ∃ c ∈ chore :: later, c.closes) :
    e'.connection.closed ∨ ∃ c ∈ chores ++ later, c.closes := by
  obtain ⟨hclosed, -⟩ := h.life
  have hlater (hnot : chore.closes = false) :
      e'.connection.closed ∨ ∃ c ∈ chores ++ later, c.closes := by
    refine hbound.imp hclosed ?_
    rintro ⟨c, hmem, hc⟩
    rcases List.mem_cons.1 hmem with rfl | hmem
    · rw [hnot] at hc
      cases hc
    · exact ⟨c, List.mem_append_right _ hmem, hc⟩
  cases h with
  | needless | fails | closed => exact hlater rfl
  | reports => exact .inr ⟨_, List.mem_cons_self .., rfl⟩
  | @closes failure phase phase' _ _ hphase hlife hcloses =>
    by_cases hswapping : phase = .swapping
    · exact .inl (hcloses hswapping)
    · refine hlater ?_
      cases phase <;> first | rfl | exact (hswapping rfl).elim

end Chore

-- ---------------------------------------------------------------------------
-- What every step keeps
-- ---------------------------------------------------------------------------

namespace LifePhase

/-- Who was told by the time the task is in this phase, after a fault or without one. -/
def heard (fault : Bool) : LifePhase α → List Listener
  | connecting | opening | raising | attaching | greeting | returned false => []
  | refused _ => if fault then [.error] else []
  | running .. | detaching | lowering | parting => .connected :: if fault then [.error] else []
  | returned true => .connected :: ((if fault then [.error] else []) ++ [.disconnected])

theorem heard_sublist (fault : Bool) (task : LifePhase α) :
    (task.heard fault).Sublist [.connected, .error, .disconnected] := by
  cases task with
  | returned served => cases served <;> simp only [heard] <;> cases fault <;> decide
  | _ =>
    simp only [heard]
    cases fault <;> decide

theorem connected_of_disconnected (fault : Bool) (task : LifePhase α) :
    .disconnected ∈ task.heard fault → .connected ∈ task.heard fault := by
  cases task with
  | returned served => cases served <;> simp only [heard] <;> cases fault <;> decide
  | _ =>
    simp only [heard]
    cases fault <;> decide

/-- How often the number of active connections was raised by then, and how often lowered. -/
def balance : LifePhase α → Nat × Nat
  | attaching | greeting | running .. | detaching | lowering => (1, 0)
  | parting | returned true => (1, 1)
  | _ => (0, 0)

def stopped : LifePhase α → Bool
  | refused _ | running false _ _ | detaching | lowering | parting | returned _ => true
  | _ => false

end LifePhase

namespace Lifetime

structure Sound (s : Lifetime α) (fault : Bool) : Prop where
  plan : Chore.Plan s.task.chores fault s.endpoint
  bound : s.task.stopped → s.endpoint.connection.closed ∨ ∃ c ∈ s.task.chores, c.closes
  heard : s.endpoint.trace.heard = s.task.heard fault
  balance : (s.raised, s.lowered) = s.task.balance
  total : s.endpoint.trace.counters.connectionsTotal = UInt64.ofNat s.raised
  active : s.endpoint.trace.counters.connectionsActive = UInt64.ofNat s.raised - UInt64.ofNat s.lowered

variable {s : Lifetime α} {fault : Bool} {e : Endpoint α}

/-- A failure that was reported when there are no chores has closed the connection. -/
theorem Sound.closed_of_fault (h : s.Sound fault) (hchores : s.task.chores = []) (hfault : fault) :
    s.endpoint.connection.closed := by
  refine (h.plan.reported hfault).resolve_right ?_
  rintro ⟨failure, later, heq⟩
  rw [hchores] at heq
  cases heq

theorem Sound.closed_of_stopped (h : s.Sound fault) (hchores : s.task.chores = [])
    (hstopped : s.task.stopped) : s.endpoint.connection.closed := by
  refine (h.bound hstopped).resolve_right ?_
  rintro ⟨chore, hmem, -⟩
  rw [hchores] at hmem
  cases hmem

theorem Sound.others {traffic : Traffic α} (h : s.Sound fault)
    (hlife : SameLife s.endpoint traffic.endpoint) : Sound { s with traffic } fault where
  plan := h.plan.mono hlife.closed
  bound := fun hstopped => (h.bound hstopped).imp hlife.closed id
  heard := hlife.heard.trans h.heard
  balance := h.balance
  total := hlife.total.trans h.total
  active := hlife.active.trans h.active

theorem Sound.chore {chore : Chore α} {chores later : List (Chore α)} {reports : Bool}
    (h : s.Sound fault) (hchores : s.task.chores = chore :: later)
    (hstep : Chore.Step chore s.endpoint chores reports e) :
    (s.next (s.task.withChores (chores ++ later)) e).Sound (fault || reports) := by
  obtain ⟨hplan, hbound, hheard, hbalance, htotal, hactive⟩ := h
  obtain ⟨-, hheard', htotal', hactive'⟩ := hstep.life
  rw [hchores] at hplan hbound
  rw [hheard] at hheard'
  have hlater (task : LifePhase α) (htask : task.chores = chores ++ later)
      (hstopped : task.stopped = s.task.stopped) (hbalance' : task.balance = s.task.balance)
      (hword : task.heard (fault || reports) = s.task.heard fault ++ if reports then [.error] else []) :
      (s.next task e).Sound (fault || reports) := by
    refine ⟨?_, fun hs => ?_, hheard'.trans hword.symm, hbalance.trans hbalance'.symm,
      htotal'.trans htotal, hactive'.trans hactive⟩
    · exact htask.symm ▸ hstep.plan hplan
    · exact htask.symm ▸ hstep.bound (hbound (hstopped ▸ hs))
  have hword : (if fault || reports then [Listener.error] else []) =
      (if fault then [.error] else []) ++ if reports then [.error] else [] := by
    cases hreports : reports with
    | true =>
      rw [hstep.unreported hplan hreports]
      rfl
    | false => simp
  cases htask : s.task with
  | refused cs =>
    rw [htask] at hlater
    exact hlater _ rfl rfl rfl hword
  | running reading writing cs =>
    rw [htask] at hlater
    exact hlater _ rfl (by cases reading <;> rfl) rfl (congrArg (Listener.connected :: ·) hword)
  | connecting | opening | raising | attaching | greeting | detaching | lowering | parting
  | returned =>
    rw [htask] at hchores
    cases hchores

theorem Sound.proceed (h : s.Sound fault) (hchores : s.task.chores = []) :
    ∃ fault, (s.proceed s.endpoint).Sound fault := by
  have hclosed := h.closed_of_stopped hchores
  have hsame := h
  obtain ⟨-, -, hheard, hbalance, htotal, hactive⟩ := h
  obtain ⟨traffic, task, raised, lowered⟩ := s
  cases task with
  | opening =>
    simp only [Lifetime.proceed]
    split
    · next hclosed =>
      exact ⟨false, .nil nofun, fun _ => .inl hclosed, hheard, hbalance, htotal, hactive⟩
    · exact ⟨false, .nil nofun, nofun, hheard, hbalance, htotal, hactive⟩
  | raising =>
    obtain ⟨hraised, hlowered⟩ := Prod.mk.inj hbalance
    have hone : UInt64.ofNat (raised + 1) = UInt64.ofNat raised + 1 := UInt64.ofNat_add ..
    have hmore : traffic.endpoint.trace.counters.connectionsActive + 1 =
        UInt64.ofNat (raised + 1) - UInt64.ofNat lowered := by
      rw [hone, add_sub_right_comm]
      exact congrArg (· + 1) hactive
    exact ⟨false, .nil nofun, nofun, hheard, Prod.ext (congrArg (· + 1) hraised) hlowered,
      hone.symm ▸ congrArg (· + 1) htotal, hmore⟩
  | attaching => exact ⟨false, .nil nofun, nofun, hheard, hbalance, htotal, hactive⟩
  | greeting =>
    have htold := (Trace.heard_emit traffic.endpoint.trace .connected).trans
      (congrArg (· ++ [Listener.connected]) hheard)
    exact ⟨false, .nil nofun, nofun, htold, hbalance, htotal, hactive⟩
  | running reading writing chores =>
    -- The task goes on only when neither reads nor writes any more.
    cases reading with
    | true => exact ⟨fault, hsame⟩
    | false =>
      cases writing with
      | true => exact ⟨fault, hsame⟩
      | false =>
        exact ⟨fault, .nil fun _ => hclosed rfl, fun _ => .inl (hclosed rfl), hheard, hbalance, htotal,
          hactive⟩
  | detaching =>
    exact ⟨fault, .nil fun _ => hclosed rfl, fun _ => .inl (hclosed rfl), hheard, hbalance, htotal,
      hactive⟩
  | lowering =>
    obtain ⟨hraised, hlowered⟩ := Prod.mk.inj hbalance
    have hless : traffic.endpoint.trace.counters.connectionsActive - 1 =
        UInt64.ofNat raised - UInt64.ofNat (lowered + 1) := by
      rw [UInt64.ofNat_add, ← sub_sub]
      exact congrArg (· - 1) hactive
    exact ⟨fault, .nil fun _ => hclosed rfl, fun _ => .inl (hclosed rfl), hheard,
      Prod.ext hraised (congrArg (· + 1) hlowered), htotal, hless⟩
  | parting =>
    have htold := (Trace.heard_emit traffic.endpoint.trace .disconnected).trans
      (congrArg (· ++ [Listener.disconnected]) hheard)
    exact ⟨fault, .nil fun _ => hclosed rfl, fun _ => .inl (hclosed rfl), htold, hbalance, htotal,
      hactive⟩
  | connecting | refused chores | returned served => exact ⟨fault, hsame⟩

theorem Sound.go (h : s.Sound fault) (seen : List UInt64) : ∃ fault, (s.go seen).Sound fault := by
  unfold Lifetime.go
  split
  · next chore later hchores =>
    obtain ⟨reports, hstep⟩ := chore.step_spec seen s.endpoint
    exact ⟨_, h.chore hchores hstep⟩
  · next hchores => exact h.proceed hchores

theorem Sound.stop {reading writing reading' writing' : Bool} {chores : List (Chore α)}
    (h : s.Sound fault) (htask : s.task = .running reading writing []) (hlife : SameLife s.endpoint e)
    (hplan : Chore.Plan chores fault e)
    (hbound : reading' = false → e.connection.closed ∨ ∃ c ∈ chores, c.closes) :
    (s.next (.running reading' writing' chores) e).Sound fault := by
  obtain ⟨-, -, hheard, hbalance, htotal, hactive⟩ := h
  rw [htask] at hheard hbalance
  refine ⟨hplan, fun hstopped => ?_, hlife.heard.trans hheard, hbalance, hlife.total.trans htotal,
    hlife.active.trans hactive⟩
  cases reading' with
  | true => cases hstopped
  | false => exact hbound rfl

theorem Sound.read (h : s.Sound fault) (event : ReadEvent) : (s.read event).Sound fault := by
  unfold Lifetime.read
  split
  · next writing htask =>
    have hclosed := h.closed_of_fault (by rw [htask]; rfl)
    cases event with
    | message size => exact h.others ⟨id, rfl, rfl, rfl⟩
    | stop stop =>
      refine h.stop htask ?_ ?_ fun _ => .inr ⟨_, List.mem_append_right _ (List.mem_cons_self ..), rfl⟩
      · cases stop <;> exact ⟨id, rfl, rfl, rfl⟩
      · have hlast : ∀ chore ∈ [Chore.closing (α := α) .closed .swapping],
            ∃ failure, chore = .closing failure .swapping := by simp
        cases stop with
        | ended => exact .of_closing hclosed hlast
        | undecodable | unframed | leftover =>
          exact ⟨fun hfault => .inl (hclosed hfault), fun _ _ _ heq => (nomatch heq), hlast⟩
    | cancelled =>
      dsimp only
      split
      · next hclosed' =>
        exact h.stop htask (.refl _) (.of_closing (fun _ => hclosed') (by simp)) fun _ => .inl hclosed'
      · exact h
  · exact h

theorem Sound.write (h : s.Sound fault) (event : WriteEvent) : (s.write event).Sound fault := by
  unfold Lifetime.write
  split
  · next reading htask =>
    have hchores : s.task.chores = [] := by rw [htask]; rfl
    have hclosed := h.closed_of_fault hchores
    have hbound (hreading : reading = false) : s.endpoint.connection.closed :=
      h.closed_of_stopped hchores (by rw [htask, hreading]; rfl)
    cases event with
    | frame =>
      dsimp only
      split
      · exact h.others ⟨id, rfl, rfl, rfl⟩
      · exact h
    | failed why =>
      exact h.stop htask (.refl _)
        ⟨fun hfault => .inl (hclosed hfault), fun _ _ _ heq => (nomatch heq), fun _ hmem => (nomatch hmem)⟩
        fun hreading => .inl (hbound hreading)
    | cancelled =>
      dsimp only
      split
      · next hclosed' =>
        exact h.stop htask (.refl _) (.nil fun _ => hclosed') fun _ => .inl hclosed'
      · exact h
  · exact h

theorem Sound.connect (h : s.Sound fault) (result : Except ConnectFault Unit) :
    ∃ fault, (s.act (.connect result)).Sound fault := by
  have hheard := h.heard
  have hbalance := h.balance
  unfold Lifetime.act
  dsimp only
  split
  · next htask =>
    rw [htask] at hheard hbalance
    exact ⟨false, .nil nofun, nofun, hheard, hbalance, h.total, h.active⟩
  · next why htask =>
    rw [htask] at hheard hbalance
    exact ⟨false, ⟨nofun, fun _ _ _ _ => rfl, fun _ hmem => (nomatch hmem)⟩,
      fun _ => .inr ⟨_, List.mem_cons_self .., rfl⟩, hheard, hbalance, h.total, h.active⟩
  · exact ⟨fault, h⟩

theorem Sound.act (h : s.Sound fault) (a : LifetimeAction α) : ∃ fault, (s.act a).Sound fault := by
  cases a with
  | others a => exact ⟨fault, h.others (s.traffic.sameLife_act a)⟩
  | connect result => exact h.connect result
  | go seen => exact h.go seen
  | read event => exact ⟨fault, h.read event⟩
  | write event => exact ⟨fault, h.write event⟩

theorem sound_start (codec : Codec α) (outbound : Outbound) (callTimeout : Option Millis)
    (client : Bool) : (start codec outbound callTimeout client).Sound false := by
  cases client <;> exact ⟨.nil nofun, nofun, rfl, rfl, rfl, (sub_self _).symm⟩

theorem sound_run (codec : Codec α) (outbound : Outbound) (callTimeout : Option Millis) (client : Bool)
    (actions : List (LifetimeAction α)) :
    ∃ fault, ((start codec outbound callTimeout client).run actions).Sound fault := by
  unfold run
  induction actions using List.reverseRecOn with
  | nil => exact ⟨false, sound_start ..⟩
  | append_singleton actions a ih =>
    obtain ⟨fault, h⟩ := ih
    rw [List.foldl_append]
    exact h.act a

/-- Each listener is told at most once: first that the connection is connected, then of a fault, and last
that it is disconnected, which nobody is told unless it was connected. When the task has returned, both
were told or neither, the connection is closed, and the number of active connections was lowered as often
as it was raised. Without a transport nothing but a fault is told, and the connection is closed. -/
theorem listeners_told_in_order (codec : Codec α) (outbound : Outbound) (callTimeout : Option Millis)
    (client : Bool) (actions : List (LifetimeAction α)) :
    let s := (start codec outbound callTimeout client).run actions
    let heard := s.endpoint.trace.heard
    heard.Sublist [.connected, .error, .disconnected] ∧
    (.disconnected ∈ heard → .connected ∈ heard) ∧
    (∀ served, s.task = .returned served →
      (.disconnected ∈ heard ↔ .connected ∈ heard) ∧ s.endpoint.connection.closed ∧
      s.raised = s.lowered ∧ s.endpoint.trace.counters.connectionsActive = 0) ∧
    (s.task = .refused [] → heard.Sublist [.error] ∧ s.endpoint.connection.closed) := by
  intro s heard
  obtain ⟨fault, h⟩ : ∃ fault, s.Sound fault := sound_run codec outbound callTimeout client actions
  have hheard : heard = s.task.heard fault := h.heard
  have hsame {served : Bool} (htask : s.task = .returned served) : s.raised = s.lowered := by
    have hbalance := h.balance
    rw [htask] at hbalance
    obtain ⟨hraised, hlowered⟩ := Prod.mk.inj hbalance
    rw [hraised, hlowered]
    cases served <;> rfl
  refine ⟨hheard ▸ s.task.heard_sublist fault, hheard ▸ s.task.connected_of_disconnected fault,
    fun served htask => ⟨?_, ?_, hsame htask, ?_⟩, fun htask => ⟨?_, ?_⟩⟩
  · rw [hheard, htask]
    cases served <;> simp only [LifePhase.heard] <;> cases fault <;> decide
  · exact h.closed_of_stopped (by rw [htask]; rfl) (by rw [htask]; rfl)
  · rw [h.active, hsame htask, sub_self]
  · rw [hheard, htask]
    simp only [LifePhase.heard]
    cases fault <;> decide
  · exact h.closed_of_stopped (by rw [htask]; rfl) (by rw [htask]; rfl)

/-- The peer of a client takes no more bytes, and then breaks off inside a frame. -/
example :
    let ready := (start (⟨{}, .generic⟩ : Codec Empty) {} none true).act (.connect (.ok ()))
    let failed := (ready.run (.replicate 4 (.go []))).write (.failed (.stream .brokenPipe))
    let stopped := (failed.run (.replicate 9 (.go []))).read (.stop .leftover)
    (stopped.run (.replicate 7 (.go []))).endpoint.trace.heard = [.connected, .error, .disconnected] := by
  rfl

end Lifetime
end GraphRpc
