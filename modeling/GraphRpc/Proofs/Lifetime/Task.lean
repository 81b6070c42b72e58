import Mathlib
import GraphRpc.Proofs.Calls.Whole
import GraphRpc.Proofs.Inbound.Stopping

/-!
# The task of a connection

A connection is served by one task. A client's first waits for a transport, and gives up if there is none.
With a transport a reader and a writer are at work until both have stopped. Whoever of them meets with a
fault reports it and closes the connection before the other one goes on, and that one finds it closed. All
others may take their own steps between those of the task, and close the connection at any time.
-/

namespace GraphRpc

variable {α : Type}

open Endpoint

-- ---------------------------------------------------------------------------
-- Reporting and closing
-- ---------------------------------------------------------------------------

/-- Something that the task of a connection sees through before it does anything else. -/
inductive Chore (α : Type) where
  | failing (why : Failure)
  | reporting (why failure : Failure)
  | closing (failure : Failure) (phase : ClosingPhase α)

def Chore.step (chore : Chore α) (seen : List UInt64) (e : Endpoint α) : List (Chore α) × Endpoint α :=
  match chore with
  | failing why => (if e.connection.closed then [] else [reporting why .closed], e)
  | reporting why failure =>
    ([closing failure .swapping], { e with trace := e.trace.emit (.faulted why) })
  | closing _ .returned => ([], e)
  | closing failure phase =>
    let (phase, e) := phase.step failure seen e
    ([closing failure phase], e)

def Stop.chores (stop : Stop) : List (Chore α) :=
  (stop.fault?.map .failing).toList ++ [.closing .closed .swapping]

def Stop.counted (stop : Stop) (c : Counters) : Counters :=
  match stop with
  | undecodable size _ => (c.frameReceived size).decodeFailed
  | unframed _ | leftover => c.decodeFailed
  | ended => c

-- ---------------------------------------------------------------------------
-- The task of a connection
-- ---------------------------------------------------------------------------

/-- The next step of the task of a connection, if there is one. -/
inductive LifePhase (α : Type) where
  | connecting
  | refused (chores : List (Chore α))
  | opening
  | raising
  | attaching
  | greeting
  /-- Reader and writer are at work, or have stopped, and whoever has just stopped has left these
  chores. -/
  | running (reading writing : Bool) (chores : List (Chore α))
  | detaching
  | lowering
  | parting
  | returned (served : Bool)

namespace LifePhase

def chores : LifePhase α → List (Chore α)
  | refused chores | running _ _ chores => chores
  | _ => []

def withChores (chores : List (Chore α)) : LifePhase α → LifePhase α
  | refused _ => refused chores
  | running reading writing _ => running reading writing chores
  | phase => phase

theorem withChores_self (task : LifePhase α) : task.withChores task.chores = task := by
  cases task <;> rfl

theorem withChores_withChores (a b : List (Chore α)) (task : LifePhase α) :
    (task.withChores a).withChores b = task.withChores b := by
  cases task <;> rfl

theorem chores_withChores {chore : Chore α} {later : List (Chore α)} {task : LifePhase α}
    (h : task.chores = chore :: later) (chores : List (Chore α)) :
    (task.withChores chores).chores = chores := by
  cases task with
  | refused | running => rfl
  | _ => cases h

end LifePhase

structure Lifetime (α : Type) where
  traffic : Traffic α
  task : LifePhase α
  /-- How often the task has raised the number of active connections, and how often lowered it. -/
  raised : Nat := 0
  lowered : Nat := 0

inductive ReadEvent where
  | message (size : Nat)
  | stop (stop : Stop)
  | cancelled

inductive WriteEvent where
  | frame
  | failed (why : Failure)
  | cancelled

inductive LifetimeAction (α : Type) where
  | others (a : TrafficAction α)
  | connect (result : Except ConnectFault Unit)
  | go (seen : List UInt64)
  | read (event : ReadEvent)
  | write (event : WriteEvent)

namespace Lifetime

/-- A connection whose task is about to start. A client's has to wait for a transport. -/
def start (codec : Codec α) (outbound : Outbound) (callTimeout : Option Millis) (client : Bool) :
    Lifetime α where
  traffic := .start codec outbound callTimeout
  task := if client then .connecting else .opening

def endpoint (s : Lifetime α) : Endpoint α := s.traffic.endpoint

def next (s : Lifetime α) (task : LifePhase α) (e : Endpoint α) : Lifetime α :=
  { s with task, traffic := { s.traffic with endpoint := e } }

def proceed (s : Lifetime α) (e : Endpoint α) : Lifetime α :=
  match s.task with
  | .opening => s.next (if e.connection.closed then .returned false else .raising) e
  | .raising =>
    { s.next .attaching ((count Counters.connectionEstablished).run e).2 with raised := s.raised + 1 }
  | .attaching => s.next .greeting ((update fun c => { c with connected := true }).run e).2
  | .greeting => s.next (.running true true []) ((emit .connected).run e).2
  | .running false false _ => s.next .detaching e
  | .detaching => s.next .lowering ((update fun c => { c with connected := false }).run e).2
  | .lowering =>
    { s.next .parting ((count Counters.connectionClosed).run e).2 with lowered := s.lowered + 1 }
  | .parting => s.next (.returned true) ((emit .disconnected).run e).2
  | _ => s

def go (s : Lifetime α) (seen : List UInt64) : Lifetime α :=
  match s.task.chores with
  | chore :: later =>
    let (chores, e) := chore.step seen s.endpoint
    s.next (s.task.withChores (chores ++ later)) e
  | [] => s.proceed s.endpoint

def read (s : Lifetime α) (event : ReadEvent) : Lifetime α :=
  match s.task with
  | .running true writing [] =>
    match event with
    | .message size => s.next s.task ((count (Counters.frameReceived size)).run s.endpoint).2
    | .stop stop => s.next (.running false writing stop.chores) ((count stop.counted).run s.endpoint).2
    | .cancelled =>
      if s.endpoint.connection.closed then
        s.next (.running false writing [.closing .closed .swapping]) s.endpoint
      else s
  | _ => s

def write (s : Lifetime α) (event : WriteEvent) : Lifetime α :=
  match s.task with
  | .running reading true [] =>
    match event with
    | .frame =>
      match s.endpoint.connection.outbound.pop? with
      | some (frame, outbound) =>
        let e := { s.endpoint with connection := { s.endpoint.connection with outbound } }
        s.next s.task ((count (Counters.frameSent frame.bytes.size)).run e).2
      | none => s
    | .failed why => s.next (.running reading false [.failing why]) s.endpoint
    | .cancelled =>
      if s.endpoint.connection.closed then s.next (.running reading false []) s.endpoint else s
  | _ => s

def act (s : Lifetime α) : LifetimeAction α → Lifetime α
  | .others a => { s with traffic := s.traffic.act a }
  | .connect result =>
    match s.task, result with
    | .connecting, .ok () => s.next .opening s.endpoint
    | .connecting, .error why =>
      s.next (.refused [.reporting (.link (.connect why)) (.link (.connect why))]) s.endpoint
    | _, _ => s
  | .go seen => s.go seen
  | .read event => s.read event
  | .write event => s.write event

def run (s : Lifetime α) (actions : List (LifetimeAction α)) : Lifetime α := actions.foldl act s

end Lifetime

-- ---------------------------------------------------------------------------
-- Steps in a row
-- ---------------------------------------------------------------------------

namespace Chore

/-- Chores are seen through from `e` to `e'`, with nobody else's steps in between. -/
inductive Through : List (Chore α) → Endpoint α → Endpoint α → Prop
  | done {e} : Through [] e e
  | step {chore later e e'} (seen : List UInt64)
    (h : Through ((chore.step seen e).1 ++ later) (chore.step seen e).2 e') : Through (chore :: later) e e'

variable {e e' last : Endpoint α} {later : List (Chore α)} {why failure : Failure}

theorem through_of_alone {phase : ClosingPhase α}
    (h : Alone (.close failure .returned, e') (.close failure phase) e) (hlater : Through later e' last) :
    Through (.closing failure phase :: later) e last := by
  generalize hp : Party.close failure phase = p at h
  induction h generalizing phase with
  | stop =>
    cases hp
    exact .step [] hlater
  | step seen _ ih =>
    subst hp
    cases phase with
    | returned => exact ih rfl
    | swapping | signalling | clearing | listing | iterating | failing => exact .step seen (ih rfl)

/-- Closing is to close with the same failure. -/
theorem through_closing (hlater : Through later ((closeWith failure).run e).2 last) :
    Through (.closing failure .swapping :: later) e last :=
  through_of_alone (closeWith_alone failure e) hlater

theorem through_reporting
    (hlater : Through later ((closeWith failure).run { e with trace := e.trace.emit (.faulted why) }).2
      last) : Through (.reporting why failure :: later) e last :=
  .step [] (through_closing hlater)

/-- To report a failure of the transport is to fail with it. -/
theorem through_failing (hlater : Through later ((fail why).run e).2 last) :
    Through (.failing why :: later) e last := by
  have hrun : ((fail why).run e).2 = if e.connection.closed then e
      else (close.run { e with trace := e.trace.emit (.faulted why) }).2 := by
    simp only [fail, StateT.run_bind]
    rw [isClosed_run]
    cases e.connection.closed <;> rfl
  rw [hrun] at hlater
  refine .step [] ?_
  cases hclosed : e.connection.closed with
  | true =>
    rw [hclosed] at hlater
    simpa [step, hclosed] using hlater
  | false =>
    rw [hclosed] at hlater
    simpa [step, hclosed] using through_reporting hlater

/-- To report that there is no transport is to fail to connect. -/
theorem through_refused (fault : ConnectFault) (e : Endpoint α) :
    Through [.reporting (.link (.connect fault)) (.link (.connect fault))] e
      ((failConnect fault).run e).2 :=
  through_reporting .done

/-- To see through what a reader does when it stops is to stop. -/
theorem through_stop (stop : Stop) (e : Endpoint α) :
    Through stop.chores ((count stop.counted).run e).2 ((stop.act).run e).2 := by
  cases stop with
  | ended => exact through_closing .done
  | undecodable size why => exact through_failing (through_closing .done)
  | unframed why => exact through_failing (through_closing .done)
  | leftover => exact through_failing (through_closing .done)

end Chore

namespace Lifetime

variable {s : Lifetime α} {e : Endpoint α}

/-- A task that nobody interrupts sees its chores through. -/
theorem run_through {chores : List (Chore α)} (h : Chore.Through chores s.endpoint e)
    (hchores : s.task.chores = chores) :
    ∃ actions, s.run actions = s.next (s.task.withChores []) e := by
  generalize he : s.endpoint = first at h
  induction h generalizing s with
  | done =>
    refine ⟨[], ?_⟩
    rw [← hchores, LifePhase.withChores_self, ← he]
    rfl
  | @step chore later first e seen _ ih =>
    subst he
    have hgo : s.go seen = s.next (s.task.withChores ((chore.step seen s.endpoint).1 ++ later))
        (chore.step seen s.endpoint).2 := by
      rw [go, hchores]
    obtain ⟨actions, hactions⟩ := @ih (s.go seen) (by
      rw [hgo]
      exact LifePhase.chores_withChores hchores _) (by rw [hgo]; rfl)
    refine ⟨.go seen :: actions, hactions.trans ?_⟩
    rw [hgo]
    exact congrArg (s.next · e) (LifePhase.withChores_withChores ..)

theorem run_establish (htask : s.task = .raising) : s.run [.go [], .go [], .go []] =
    { s.next (.running true true []) (establish.run s.endpoint).2 with raised := s.raised + 1 } := by
  obtain ⟨traffic, task, raised, lowered⟩ := s
  cases htask
  rfl

theorem run_disconnect (htask : s.task = .detaching) : s.run [.go [], .go [], .go []] =
    { s.next (.returned true) (disconnect.run s.endpoint).2 with lowered := s.lowered + 1 } := by
  obtain ⟨traffic, task, raised, lowered⟩ := s
  cases htask
  rfl

end Lifetime
end GraphRpc
