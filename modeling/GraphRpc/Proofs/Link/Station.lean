import Mathlib
import GraphRpc.Proofs.Lanes.Desk
import GraphRpc.Proofs.Peers.Serving
import GraphRpc.Transport.Inbound

/-!
# Stations

One end of a transport, with all who are at work there: the writer, the reader, and whoever has a
message in hand. Each takes its own steps between those of the others. Before a transport is attached
there is nothing to read or to write, but calls may already be issued.
-/

namespace GraphRpc

variable {α : Type}

-- ---------------------------------------------------------------------------
-- Dispatching a message
-- ---------------------------------------------------------------------------

/-- The next step of dispatching a message, if there is one. -/
inductive DispatchPhase (α : Type) where
  | starting
  | deciding (d : Deciding α)
  | serving (phase : ServePhase α)
  | noticing

namespace DispatchPhase

def ofMessage (m : Message α) : DispatchPhase α :=
  match m.kind with
  | .response | .error => deciding (.taking m.callId m.outcome)
  | .request => serving .invoking
  | .oneWay => noticing

def finished : DispatchPhase α → Bool
  | deciding .done | serving .done => true
  | _ => false

def step (routes : Routes α) (m : Message α) (phase : DispatchPhase α) (e : Endpoint α) :
    DispatchPhase α × Endpoint α :=
  match phase with
  | starting => (ofMessage m, ((Endpoint.count Counters.dispatched).run e).2)
  | deciding d =>
    let (d, e) := d.step e
    (deciding d, e)
  | serving phase =>
    let (service, e) := Service.advance routes (⟨m, phase⟩, e)
    (serving service.phase, e)
  | noticing =>
    let (outcome, e) := (routes.invokeHandlers m).exec e
    (deciding .done, e.tally outcome)

def steps (routes : Routes α) (m : Message α) (phase : DispatchPhase α) (e : Endpoint α) :
    (n : Nat) → DispatchPhase α × Endpoint α
  | 0 => (phase, e)
  | n + 1 =>
    let (phase, e) := phase.step routes m e
    phase.steps routes m e n

theorem steps_deciding (routes : Routes α) (m : Message α) (d : Deciding α) (e : Endpoint α) :
    (deciding d).steps routes m e 3 = (deciding .done, d.finish e) := by
  have hthird : (deciding d).steps routes m e 3 =
      (deciding ((d.step e).1.step (d.step e).2).1, d.finish e).1.steps routes m (d.finish e) 1 := rfl
  rw [hthird, d.step_step]
  rfl

theorem steps_serving (routes : Routes α) (m : Message α) (e : Endpoint α) :
    (serving .invoking).steps routes m e 3 = (serving .done, ((routes.serveRequest m).run e).2) := by
  have hthird : (serving .invoking).steps routes m e 3 =
      let last := Service.advance routes (Service.advance routes (Service.advance routes
        (⟨m, .invoking⟩, e)))
      (serving last.1.phase, last.2) := rfl
  rw [hthird, Service.advance_invoking]

/-- All steps in a row are to dispatch the message. -/
theorem steps_starting (routes : Routes α) (m : Message α) (e : Endpoint α) :
    (starting.steps routes m e 4).1.finished ∧
      (starting.steps routes m e 4).2 = ((routes.dispatch m).run e).2 := by
  have hfirst : starting.steps routes m e 4 =
      (ofMessage m).steps routes m ((Endpoint.count Counters.dispatched).run e).2 3 := rfl
  have hreply (hdispatch : ((routes.dispatch m).run e).2 =
      ((Endpoint.completeCall m).run ((Endpoint.count Counters.dispatched).run e).2).2)
      (hphase : ofMessage m = deciding (.taking m.callId m.outcome)) :
      (starting.steps routes m e 4).1.finished ∧
        (starting.steps routes m e 4).2 = ((routes.dispatch m).run e).2 := by
    rw [hfirst, hphase, steps_deciding, hdispatch, completeCall_eq_finish]
    exact ⟨rfl, rfl⟩
  cases hkind : m.kind with
  | response | error =>
    refine hreply ?_ (by rw [ofMessage, hkind])
    simp only [Routes.dispatch, StateT.run_bind, hkind]
    rfl
  | request =>
    have hphase : ofMessage m = serving .invoking := by rw [ofMessage, hkind]
    rw [hfirst, hphase, steps_serving, Routes.dispatch_run_request routes hkind]
    exact ⟨rfl, rfl⟩
  | oneWay =>
    have hphase : ofMessage m = noticing := by rw [ofMessage, hkind]
    have hlast (e : Endpoint α) : noticing.steps routes m e 3 =
        let (outcome, e') := (routes.invokeHandlers m).exec e
        (deciding .done, e'.tally outcome) := rfl
    have hrun (e : Endpoint α) :
        (routes.invokeHandlers m).run.run e = (routes.invokeHandlers m).exec e := rfl
    have hbind {β γ : Type} (x : StateM (Endpoint α) β) (f : β → StateM (Endpoint α) γ) (e : Endpoint α) :
        (x >>= f).run e = (f (x.run e).1).run (x.run e).2 := rfl
    rw [hfirst, hphase, hlast]
    simp only [Routes.dispatch, hbind, hkind, hrun]
    generalize (routes.invokeHandlers m).exec _ = r
    obtain ⟨failure | answer, e'⟩ := r <;> exact ⟨rfl, rfl⟩

end DispatchPhase

structure Handling (α : Type) where
  hand : Hand
  message : Message α
  phase : DispatchPhase α := .starting

-- ---------------------------------------------------------------------------
-- One end of a transport
-- ---------------------------------------------------------------------------

structure Station (α : Type) where
  endpoint : Endpoint α
  routes : Routes α
  desk : Desk (Message α)
  handlings : List (Handling α) := []
  /-- Bytes that were written and are on their way. -/
  sent : List UInt8 := []
  /-- Bytes that have arrived and were not read yet. -/
  received : List UInt8 := []

inductive StationAction where
  | attach
  | write
  | read
  | work (hand : Hand)
deriving Repr

namespace Station

def start (codec : Codec α) (kind : StrategyKind) (workers connection : Nat) (routes : Routes α) :
    Station α where
  endpoint := { connection := .detached codec, trace := {} }
  routes
  desk := .ofKind kind workers connection

def codec (x : Station α) : Codec α := x.endpoint.connection.codec

def count (x : Station α) (f : Counters → Counters) : Station α :=
  { x with endpoint := ((Endpoint.count f).run x.endpoint).2 }

def readFailed (x : Station α) (why : Failure) : Station α :=
  { x with endpoint := ((Endpoint.readFailed why).run x.endpoint).2 }

def attach (x : Station α) : Station α :=
  if x.endpoint.connection.closed || x.endpoint.connection.connected then x
  else { x with endpoint := (Endpoint.establish.run x.endpoint).2 }

def write (x : Station α) : Station α :=
  match x.endpoint.connection.outbound.pop? with
  | none => x
  | some (frame, outbound) =>
    let popped : Endpoint α :=
      { x.endpoint with connection := { x.endpoint.connection with outbound } }
    match Frame.build frame.bytes x.codec.limits.maxFrameSize with
    | .ok framed =>
      { count { x with endpoint := popped } (Counters.frameSent frame.bytes.size) with
        sent := x.sent ++ framed.data.toList }
    | .error why => { x with endpoint := ((Endpoint.fail (.frame why)).run popped).2 }

def read (x : Station α) : Station α :=
  match Arrival.next x.codec x.received with
  | .message size m rest =>
    { x.count (Counters.frameReceived size) with received := rest, desk := x.desk.give m }
  | .undecodable size why => (x.count (Counters.frameReceived size)).readFailed why
  | .unframed why => x.readFailed (.frame why)
  | .unfinished _ => x

/-- The next step of somebody at the desk: to begin with what it has in hand, to go on with it, or to
be done with it. -/
def work (x : Station α) (hand : Hand) : Station α :=
  match x.handlings.find? (·.hand = hand) with
  | some handling =>
    if handling.phase.finished then
      { x with desk := x.desk.step hand, handlings := x.handlings.filter (·.hand ≠ hand) }
    else
      let (phase, endpoint) := handling.phase.step x.routes handling.message x.endpoint
      { x with
        endpoint
        handlings := x.handlings.map fun h => if h.hand = hand then { h with phase } else h }
  | none =>
    match x.desk.held hand with
    | [] => { x with desk := x.desk.step hand }
    | message :: _ => { x with handlings := x.handlings ++ [{ hand, message }] }

/-- Reader and writer are at work while the connection is open and has a transport, and the reader only
when it is done with the message before. -/
def act (x : Station α) : StationAction → Station α
  | .attach => x.attach
  | .write => if x.endpoint.connection.isConnected then x.write else x
  | .read => if x.endpoint.connection.isConnected && x.desk.ready then x.read else x
  | .work hand => x.work hand

end Station
end GraphRpc
