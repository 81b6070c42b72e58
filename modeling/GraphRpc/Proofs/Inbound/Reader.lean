import Mathlib
import GraphRpc.Proofs.Inbound.Stopping

/-!
# Readers

A reader hands over what a stream brings, however it arrives, while others go on using the connection.
At the first fault it stops: the fault is reported once, the connection is closed, every pending call
is told so, and nothing is handed over any more. At the end of a stream between two frames it closes
the connection without reporting anything.
-/

namespace GraphRpc

variable {α : Type}

namespace Intake

theorem fill_bytes (i : Intake) (pipe : Pipe) :
    (i.fill pipe).1.bytes ++ (i.fill pipe).2.bytes = i.bytes ++ pipe.bytes := by
  simp only [fill, Pipe.read, List.append_assoc, List.take_append_drop]

theorem fill_length {i : Intake} {pipe : Pipe} (hroom : 0 < i.room) (hmore : pipe.bytes ≠ []) :
    (i.fill pipe).1.bytes.length + 2 * (i.fill pipe).2.bytes.length <
      i.bytes.length + 2 * pipe.bytes.length := by
  have hpos := List.length_pos_iff.2 hmore
  simp only [fill, Pipe.read, List.length_append, List.length_take, List.length_drop]
  omega

end Intake

section
variable {handOver : Message α → StateM (Endpoint α) Unit} {e : Endpoint α}

/-- A frame is counted and its message handed over. -/
def Endpoint.handed (handOver : Message α → StateM (Endpoint α) Unit) (e : Endpoint α)
    (arrived : Nat × Message α) : Endpoint α :=
  ((handOver arrived.2).run { e with trace := e.trace.count (Counters.frameReceived arrived.1) }).2

namespace Endpoint

theorem receive_succ (hopen : e.connection.closed = false) (fuel : Nat) (intake : Intake)
    (pipe : Pipe) : (receive handOver (fuel + 1) intake pipe).run e =
      match Arrival.next e.connection.codec intake.bytes with
      | .message size message rest =>
        (receive handOver fuel (intake.leave rest) pipe).run (e.handed handOver (size, message))
      | .undecodable size why => ((none, pipe), ((Stop.undecodable size why).act.run e).2)
      | .unframed why => ((none, pipe), ((Stop.unframed why).act.run e).2)
      | .unfinished missing =>
        let intake := (intake.reserve missing).reserve 1
        if !pipe.bytes.isEmpty then
          (receive handOver fuel (intake.fill pipe).1 (intake.fill pipe).2).run e
        else if !pipe.closed then ((some intake, pipe), e)
        else ((none, pipe),
          ((if intake.bytes.isEmpty then Stop.ended else Stop.leftover).act.run e).2) := by
  have hclosed : isClosed.run e = (pure (false, e) : Id _) := by
    rw [isClosed_run, hopen]
    rfl
  have hget : (get : StateM (Endpoint α) (Endpoint α)).run e = (pure (e, e) : Id _) := rfl
  simp only [receive, StateT.run_bind, hclosed, hget, pure_bind, Bool.false_eq_true, if_false]
  cases Arrival.next e.connection.codec intake.bytes with
  | message size message rest => rfl
  | undecodable size why => rfl
  | unframed why => rfl
  | unfinished missing =>
    dsimp only
    split
    · rfl
    · split
      · rfl
      · split
        · rfl
        · rfl

/-- What a reader comes to that is let run until it has to wait or stops. -/
def Received (handOver : Message α → StateM (Endpoint α) Unit) (pipe : Pipe) (e : Endpoint α) :
    List (Nat × Message α) × Except Stop (List UInt8) → (Option Intake × Pipe) × Endpoint α → Prop
  | (arrived, .ok rest), (reading, e') =>
    (∃ intake, intake.bytes = rest ∧ reading = (some intake, { pipe with bytes := [] })) ∧
      e' = arrived.foldl (handed handOver) e
  | (arrived, .error stop), (reading, e') =>
    reading.1 = none ∧ e' = (stop.act.run (arrived.foldl (handed handOver) e)).2

theorem harmless_handed (hhand : ∀ message e, Harmless e ((handOver message).run e).2)
    (e : Endpoint α) (arrived : Nat × Message α) : Harmless e (e.handed handOver arrived) := by
  have hcount : Harmless e
      { e with trace := e.trace.count (Counters.frameReceived arrived.1) } := .aside e rfl
  exact hcount.trans (hhand ..)

theorem receive_run (hhand : ∀ message e, Harmless e ((handOver message).run e).2)
    (hopen : e.connection.closed = false) {fuel : Nat} {intake : Intake} {pipe : Pipe}
    (hfuel : intake.bytes.length + 2 * pipe.bytes.length < fuel) :
    Received handOver pipe e
      (readOut e.connection.codec (intake.bytes ++ pipe.bytes) pipe.closed)
      ((receive handOver fuel intake pipe).run e) := by
  induction fuel generalizing e intake pipe with
  | zero => exact (Nat.not_lt_zero _ hfuel).elim
  | succ fuel ih =>
    rw [receive_succ hopen]
    cases hnext : Arrival.next e.connection.codec intake.bytes with
    | message size message rest =>
      have hlength := length_lt_of_message hnext
      have hhanded := harmless_handed hhand e (size, message)
      have hleft : (intake.leave rest).bytes = rest := rfl
      have hrest := @ih (e.handed handOver (size, message)) (hhanded.closed_eq.trans hopen)
        (intake.leave rest) pipe (by rw [hleft]; omega)
      rw [hhanded.codec_eq, hleft] at hrest
      rw [readOut_message hnext]
      dsimp only
      generalize readOut e.connection.codec (rest ++ pipe.bytes) pipe.closed = found at hrest ⊢
      obtain ⟨arrived, stop | left⟩ := found <;> exact hrest
    | undecodable size why =>
      rw [readOut_undecodable hnext]
      exact ⟨rfl, rfl⟩
    | unframed why =>
      rw [readOut_unframed hnext]
      exact ⟨rfl, rfl⟩
    | unfinished missing =>
      have hbytes : ((intake.reserve missing).reserve 1).bytes = intake.bytes := by
        rw [Intake.bytes_reserve, Intake.bytes_reserve]
      -- The buffer has grown, so filling it takes at least a byte out of a pipe that has one.
      have hroom : 0 < ((intake.reserve missing).reserve 1).room := Intake.le_room_reserve ..
      dsimp only
      generalize (intake.reserve missing).reserve 1 = grown at hbytes hroom ⊢
      cases hpipe : pipe.bytes with
      | cons byte more =>
        have hmore : pipe.bytes ≠ [] := by simp [hpipe]
        have hfill := Intake.fill_length hroom hmore
        rw [hbytes] at hfill
        have hrest := @ih e hopen (grown.fill pipe).1 (grown.fill pipe).2 (by omega)
        rw [Intake.fill_bytes, hbytes] at hrest
        rw [← hpipe, if_pos (by simp [hpipe])]
        exact hrest
      | nil =>
        have hsame : pipe = { pipe with bytes := [] } := by rw [← hpipe]
        rw [List.append_nil, readOut_unfinished hnext]
        cases hclosed : pipe.closed with
        | false => exact ⟨⟨grown, hbytes, by rw [← hsame]⟩, rfl⟩
        | true =>
          refine ⟨rfl, ?_⟩
          rw [hbytes]
          rfl

theorem receiveAll_run (hhand : ∀ message e, Harmless e ((handOver message).run e).2)
    (hopen : e.connection.closed = false) (intake : Intake) (pipe : Pipe) :
    Received handOver pipe e
      (readOut e.connection.codec (intake.bytes ++ pipe.bytes) pipe.closed)
      ((receiveAll handOver intake pipe).run e) :=
  receive_run hhand hopen (Nat.lt_succ_self _)

end Endpoint

-- ---------------------------------------------------------------------------
-- A reader among others
-- ---------------------------------------------------------------------------

inductive Incident (α : Type) where
  | arrives (bytes : List UInt8) (ends : Bool)
  | meanwhile (others : Endpoint α → Endpoint α)

/-- A connection and what its reader has got and not handed over. Without it the reader is over. -/
structure Reader (α : Type) where
  endpoint : Endpoint α
  reading : Option Intake := some {}

namespace Reader

def on (handOver : Message α → StateM (Endpoint α) Unit) (r : Reader α) : Incident α → Reader α
  | .arrives bytes ends =>
    match r.reading with
    | none => r
    | some intake =>
      let ((reading, _), endpoint) :=
        (Endpoint.receiveAll handOver intake { bytes, closed := ends }).run r.endpoint
      { endpoint, reading }
  | .meanwhile others => { r with endpoint := others r.endpoint }

def run (handOver : Message α → StateM (Endpoint α) Unit) (r : Reader α)
    (incidents : List (Incident α)) : Reader α :=
  incidents.foldl (on handOver) r

def stream : List (Incident α) → List UInt8 × Bool
  | [] => ([], false)
  | .meanwhile _ :: incidents => stream incidents
  | .arrives bytes true :: _ => (bytes, true)
  | .arrives bytes false :: incidents => (bytes ++ (stream incidents).1, (stream incidents).2)

section
variable {codec : Codec α} {a bytes rest : List UInt8} {ends : Bool}
  {arrived : List (Nat × Message α)}

theorem readOut_arrives_error {stop : Stop}
    (h : readOut codec (a ++ bytes) ends = (arrived, .error stop)) (incidents : List (Incident α)) :
    readOut codec (a ++ (stream (.arrives bytes ends :: incidents)).1)
      (stream (.arrives bytes ends :: incidents)).2 = (arrived, .error stop) := by
  cases ends with
  | true => exact h
  | false =>
    simp only [stream]
    rw [← List.append_assoc, readOut_append, h]

theorem readOut_arrives_ok (h : readOut codec (a ++ bytes) ends = (arrived, .ok rest))
    (incidents : List (Incident α)) :
    readOut codec (a ++ (stream (.arrives bytes ends :: incidents)).1)
        (stream (.arrives bytes ends :: incidents)).2 =
      (arrived ++ (readOut codec (rest ++ (stream incidents).1) (stream incidents).2).1,
        (readOut codec (rest ++ (stream incidents).1) (stream incidents).2).2) := by
  cases ends with
  | true => exact (readOut_ended h).elim
  | false =>
    simp only [stream]
    rw [← List.append_assoc, readOut_append, h]

end

def others? : Incident α → Option (Endpoint α → Endpoint α)
  | .meanwhile others => some others
  | .arrives .. => none

/-- The connection is used once: by its reader, which hands over a message, or by others. -/
inductive Turn (α : Type) where
  | handed (arrived : Nat × Message α)
  | others (f : Endpoint α → Endpoint α)

namespace Turn

def take (handOver : Message α → StateM (Endpoint α) Unit) (e : Endpoint α) : Turn α → Endpoint α
  | handed arrived => e.handed handOver arrived
  | others f => f e

def handed? : Turn α → Option (Nat × Message α)
  | handed arrived => some arrived
  | others _ => none

def others? : Turn α → Option (Endpoint α → Endpoint α)
  | others f => some f
  | handed _ => none

end Turn

/-- Reading a stream, while others use the connection, comes to these turns, and after the reader has
stopped, to what others do. -/
structure Served (handOver : Message α → StateM (Endpoint α) Unit) (e : Endpoint α)
    (others : List (Endpoint α → Endpoint α))
    (brought : List (Nat × Message α) × Except Stop (List UInt8)) (r : Reader α)
    (turns : List (Turn α)) (after : List (Endpoint α → Endpoint α)) : Prop where
  /-- All that the stream brings is handed over, in its order, and nothing else is. -/
  handed_eq : turns.filterMap Turn.handed? = brought.1
  others_eq : turns.filterMap Turn.others? ++ after = others
  waits : ∀ rest, brought.2 = .ok rest →
    r.reading.map (·.bytes) = some rest ∧ after = [] ∧
      r.endpoint = turns.foldl (Turn.take handOver) e ∧ r.endpoint.connection.closed = false ∧
      r.endpoint.trace.faults = e.trace.faults
  stops : ∀ stop, brought.2 = .error stop → r.reading = none ∧
    Stopped stop.fault? (turns.foldl (Turn.take handOver) e)
      (stop.act.run (turns.foldl (Turn.take handOver) e)).2 ∧
    r.endpoint = after.foldl (fun e f => f e) (stop.act.run (turns.foldl (Turn.take handOver) e)).2 ∧
    r.endpoint.connection.closed ∧ r.endpoint.trace.faults = e.trace.faults ++ stop.fault?.toList

section
variable {others after : List (Endpoint α → Endpoint α)} {r : Reader α} {turns : List (Turn α)}
  {brought : List (Nat × Message α) × Except Stop (List UInt8)}

theorem Served.prepend (before : List (Turn α))
    (hsame : (before.foldl (Turn.take handOver) e).trace.faults = e.trace.faults)
    (h : Served handOver (before.foldl (Turn.take handOver) e) others brought r turns after) :
    Served handOver e (before.filterMap Turn.others? ++ others)
      (before.filterMap Turn.handed? ++ brought.1, brought.2) r (before ++ turns) after where
  handed_eq := by rw [List.filterMap_append, h.handed_eq]
  others_eq := by rw [List.filterMap_append, List.append_assoc, h.others_eq]
  waits rest hrest := by
    obtain ⟨hreading, hafter, hend, hopen, hfaults⟩ := h.waits rest hrest
    rw [← List.foldl_append] at hend
    exact ⟨hreading, hafter, hend, hopen, hfaults.trans hsame⟩
  stops stop hstop := by
    obtain ⟨hreading, hstopped, hend, hclosed, hfaults⟩ := h.stops stop hstop
    rw [List.foldl_append]
    exact ⟨hreading, hstopped, hend, hclosed, hfaults.trans (congrArg (· ++ _) hsame)⟩

theorem Served.arrive (arrived : List (Nat × Message α))
    (hsame : (arrived.foldl (Endpoint.handed handOver) e).trace.faults = e.trace.faults)
    (h : Served handOver (arrived.foldl (Endpoint.handed handOver) e) others brought r turns after) :
    Served handOver e others (arrived ++ brought.1, brought.2) r (arrived.map .handed ++ turns)
      after := by
  have hturns : (arrived.map Turn.handed).foldl (Turn.take handOver) e =
      arrived.foldl (Endpoint.handed handOver) e := List.foldl_map
  have hothers : (arrived.map Turn.handed).filterMap Turn.others? = [] := by
    simp [List.filterMap_map, Function.comp_def, Turn.others?]
  have hhanded : (arrived.map Turn.handed).filterMap Turn.handed? = arrived := by
    simp [List.filterMap_map, Function.comp_def, Turn.handed?]
  rw [← hturns] at hsame h
  have hserved := h.prepend _ hsame
  rw [hothers, hhanded] at hserved
  exact hserved

end

theorem run_none (handOver : Message α → StateM (Endpoint α) Unit) (e : Endpoint α)
    (incidents : List (Incident α)) : run handOver ⟨e, none⟩ incidents =
      ⟨(incidents.filterMap others?).foldl (fun e f => f e) e, none⟩ := by
  induction incidents generalizing e with
  | nil => rfl
  | cons incident incidents ih =>
    cases incident with
    | arrives bytes ends => exact ih e
    | meanwhile f => exact ih (f e)

/-- A reader that stops, stops for good. -/
theorem served_of_stop (hopen : e.connection.closed = false) (hd : e.connection.calls.Distinct)
    {incidents : List (Incident α)}
    (hothers : ∀ f ∈ incidents.filterMap others?, ∀ e, Harmless e (f e)) (stop : Stop) :
    Served handOver e (incidents.filterMap others?) ([], .error stop)
      (run handOver ⟨(stop.act.run e).2, none⟩ incidents) [] (incidents.filterMap others?) where
  handed_eq := rfl
  others_eq := rfl
  waits _ := nofun
  stops stop' hstop := by
    cases hstop
    have hstopped := stop.stopped hopen hd
    have hafter := Harmless.foldl hothers (stop.act.run e).2
    rw [run_none]
    exact ⟨rfl, hstopped, rfl, hafter.closed_eq.trans hstopped.closed,
      hafter.faults_eq.trans hstopped.faults_eq⟩

theorem served_of_rest (hhand : ∀ message e, Harmless e ((handOver message).run e).2)
    (hopen : e.connection.closed = false) (hd : e.connection.calls.Distinct) {intake : Intake}
    (hrest : readOut e.connection.codec intake.bytes false = ([], .ok intake.bytes))
    {incidents : List (Incident α)}
    (hothers : ∀ f ∈ incidents.filterMap others?, ∀ e, Harmless e (f e)) :
    ∃ turns after, Served handOver e (incidents.filterMap others?)
      (readOut e.connection.codec (intake.bytes ++ (stream incidents).1) (stream incidents).2)
      (run handOver ⟨e, some intake⟩ incidents) turns after := by
  -- What was received is short of a frame, so nothing is handed over before more arrives.
  induction incidents generalizing e intake with
  | nil =>
    refine ⟨[], [], ?_⟩
    simp only [stream, List.append_nil, hrest]
    constructor
    case handed_eq => rfl
    case others_eq => rfl
    case waits =>
      rintro rest ⟨⟩
      exact ⟨rfl, rfl, rfl, hopen, rfl⟩
    case stops => exact fun _ => nofun
  | cons incident incidents ih =>
    cases incident with
    | meanwhile f =>
      have hf : Harmless e (f e) := hothers f (List.mem_cons_self ..) e
      have hrest' : readOut (f e).connection.codec intake.bytes false = ([], .ok intake.bytes) := by
        rw [hf.codec_eq, hrest]
      obtain ⟨turns, after, h⟩ := ih (hf.closed_eq.trans hopen) (hf.distinct hd) hrest'
        fun g hg => hothers g (List.mem_cons_of_mem _ hg)
      rw [hf.codec_eq] at h
      exact ⟨_, after, h.prepend [.others f] hf.faults_eq⟩
    | arrives bytes ends =>
      have hothers : ∀ f ∈ incidents.filterMap others?, ∀ e, Harmless e (f e) := hothers
      have hreceived := Endpoint.receiveAll_run hhand hopen intake { bytes, closed := ends }
      have hrun : run handOver ⟨e, some intake⟩ (.arrives bytes ends :: incidents) =
          let received := (Endpoint.receiveAll handOver intake { bytes, closed := ends }).run e
          run handOver ⟨received.2, received.1.1⟩ incidents := rfl
      rw [hrun]
      generalize (Endpoint.receiveAll handOver intake { bytes, closed := ends }).run e = received
        at hreceived ⊢
      obtain ⟨⟨reading, pipe⟩, e'⟩ := received
      cases hfound : readOut e.connection.codec (intake.bytes ++ bytes) ends with
      | mk arrived ending =>
        have harrived : Harmless e (arrived.foldl (Endpoint.handed handOver) e) :=
          .foldl (fun a _ e => Endpoint.harmless_handed hhand e a) e
        have hstill := harrived.closed_eq.trans hopen
        have hdistinct := harrived.distinct hd
        rw [hfound] at hreceived
        cases ending with
        | error stop =>
          obtain ⟨rfl, rfl⟩ := hreceived
          have hserved := Served.arrive arrived harrived.faults_eq
            (served_of_stop hstill hdistinct hothers stop)
          rw [List.append_nil] at hserved
          rw [readOut_arrives_error hfound]
          exact ⟨_, _, hserved⟩
        | ok rest =>
          obtain ⟨⟨left, rfl, hreading⟩, rfl⟩ := hreceived
          cases hreading
          have hleft := readOut_rest hfound
          rw [← harrived.codec_eq] at hleft
          obtain ⟨turns, after, h⟩ := ih hstill hdistinct hleft hothers
          rw [harrived.codec_eq] at h
          rw [readOut_arrives_ok hfound]
          exact ⟨_, after, h.arrive arrived harrived.faults_eq⟩

/-- However the bytes of a stream arrive and whatever others do meanwhile, as long as they do no harm,
the reader hands over what the stream brings and stops where it has a fault or is at its end. -/
theorem run_served (hhand : ∀ message e, Harmless e ((handOver message).run e).2)
    (hopen : e.connection.closed = false) (hd : e.connection.calls.Distinct)
    {incidents : List (Incident α)}
    (hothers : ∀ f ∈ incidents.filterMap others?, ∀ e, Harmless e (f e)) :
    ∃ turns after, Served handOver e (incidents.filterMap others?)
      (readOut e.connection.codec (stream incidents).1 (stream incidents).2)
      (run handOver ⟨e, some {}⟩ incidents) turns after := by
  have hrest : readOut e.connection.codec ({} : Intake).bytes false = ([], .ok []) :=
    readOut_nil e.connection.codec
  exact served_of_rest hhand hopen hd hrest hothers

def note : List UInt8 :=
  [0, 0, 0, 19, 1, 2, 0, 0, 0, 0, 0, 0, 0, 7, 0, 0, 0, 1, 112, 0, 0, 0, 0]

/-- A message, a frame in two pieces that carries none, and a message that comes too late. An answer
to the first call is found meanwhile. -/
def garbled : List (Incident Empty) :=
  [.arrives (note ++ [0, 0, 0]) false,
    .meanwhile fun e =>
      ((Endpoint.completeCall ((Message.request 1 "p" .empty).responseTo .empty)).run e).2,
    .arrives ([1, 9] ++ note) false]

def waiting : Endpoint Empty where
  connection :=
    { codec := ⟨{}, .generic⟩
      calls := { pending := [⟨1, ⟨0, true⟩, none, none⟩, ⟨2, ⟨1, true⟩, none, none⟩] } }
  trace := {}

def session : Session Empty := { fresh := waiting.connection }

theorem run_served_garbled :
    readOut waiting.connection.codec (stream garbled).1 (stream garbled).2 =
        ([(19, .oneWay 7 "p" .empty)], .error (.undecodable 1 (.unsupportedVersion 9))) ∧
      ∃ turns after, Served session.deliver waiting (garbled.filterMap others?)
        (readOut waiting.connection.codec (stream garbled).1 (stream garbled).2)
        (run session.deliver ⟨waiting, some {}⟩ garbled) turns after := by
  have hroutes : session.routes.Harmless := fun _ hx => nomatch hx
  have hdistinct : waiting.connection.calls.Distinct := by
    rw [Calls.Distinct]
    decide
  refine ⟨by cbv, run_served (Session.harmless_deliver hroutes) rfl hdistinct fun f hf e => ?_⟩
  rw [List.mem_singleton.1 hf]
  exact Endpoint.harmless_completeCall ..

example : (run session.deliver ⟨waiting, some {}⟩ garbled).endpoint.trace.faults =
    [.unsupportedVersion 9] := by cbv

example : (run session.deliver ⟨waiting, some {}⟩ garbled).endpoint.trace.outcomes =
    [(⟨0, true⟩, .ok .empty), (⟨1, true⟩, .error .closed)] := by cbv

end Reader
end

end GraphRpc
