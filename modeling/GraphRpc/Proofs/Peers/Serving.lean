import Mathlib
import GraphRpc.Proofs.Peers.Origins
import GraphRpc.Proofs.Replies

/-!
# Serving a request

Serving takes its steps between those of others: the handlers run, then their answer is encoded, or
else an error with the text of what went wrong. All steps in a row serve the request as a whole. If
the handlers go by the message alone, what is sent does too.
-/

namespace GraphRpc

variable {α : Type}

/-- The next step of serving a request, if there is one. -/
inductive ServePhase (α : Type) where
  | invoking
  | responding (answer : Option (Payload α))
  | refusing (failure : Failure)
  | done

/-- What follows on the outcome of the handlers. -/
def ServePhase.after : Except Failure (Option (Payload α)) → ServePhase α
  | .ok answer => responding answer
  | .error failure => refusing failure

structure Service (α : Type) where
  request : Message α
  phase : ServePhase α := .invoking

/-- A step of serving, with the frame that is to be sent then, if there is one. -/
def Service.step (x : Service α) (routes : Routes α) (e : Endpoint α) :
    ServePhase α × Endpoint α × Option ByteArray :=
  match x.phase with
  | .invoking =>
    let (outcome, e) := (routes.invokeHandlers x.request).exec e
    (.after outcome, e.tally outcome, none)
  | .responding answer =>
    if e.connection.closed then (.done, e, none)
    else
      match (x.request.responseTo (answer.getD .empty)).encode e.connection.codec with
      | .ok bytes => (.done, e, some bytes)
      | .error failure => (.refusing failure, e, none)
  | .refusing failure =>
    if e.connection.closed then (.done, e, none)
    else
      match (x.request.errorTo failure.message).encode e.connection.codec with
      | .ok bytes => (.done, e, some bytes)
      | .error _ => (.done, e, none)
  | .done => (.done, e, none)

-- ---------------------------------------------------------------------------
-- Serving as a whole
-- ---------------------------------------------------------------------------

def Service.advance (routes : Routes α) (s : Service α × Endpoint α) : Service α × Endpoint α :=
  let (phase, e, bytes) := s.1.step routes s.2
  ({ s.1 with phase }, bytes.elim e fun bytes => ((Endpoint.pushFrame none bytes).exec e).2)

namespace Service

variable {routes : Routes α} {m : Message α} {e : Endpoint α}

theorem advance_done : advance routes (⟨m, .done⟩, e) = (⟨m, .done⟩, e) := rfl

theorem advance_refusing (failure : Failure) : advance routes (⟨m, .refusing failure⟩, e) =
    (⟨m, .done⟩, Endpoint.sending (m.errorTo failure.message) e) := by
  simp only [advance, step, Endpoint.sending]
  cases e.connection.closed with
  | true => rfl
  | false => cases (m.errorTo failure.message).encode e.connection.codec <;> rfl

theorem advance_responding (answer : Option (Payload α)) :
    advance routes (advance routes (⟨m, .responding answer⟩, e)) =
      (⟨m, .done⟩, Endpoint.sending (m.reply e.connection.codec (.ok answer)) e) := by
  cases hclosed : e.connection.closed with
  | true =>
    have hfirst : advance routes (⟨m, .responding answer⟩, e) = (⟨m, .done⟩, e) := by
      simp only [advance, step, hclosed, if_true]
      rfl
    rw [hfirst, advance_done, Endpoint.sending, if_pos hclosed]
  | false =>
    cases hencode : (m.responseTo (answer.getD .empty)).encode e.connection.codec with
    | ok bytes =>
      have hfirst : advance routes (⟨m, .responding answer⟩, e) =
          (⟨m, .done⟩, ((Endpoint.pushFrame none bytes).exec e).2) := by
        simp only [advance, step, hclosed, Bool.false_eq_true, if_false, hencode]
        rfl
      rw [hfirst, advance_done, Endpoint.sending, if_neg (by simp [hclosed]),
        Message.reply_of_encode hencode, hencode]
    | error failure =>
      have hfirst : advance routes (⟨m, .responding answer⟩, e) = (⟨m, .refusing failure⟩, e) := by
        simp only [advance, step, hclosed, Bool.false_eq_true, if_false, hencode]
        rfl
      rw [hfirst, advance_refusing, Message.reply_of_refusal (Message.refusal?_of_encode hencode)]

theorem advance_invoking : advance routes (advance routes (advance routes (⟨m, .invoking⟩, e))) =
    (⟨m, .done⟩, ((routes.serveRequest m).run e).2) := by
  rw [Routes.serveRequest_run]
  have hfirst : advance routes (⟨m, .invoking⟩, e) =
      let (outcome, e') := (routes.invokeHandlers m).exec e
      (⟨m, .after outcome⟩, e'.tally outcome) := rfl
  rw [hfirst]
  generalize (routes.invokeHandlers m).exec e = r
  obtain ⟨failure | answer, e'⟩ := r
  · exact (congrArg (advance routes) (advance_refusing failure)).trans advance_done
  · exact advance_responding answer

end Service

-- ---------------------------------------------------------------------------
-- Handlers that go by the message
-- ---------------------------------------------------------------------------

/-- Nothing happened to the connection, and nobody was told anything. -/
structure Endpoint.Aside (e e' : Endpoint α) : Prop where
  connection : e'.connection = e.connection
  outcomes : e'.trace.outcomes = e.trace.outcomes
  nextCallback : e'.trace.nextCallback = e.trace.nextCallback

theorem Endpoint.Aside.refl (e : Endpoint α) : Aside e e := ⟨rfl, rfl, rfl⟩

theorem Endpoint.Aside.trans {e e' e'' : Endpoint α} (h : Aside e e') (h' : Aside e' e'') : Aside e e'' :=
  ⟨h'.connection.trans h.connection, h'.outcomes.trans h.outcomes, h'.nextCallback.trans h.nextCallback⟩

theorem Endpoint.Aside.count (f : Counters → Counters) (e : Endpoint α) :
    Aside e ((Endpoint.count f).run e).2 := ⟨rfl, rfl, rfl⟩

theorem Endpoint.Aside.tally {β : Type} (outcome : Except Failure β) (e : Endpoint α) :
    Aside e (e.tally outcome) := by
  cases outcome with
  | ok b => exact .refl e
  | error failure => exact .count ..

/-- What the handler comes to depends on the message alone, and the connection is none of its business. -/
def Handler.Plain (handler : Handler α) : Prop :=
  ∀ m, ∃ out, ∀ e, ((handler m).exec e).1 = out ∧ Endpoint.Aside e ((handler m).exec e).2

namespace Routes

def Plain (routes : Routes α) : Prop := ∀ x ∈ routes.handlers, Handler.Plain x.2

/-- Whenever the handlers for the message run, they come to this outcome and do nothing else. -/
def Gives (routes : Routes α) (m : Message α) (outcome : Except Failure (Option (Payload α))) : Prop :=
  ∀ e, ((routes.invokeHandlers m).exec e).1 = outcome ∧
    Endpoint.Aside e ((routes.invokeHandlers m).exec e).2

theorem Plain.runAll {handlers : List (Handler α)} (h : ∀ handler ∈ handlers, Handler.Plain handler)
    (m : Message α) (answer : Option (Payload α)) : ∃ outcome, ∀ e,
      ((Routes.runAll m handlers answer).exec e).1 = outcome ∧
        Endpoint.Aside e ((Routes.runAll m handlers answer).exec e).2 := by
  induction handlers generalizing answer with
  | nil => exact ⟨.ok answer, fun e => ⟨rfl, .refl e⟩⟩
  | cons handler rest ih =>
    obtain ⟨hhandler, hrest⟩ := List.forall_mem_cons.1 h
    obtain ⟨out, hout⟩ := hhandler m
    simp only [Routes.runAll, LinkM.exec_bind]
    cases out with
    | error failure =>
      refine ⟨.error failure, fun e => ?_⟩
      obtain ⟨hfirst, haside⟩ := hout e
      generalize (handler m).exec e = r at hfirst haside ⊢
      obtain ⟨_, e'⟩ := r
      subst hfirst
      exact ⟨rfl, haside⟩
    | ok out =>
      -- The rest of the handlers find the same answer every time.
      obtain ⟨outcome, houtcome⟩ := ih hrest (answer <|> out)
      refine ⟨outcome, fun e => ?_⟩
      obtain ⟨hfirst, haside⟩ := hout e
      generalize (handler m).exec e = r at hfirst haside ⊢
      obtain ⟨_, e'⟩ := r
      subst hfirst
      exact ⟨(houtcome e').1, haside.trans (houtcome e').2⟩

theorem Plain.gives {routes : Routes α} (h : routes.Plain) (m : Message α) :
    ∃ outcome, routes.Gives m outcome := by
  unfold Gives Routes.invokeHandlers
  have hhandlers : ∀ handler ∈ routes.handlersFor m.method, Handler.Plain handler := by
    intro handler hmem
    obtain ⟨x, hx, rfl⟩ := List.mem_map.1 hmem
    exact h x (List.mem_filter.1 hx).1
  cases hfor : routes.handlersFor m.method with
  | nil => exact ⟨_, fun e => ⟨rfl, .refl e⟩⟩
  | cons handler rest => exact Plain.runAll (hfor ▸ hhandlers) m none

end Routes

namespace Service

variable {codec : Codec α} {routes : Routes α} {e : Endpoint α}

def Sound (codec : Codec α) (routes : Routes α) (x : Service α) : Prop :=
  match x.phase with
  | .invoking | .done => True
  | .responding answer => routes.Gives x.request (.ok answer)
  | .refusing failure => ∃ outcome, routes.Gives x.request outcome ∧
      x.request.refusal? codec outcome = some failure

theorem Sound.after {request : Message α} {outcome : Except Failure (Option (Payload α))}
    (h : routes.Gives request outcome) : Sound codec routes ⟨request, .after outcome⟩ := by
  cases outcome with
  | ok answer => exact h
  | error failure => exact ⟨_, h, rfl⟩

def Sends (codec : Codec α) (routes : Routes α) (x : Service α) (bytes : ByteArray) : Prop :=
  ∃ outcome, routes.Gives x.request outcome ∧ (x.request.reply codec outcome).encode codec = .ok bytes

/-- What a step does, if the handlers go by the message: it takes the serving on, leaves the connection
alone, and may have the reply sent. -/
theorem step_sound {x : Service α} (h : x.Sound codec routes) (hplain : routes.Plain)
    (hcodec : e.connection.codec = codec) :
    Sound codec routes { x with phase := (x.step routes e).1 } ∧
      Endpoint.Aside e (x.step routes e).2.1 ∧
      ∀ bytes ∈ (x.step routes e).2.2, x.Sends codec routes bytes := by
  subst hcodec
  obtain ⟨request, phase⟩ := x
  cases phase with
  | invoking =>
    obtain ⟨outcome, hgives⟩ := hplain.gives request
    obtain ⟨houtcome, haside⟩ := hgives e
    simp only [step]
    generalize (routes.invokeHandlers request).exec e = r at houtcome haside
    obtain ⟨_, e'⟩ := r
    subst houtcome
    exact ⟨.after hgives, haside.trans (.tally ..), nofun⟩
  | responding answer =>
    have hgives : routes.Gives request (.ok answer) := h
    simp only [step]
    split
    · exact ⟨trivial, .refl e, nofun⟩
    split
    · next bytes hencode =>
      refine ⟨trivial, .refl e, ?_⟩
      rintro _ ⟨⟩
      refine ⟨.ok answer, hgives, ?_⟩
      rw [Message.reply_of_encode hencode]
      exact hencode
    · next failure hencode =>
      exact ⟨⟨.ok answer, hgives, Message.refusal?_of_encode hencode⟩, .refl e, nofun⟩
  | refusing failure =>
    obtain ⟨outcome, hgives, hrefusal⟩ := h
    simp only [step]
    split
    · exact ⟨trivial, .refl e, nofun⟩
    split
    · next bytes hencode =>
      refine ⟨trivial, .refl e, ?_⟩
      rintro _ ⟨⟩
      refine ⟨outcome, hgives, ?_⟩
      rw [Message.reply_of_refusal hrefusal]
      exact hencode
    · exact ⟨trivial, .refl e, nofun⟩
  | done => exact ⟨trivial, .refl e, nofun⟩

end Service
end GraphRpc
