import Mathlib
import GraphRpc.Proofs.Link.Passage
import GraphRpc.Proofs.Outbound.Eviction

/-!
# What a dispatch runs and sends

A message runs the handlers that were registered under its method name, one after another, up to the
first that fails. A request is then answered with one frame at most, which is no request itself, and
nothing else is ever answered. An answer runs no handler and concerns at most the call that waits for it.
-/

namespace GraphRpc

open Wire Binary

variable {α : Type}

-- ---------------------------------------------------------------------------
-- Frames that are sent
-- ---------------------------------------------------------------------------

def Effect.queues : Effect α → Bool
  | frameQueued => true
  | _ => false

def Trace.queued (t : Trace α) : Nat := t.effects.countP Effect.queues

theorem Trace.queued_emit (t : Trace α) (effect : Effect α) :
    (t.emit effect).queued = t.queued + if effect.queues then 1 else 0 := by
  simp [queued, emit, List.countP_append, List.countP_singleton]

namespace Endpoint

variable {e e' e'' : Endpoint α} {bytes : ByteArray}

/-- From `e` to `e'` nothing was sent. Frames may have left the outbound buffer. -/
structure Silent (e e' : Endpoint α) : Prop where
  codec_eq : e'.connection.codec = e.connection.codec
  queued_eq : e'.trace.queued = e.trace.queued
  frames_sublist : e'.connection.outbound.frames.Sublist e.connection.outbound.frames

/-- From `e` to `e'` one frame was sent and nothing else. Frames before it may have left the buffer. -/
structure SendsOnly (bytes : ByteArray) (e e' : Endpoint α) : Prop where
  codec_eq : e'.connection.codec = e.connection.codec
  queued_eq : e'.trace.queued = e.trace.queued + 1
  frames_eq : ∃ left, left.Sublist e.connection.outbound.frames ∧
    e'.connection.outbound.frames = left ++ [⟨none, bytes⟩]

theorem Silent.refl (e : Endpoint α) : Silent e e := ⟨rfl, rfl, .refl _⟩

theorem Silent.trans (h : Silent e e') (h' : Silent e' e'') : Silent e e'' where
  codec_eq := h'.codec_eq.trans h.codec_eq
  queued_eq := h'.queued_eq.trans h.queued_eq
  frames_sublist := h'.frames_sublist.trans h.frames_sublist

theorem Silent.sendsOnly (h : Silent e e') (h' : SendsOnly bytes e' e'') : SendsOnly bytes e e'' where
  codec_eq := h'.codec_eq.trans h.codec_eq
  queued_eq := by rw [h'.queued_eq, h.queued_eq]
  frames_eq := by
    obtain ⟨left, hleft, hframes⟩ := h'.frames_eq
    exact ⟨left, hleft.trans h.frames_sublist, hframes⟩

theorem Silent.of_undisturbed (h : Undisturbed e e') (hqueued : e'.trace.queued = e.trace.queued) :
    Silent e e' :=
  ⟨h.codec, hqueued, h.outbound ▸ .refl _⟩

theorem silent_count (f : Counters → Counters) (e : Endpoint α) : Silent e ((count f).run e).2 :=
  ⟨rfl, rfl, .refl _⟩

theorem silent_tally {β : Type} (outcome : Except Failure β) (e : Endpoint α) :
    Silent e (e.tally outcome) := by
  cases outcome with
  | ok b => exact .refl e
  | error failure => exact silent_count ..

theorem SendsOnly.undisturbed (h : SendsOnly bytes e e') (h' : Undisturbed e' e'')
    (hqueued : e''.trace.queued = e'.trace.queued) : SendsOnly bytes e e'' where
  codec_eq := h'.codec.trans h.codec_eq
  queued_eq := hqueued.trans h.queued_eq
  frames_eq := h'.outbound ▸ h.frames_eq

end Endpoint

theorem Deciding.undisturbed_finish (d : Deciding α) (e : Endpoint α) :
    e.Undisturbed (d.finish e) ∧ (d.finish e).trace.queued = e.trace.queued := by
  have htold (callback : Callback) (outcome : Except Failure (Payload α)) :
      (e.trace.finish callback outcome).queued = e.trace.queued := by
    rw [Trace.finish, Trace.queued_emit]
    rfl
  cases d with
  | taking id outcome =>
    rw [finish_taking]
    cases e.connection.calls.take? id with
    | none => exact ⟨.refl e, rfl⟩
    | some taken => exact ⟨⟨rfl, rfl, rfl⟩, htold ..⟩
  | telling call outcome => exact ⟨⟨rfl, rfl, rfl⟩, htold ..⟩
  | done => exact ⟨.refl e, rfl⟩

namespace Endpoint

variable {e : Endpoint α}

/-- A message that the endpoint cannot send: it is closed, the message has no encoding, or there is no
room for it and its policy is to refuse it then. -/
def CannotSend (m : Message α) (e : Endpoint α) : Prop :=
  e.connection.closed ∨ (∃ failure, m.encode e.connection.codec = .error failure) ∨
    (e.connection.outbound.policy = .rejectNew ∧ e.connection.outbound.isFull)

theorem pushFrame_cases (bytes : ByteArray) (e : Endpoint α) :
    SendsOnly bytes e ((pushFrame none bytes).exec e).2 ∨
      (((pushFrame none bytes).exec e).2 = e ∧ e.connection.outbound.policy = .rejectNew ∧
        e.connection.outbound.isFull) := by
  rw [exec_pushFrame, push]
  cases hpush : e.connection.outbound.push ⟨none, bytes⟩ with
  | error fault =>
    refine .inr ⟨rfl, ?_⟩
    by_contra hroom
    rw [Outbound.push, if_neg hroom] at hpush
    split at hpush <;> cases hpush
  | ok pushed =>
    obtain ⟨evicted, outbound⟩ := pushed
    obtain ⟨hundisturbed, hqueued⟩ := (Deciding.ofEvicted evicted).undisturbed_finish
      ⟨{ e.connection with outbound }, e.trace.emit .frameQueued⟩
    have hpushed : SendsOnly bytes e ⟨{ e.connection with outbound }, e.trace.emit .frameQueued⟩ := by
      refine ⟨rfl, Trace.queued_emit .., ?_⟩
      rcases Outbound.push_cases hpush with ⟨-, -, -, rfl⟩ | ⟨-, -, rfl⟩
      · exact ⟨_, List.tail_sublist _, rfl⟩
      · exact ⟨_, .refl _, rfl⟩
    exact .inl (hpushed.undisturbed hundisturbed hqueued)

/-- A message is sent as one frame, unless it cannot be sent. -/
theorem sending_cases (m : Message α) (e : Endpoint α) :
    (∃ bytes, m.encode e.connection.codec = .ok bytes ∧ SendsOnly bytes e (sending m e)) ∨
      (sending m e = e ∧ CannotSend m e) := by
  unfold sending
  cases hclosed : e.connection.closed with
  | true => exact .inr ⟨rfl, .inl hclosed⟩
  | false =>
    simp only [Bool.false_eq_true, if_false]
    cases hencode : m.encode e.connection.codec with
    | error failure => exact .inr ⟨rfl, .inr (.inl ⟨failure, hencode⟩)⟩
    | ok bytes =>
      obtain hsent | ⟨hsame, hrefused⟩ := pushFrame_cases bytes e
      · exact .inl ⟨bytes, rfl, hsent⟩
      · exact .inr ⟨hsame, .inr (.inr hrefused)⟩

theorem effects_sending {m : Message α} {bytes : ByteArray} (hopen : e.connection.closed = false)
    (hpolicy : e.connection.outbound.policy = .unbounded)
    (hencode : m.encode e.connection.codec = .ok bytes) :
    (sending m e).trace.effects = e.trace.effects ++ [.frameQueued] := by
  rw [sending, if_neg (by simp [hopen]), hencode]
  dsimp only
  rw [exec_pushFrame, push, Outbound.push, hpolicy]
  rfl

end Endpoint

-- ---------------------------------------------------------------------------
-- Running handlers
-- ---------------------------------------------------------------------------

/-- Handlers run one after another, from `e` to the last endpoint: all of them, which gives what each
answers, or up to the first that fails, which gives its failure. -/
inductive Handler.Ran (m : Message α) :
    List (Handler α) → (e : Endpoint α) → Except Failure (List (Option (Payload α))) → Endpoint α → Prop
  | all {e} : Ran m [] e (.ok []) e
  | failed {handler rest e failure e'} (h : (handler m).exec e = (.error failure, e')) :
    Ran m (handler :: rest) e (.error failure) e'
  | answered {handler rest e answer e' result e''} (h : (handler m).exec e = (.ok answer, e'))
    (hrest : Ran m rest e' result e'') :
    Ran m (handler :: rest) e (result.map (answer :: ·)) e''

theorem Handler.Ran.unique {m : Message α} {handlers : List (Handler α)} {e e' e'' : Endpoint α}
    {result result' : Except Failure (List (Option (Payload α)))} (h : Ran m handlers e result e')
    (h' : Ran m handlers e result' e'') : result' = result ∧ e'' = e' := by
  induction h generalizing result' e'' with
  | all =>
    cases h'
    exact ⟨rfl, rfl⟩
  | failed h =>
    cases h' with
    | failed h' =>
      cases h.symm.trans h'
      exact ⟨rfl, rfl⟩
    | answered h' => cases h.symm.trans h'
  | answered h _ ih =>
    cases h' with
    | failed h' => cases h.symm.trans h'
    | answered h' hrest =>
      cases h.symm.trans h'
      obtain ⟨rfl, rfl⟩ := ih hrest
      exact ⟨rfl, rfl⟩

theorem Handler.Ran.silent {m : Message α} {handlers : List (Handler α)} {e e' : Endpoint α}
    {result : Except Failure (List (Option (Payload α)))} (h : Ran m handlers e result e')
    (hsilent : ∀ handler ∈ handlers, ∀ e, Endpoint.Silent e ((handler m).exec e).2) :
    e.Silent e' := by
  induction h with
  | all => exact .refl _
  | @failed handler rest e failure e' h =>
    have hfirst := hsilent handler (List.mem_cons_self ..) e
    rwa [h] at hfirst
  | @answered handler rest e answer e' result e'' h hran ih =>
    have hfirst := hsilent handler (List.mem_cons_self ..) e
    rw [h] at hfirst
    exact hfirst.trans (ih fun handler hmem => hsilent handler (List.mem_cons_of_mem _ hmem))

namespace Routes

open Handler Endpoint

variable {m : Message α} {e e' : Endpoint α} {handlers : List (Handler α)}

theorem runAll_ran (m : Message α) (handlers : List (Handler α)) (answer : Option (Payload α))
    (e : Endpoint α) : ∃ result, Ran m handlers e result ((runAll m handlers answer).exec e).2 ∧
      ((runAll m handlers answer).exec e).1 =
        result.map fun answers => (answer :: answers).findSome? id := by
  induction handlers generalizing answer e with
  | nil =>
    refine ⟨_, .all, ?_⟩
    cases answer <;> rfl
  | cons handler rest ih =>
    rw [runAll, LinkM.exec_bind]
    cases hexec : (handler m).exec e with
    | mk out e' =>
      cases out with
      | error failure => exact ⟨_, .failed hexec, rfl⟩
      | ok out =>
        obtain ⟨result, hran, hresult⟩ := ih (answer <|> out) e'
        refine ⟨_, .answered hexec hran, ?_⟩
        dsimp only
        rw [hresult]
        cases result <;> cases answer <;> rfl

/-- What handlers come to that a message is for: without a handler a failure, and otherwise the first
answer unless one of them fails. -/
def outcomeOf (m : Message α) (handlers : List (Handler α))
    (result : Except Failure (List (Option (Payload α)))) : Except Failure (Option (Payload α)) :=
  if handlers.isEmpty then .error (.noHandler m.method)
  else result.map fun answers => answers.findSome? id

theorem invokeHandlers_ran (routes : Routes α) (m : Message α) (e : Endpoint α) :
    ∃ result, Ran m (routes.handlersFor m.method) e result ((routes.invokeHandlers m).exec e).2 ∧
      ((routes.invokeHandlers m).exec e).1 = outcomeOf m (routes.handlersFor m.method) result := by
  unfold invokeHandlers outcomeOf
  cases hfor : routes.handlersFor m.method with
  | nil => exact ⟨_, .all, rfl⟩
  | cons handler rest => exact runAll_ran m (handler :: rest) none e

def ofList (registrations : List (String × Handler α)) : Routes α :=
  registrations.foldl (fun routes r => routes.register r.1 r.2) {}

/-- The handlers that were registered under the very bytes of a name, in order. -/
def under (method : String) (registrations : List (String × Handler α)) : List (Handler α) :=
  (registrations.filter fun r => r.1.toUTF8 = method.toUTF8).map (·.2)

theorem handlersFor_ofList (registrations : List (String × Handler α)) (method : String) :
    (ofList registrations).handlersFor method = under method registrations := by
  have hhandlers (routes : Routes α) :
      (registrations.foldl (fun routes r => routes.register r.1 r.2) routes).handlers =
        routes.handlers ++ registrations := by
    induction registrations generalizing routes with
    | nil => exact (List.append_nil _).symm
    | cons r registrations ih =>
      rw [List.foldl_cons, ih, register, List.append_assoc]
      rfl
  have hbytes (name : String) : (name == method) = decide (name.toUTF8 = method.toUTF8) := by
    simp [String.toByteArray_inj, Bool.beq_eq_decide_eq]
  simp only [handlersFor, ofList, hhandlers, under, hbytes]
  rfl

-- ---------------------------------------------------------------------------
-- Dispatching
-- ---------------------------------------------------------------------------

/-- The endpoint when the dispatch of a message was counted. -/
def counted (e : Endpoint α) : Endpoint α := ((Endpoint.count Counters.dispatched).run e).2

/-- What is sent for a request whose handlers came to an outcome at `e'`, as one frame and unless it cannot
be sent. Whoever can read it reads no request. -/
def Answered (m : Message α) (outcome : Except Failure (Option (Payload α))) (e e' e'' : Endpoint α) : Prop :=
  (∃ bytes, (m.reply e.connection.codec outcome).encode e.connection.codec = .ok bytes ∧
    SendsOnly bytes e e'' ∧ ∀ (codec : Codec α) reply, Message.decode codec bytes.data.toList = .ok reply →
      reply.kind.isReply ∧ reply.callId = m.callId) ∨
  (Silent e e'' ∧ CannotSend (m.reply e.connection.codec outcome) e')

/-- From `e` to `e'` the dispatch was counted, and at most the call was decided that waits for this answer. It
left the table with its timer, and its callback was told. -/
structure Settled (m : Message α) (e e' : Endpoint α) : Prop where
  connection : e'.connection = { e.connection with
    calls := { e.connection.calls with
      pending := e.connection.calls.pending.filter (·.callId != m.callId)
      timers := e.connection.calls.timers.filter fun t =>
        some t.id != (e.connection.calls.find? m.callId).bind (·.timer) } }
  trace : e'.trace = match e.connection.calls.find? m.callId with
    | none => e.trace.count Counters.dispatched
    | some call => (e.trace.count Counters.dispatched).finish call.callback m.outcome

theorem settled_completeCall (m : Message α) (e : Endpoint α) :
    Settled m e ((Endpoint.completeCall m).run (counted e)).2 := by
  have hcalls : (counted e).connection = e.connection := rfl
  rw [completeCall_eq_finish, Deciding.finish_taking, Calls.take?_eq, hcalls]
  cases hfind : e.connection.calls.find? m.callId with
  | none =>
    -- Without a call nothing has its id, and no timer goes with it.
    have hpending := (Calls.find?_eq_none.1 hfind).filter_eq
    have htimers : e.connection.calls.timers.filter (fun t => some t.id != none) =
        e.connection.calls.timers := List.filter_eq_self.2 fun _ _ => rfl
    refine ⟨?_, by rw [hfind]; rfl⟩
    rw [hfind, Option.bind_none, hpending, htimers]
    rfl
  | some call => exact ⟨by rw [hfind]; rfl, by rw [hfind]; rfl⟩

theorem silent_completeCall (m : Message α) (e : Endpoint α) :
    Silent e ((Endpoint.completeCall m).run e).2 := by
  rw [completeCall_eq_finish]
  exact .of_undisturbed (Deciding.undisturbed_finish ..).1 (Deciding.undisturbed_finish ..).2

/-- What can be read of an encoded message, under whatever limits, has its kind and its call id. -/
theorem kind_of_decode {codec codec' : Codec α} {m m' : Message α} {bytes : ByteArray}
    (hencode : m.encode codec = .ok bytes) (hdecode : Message.decode codec' bytes.data.toList = .ok m') :
    m'.kind = m.kind ∧ m'.callId = m.callId := by
  obtain ⟨-, -, -, ts, order, -, -, rfl, -⟩ := encode_ok.1 hencode
  obtain ⟨-, -, -, ts', -, -, hinput, -⟩ := decode_ok.1 hdecode
  rw [List.data_toByteArray] at hinput
  simp only [Message.spellHeader, List.cons_append, List.append_assoc, List.cons.injEq] at hinput
  obtain ⟨-, hbyte, hrest⟩ := hinput
  have hid := (List.append_inj hrest (by simp only [length_bigEndian])).1
  exact ⟨(MessageKind.byte_injective hbyte).symm,
    (UInt64.toNat_inj.1 (bigEndian_inj m.callId.toNat_lt m'.callId.toNat_lt hid)).symm⟩

theorem answered_sending (hsilent : Silent e e') (outcome : Except Failure (Option (Payload α))) :
    Answered m outcome e e' (Endpoint.sending (m.reply e'.connection.codec outcome) (e'.tally outcome)) := by
  have hconnection := Endpoint.connection_tally outcome e'
  have hbefore : Silent e (e'.tally outcome) := hsilent.trans (silent_tally ..)
  rw [Answered, hsilent.codec_eq]
  obtain ⟨bytes, hencode, hsends⟩ | ⟨hsame, hcannot⟩ :=
    sending_cases (m.reply e.connection.codec outcome) (e'.tally outcome)
  · rw [hconnection, hsilent.codec_eq] at hencode
    obtain ⟨-, hreply, hid, -⟩ := Message.reply_for e.connection.codec m outcome
    refine .inl ⟨bytes, hencode, hbefore.sendsOnly hsends, fun codec reply hdecode => ?_⟩
    obtain ⟨hkind, hcallId⟩ := kind_of_decode hencode hdecode
    exact ⟨hkind ▸ hreply, hcallId.trans hid⟩
  · rw [CannotSend, hconnection] at hcannot
    exact .inr ⟨hsame.symm ▸ hbefore, hcannot⟩

theorem dispatch_run_oneWay (routes : Routes α) (hkind : m.kind = .oneWay) (e : Endpoint α) :
    ((routes.dispatch m).run e).2 =
      let (outcome, e') := (routes.invokeHandlers m).exec (counted e)
      e'.tally outcome := by
  have hbind {β γ : Type} (x : StateM (Endpoint α) β) (f : β → StateM (Endpoint α) γ) (e : Endpoint α) :
      (x >>= f).run e = (f (x.run e).1).run (x.run e).2 := rfl
  have hcount : (Endpoint.count Counters.dispatched).run e = ((), counted e) := rfl
  have hrun : (routes.invokeHandlers m).run.run (counted e) =
      (routes.invokeHandlers m).exec (counted e) := rfl
  simp only [dispatch, hbind, hkind, hcount, hrun]
  generalize (routes.invokeHandlers m).exec (counted e) = r
  obtain ⟨failure | answer, e'⟩ := r <;> rfl

theorem dispatch_run_reply (routes : Routes α) (hkind : m.kind.isReply) (e : Endpoint α) :
    ((routes.dispatch m).run e).2 = ((Endpoint.completeCall m).run (counted e)).2 := by
  cases hm : m.kind with
  | request | oneWay =>
    rw [hm] at hkind
    cases hkind
  | response | error =>
    simp only [dispatch, StateT.run_bind, hm]
    rfl

/-- For a request or a notification the handlers registered under its method name run, up to the first
that fails. A request is answered with what they come to, in one frame at most. Nothing else is ever
answered, and an answer settles the call that waits for it, whatever handlers there are. -/
theorem dispatch_runs_and_answers (registrations : List (String × Handler α)) (m : Message α)
    (e : Endpoint α)
    (hsilent : ∀ handler ∈ under m.method registrations, ∀ e, Silent e ((handler m).exec e).2) :
    let handlers := under m.method registrations
    let after := (((ofList registrations).dispatch m).run e).2
    (m.kind.isReply = false → ∃ result e', Ran m handlers (counted e) result e' ∧
      (m.kind = .request → Answered m (outcomeOf m handlers result) e e' after ∧
        after = Endpoint.sending (m.reply e.connection.codec (outcomeOf m handlers result))
          (e'.tally (outcomeOf m handlers result))) ∧
      (m.kind = .oneWay → after = e'.tally (outcomeOf m handlers result))) ∧
    (m.kind ≠ .request → Silent e after) ∧
    (m.kind.isReply → Settled m e after ∧ ∀ routes : Routes α, ((routes.dispatch m).run e).2 = after) := by
  intro handlers after
  obtain ⟨result, hran, houtcome⟩ := (ofList registrations).invokeHandlers_ran m (counted e)
  rw [handlersFor_ofList] at hran houtcome
  have hbefore := (silent_count Counters.dispatched e).trans (hran.silent hsilent)
  -- Handlers that send nothing leave the codec alone, so a reply is encoded as it would be at the start.
  have hrequest (hkind : m.kind = .request) :
      after = Endpoint.sending (m.reply e.connection.codec (outcomeOf m handlers result))
        ((((ofList registrations).invokeHandlers m).exec (counted e)).2.tally
          (outcomeOf m handlers result)) := by
    rw [← houtcome, ← hbefore.codec_eq]
    exact (dispatch_run_request (ofList registrations) hkind e).trans (serveRequest_run _ m (counted e))
  have honeWay (hkind : m.kind = .oneWay) :
      after = (((ofList registrations).invokeHandlers m).exec (counted e)).2.tally
        (outcomeOf m handlers result) := by
    rw [← houtcome]
    exact dispatch_run_oneWay _ hkind e
  have hreply (hkind : m.kind.isReply) : after = ((Endpoint.completeCall m).run (counted e)).2 :=
    dispatch_run_reply _ hkind e
  refine ⟨fun _ => ⟨result, _, hran, fun hkind => ⟨?_, hrequest hkind⟩, honeWay⟩, fun hkind => ?_,
    fun hkind => ⟨?_, ?_⟩⟩
  · have hanswered := answered_sending (m := m) hbefore (outcomeOf m handlers result)
    rw [hbefore.codec_eq] at hanswered
    rw [hrequest hkind]
    exact hanswered
  · cases hm : m.kind with
    | request => exact (hkind hm).elim
    | oneWay => exact honeWay hm ▸ hbefore.trans (silent_tally ..)
    | response | error =>
      rw [hreply (by rw [hm]; rfl)]
      exact (silent_count Counters.dispatched e).trans (silent_completeCall ..)
  · rw [hreply hkind]
    exact settled_completeCall m e
  · intro routes
    rw [hreply hkind]
    exact dispatch_run_reply routes hkind e

def marked (name : String) (handler : Handler Empty) : Handler Empty := fun m => do
  Endpoint.always (Endpoint.emit (.handled name m))
  handler m

/-- Three handlers under one name, three under another of which the second fails, and one under a name that
differs in case. -/
def chorus : List (String × Handler Empty) :=
  [("p", marked "alto" fun _ => pure none), ("P", marked "bass" fun _ => throw .closed),
    ("p", marked "tenor" fun m => pure (some m.payload)), ("q", marked "oboe" fun _ => pure (some .empty)),
    ("q", marked "horn" fun _ => throw (.custom "flat")),
    ("p", marked "canto" fun _ => pure (some .empty)), ("q", marked "drum" fun _ => pure none)]

def chorusCall (method : String) : Message Empty := .request 7 method (.ofValues [.null])

def score (method : String) : List (Effect Empty) :=
  (((ofList chorus).dispatch (chorusCall method)).run fresh).2.trace.effects

theorem silent_chorus (method : String) (m : Message Empty) :
    ∀ handler ∈ under method chorus, ∀ e, Silent e ((handler m).exec e).2 := by
  intro handler hmem e
  obtain ⟨r, hr, rfl⟩ := List.mem_map.1 hmem
  obtain ⟨hr, -⟩ := List.mem_filter.1 hr
  have hmark (name : String) : Silent e { e with trace := e.trace.emit (.handled name m) } :=
    ⟨rfl, Trace.queued_emit .., .refl _⟩
  simp only [chorus, List.mem_cons, List.not_mem_nil, or_false] at hr
  rcases hr with rfl | rfl | rfl | rfl | rfl | rfl | rfl <;> exact hmark _

theorem dispatch_runs_and_answers_chorus :
    (∀ method, ∀ handler ∈ under method chorus, ∀ e, Silent e ((handler (chorusCall method)).exec e).2) ∧
    (∃ e', Ran (chorusCall "p") (under "p" chorus) (counted fresh)
        (.ok [none, some (.ofValues [.null]), some .empty]) e' ∧
      (((ofList chorus).dispatch (chorusCall "p")).run fresh).2 =
        Endpoint.sending (Message.responseTo (chorusCall "p") (.ofValues [.null])) e') ∧
    score "p" = [.handled "alto" (chorusCall "p"), .handled "tenor" (chorusCall "p"),
      .handled "canto" (chorusCall "p"), .frameQueued] ∧
    (∃ e', Ran (chorusCall "q") (under "q" chorus) (counted fresh) (.error (.custom "flat")) e' ∧
      (((ofList chorus).dispatch (chorusCall "q")).run fresh).2 =
        Endpoint.sending (Message.errorTo (chorusCall "q") "Custom error: flat")
          (e'.tally (.error (.custom "flat") : Except Failure (Option (Payload Empty))))) ∧
    score "q" = [.handled "oboe" (chorusCall "q"), .handled "horn" (chorusCall "q"), .frameQueued] := by
  have hp : Ran (chorusCall "p") (under "p" chorus) (counted fresh)
      (.ok [none, some (.ofValues [.null]), some .empty]) _ :=
    .answered rfl (.answered rfl (.answered rfl .all))
  have hq : Ran (chorusCall "q") (under "q" chorus) (counted fresh) (.error (.custom "flat")) _ :=
    .answered rfl (.failed rfl)
  obtain ⟨result, e', hran, hafter, -⟩ :=
    (dispatch_runs_and_answers chorus (chorusCall "p") fresh (silent_chorus "p" _)).1 rfl
  obtain ⟨result', e'', hran', hafter', -⟩ :=
    (dispatch_runs_and_answers chorus (chorusCall "q") fresh (silent_chorus "q" _)).1 rfl
  obtain ⟨rfl, rfl⟩ := hp.unique hran
  obtain ⟨rfl, rfl⟩ := hq.unique hran'
  have hp' := (hafter rfl).2
  have hq' := (hafter' rfl).2
  have hresponse : ∃ bytes, (Message.responseTo (chorusCall "p") (.ofValues [.null])).encode
      (⟨{}, .generic⟩ : Codec Empty) = .ok bytes := ⟨_, by cbv⟩
  have herror : ∃ bytes, (Message.errorTo (chorusCall "q") "Custom error: flat").encode
      (⟨{}, .generic⟩ : Codec Empty) = .ok bytes :=
    (Message.errorTo_encodes rfl ⟨by decide, by decide⟩).2 ⟨by decide, ⟨by decide, by decide⟩, by decide⟩
  obtain ⟨bytes, hbytes⟩ := hresponse
  obtain ⟨bytes', hbytes'⟩ := herror
  refine ⟨fun method => silent_chorus method _, ⟨_, hp, hp'⟩, ?_, ⟨_, hq, hq'⟩, ?_⟩
  · rw [score, hp']
    exact effects_sending rfl rfl hbytes
  · rw [score, hq']
    exact effects_sending rfl rfl hbytes'

end Routes
end GraphRpc
