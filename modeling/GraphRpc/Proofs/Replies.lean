import Mathlib
import GraphRpc.Proofs.Calls.Whole
import GraphRpc.Proofs.Wire.Envelope
import GraphRpc.Routes

/-!
# Replies

A request is answered with one frame, which holds the answer of its handlers, or an error with the
text of what went wrong. Only that text can still be too long to be sent: then the request gets no
answer at all.
-/

namespace GraphRpc

open Wire Binary

variable {α : Type}

namespace Message

-- ---------------------------------------------------------------------------
-- What is sent back
-- ---------------------------------------------------------------------------

/-- Why a request gets an error: its handlers failed, or their answer cannot be encoded. -/
def refusal? (codec : Codec α) (request : Message α) :
    Except Failure (Option (Payload α)) → Option Failure
  | .error failure => some failure
  | .ok answer =>
    match (request.responseTo (answer.getD .empty)).encode codec with
    | .ok _ => none
    | .error failure => some failure

/-- What is sent back to a request whose handlers came to an outcome. -/
def reply (codec : Codec α) (request : Message α) (outcome : Except Failure (Option (Payload α))) :
    Message α :=
  match request.refusal? codec outcome with
  | some failure => request.errorTo failure.message
  | none => request.responseTo ((outcome.toOption.join).getD .empty)

variable {codec : Codec α} {request : Message α} {outcome : Except Failure (Option (Payload α))}
  {failure : Failure}

theorem reply_of_refusal (h : request.refusal? codec outcome = some failure) :
    request.reply codec outcome = request.errorTo failure.message := by
  rw [reply, h]

theorem reply_of_answer (h : request.refusal? codec outcome = none) : ∃ answer bytes,
    outcome = .ok answer ∧ request.reply codec outcome = request.responseTo (answer.getD .empty) ∧
      (request.reply codec outcome).encode codec = .ok bytes := by
  cases outcome with
  | error failure => cases h
  | ok answer =>
    have hreply : request.reply codec (.ok answer) = request.responseTo (answer.getD .empty) := by
      rw [reply, h]
      rfl
    rw [hreply]
    rw [refusal?] at h
    cases hencode : (request.responseTo (answer.getD .empty)).encode codec with
    | ok bytes => exact ⟨answer, bytes, rfl, rfl, rfl⟩
    | error failure =>
      rw [hencode] at h
      cases h

section
variable {answer : Option (Payload α)}

theorem reply_of_encode (h : (request.responseTo (answer.getD .empty)).encode codec = .ok bytes) :
    request.reply codec (.ok answer) = request.responseTo (answer.getD .empty) := by
  rw [reply, refusal?, h]
  rfl

theorem refusal?_of_encode
    (h : (request.responseTo (answer.getD .empty)).encode codec = .error failure) :
    request.refusal? codec (.ok answer) = some failure := by
  rw [refusal?, h]

end

theorem reply_for (codec : Codec α) (request : Message α)
    (outcome : Except Failure (Option (Payload α))) :
    (request.reply codec outcome).version = protocolVersion ∧
      (request.reply codec outcome).kind.isReply ∧
      (request.reply codec outcome).callId = request.callId ∧
      (request.reply codec outcome).method = request.method := by
  rw [reply]
  cases request.refusal? codec outcome <;> exact ⟨rfl, rfl, rfl, rfl⟩

end Message

structure Limits.HasRoomFor (limits : Limits) (method reason : String) : Prop where
  parameter : 1 ≤ limits.maxCollectionLen
  text : Within reason.utf8ByteSize limits.maxStringLen
  frame : 23 + method.utf8ByteSize + reason.utf8ByteSize ≤ limits.maxFrameSize

namespace Message

variable {codec : Codec α} {request : Message α} {reason : String}

theorem length_spell_errorTo (request : Message α) (reason : String) :
    ((request.errorTo reason).spellHeader ++ spellParams [.scalar (.str reason)]).toByteArray.size =
      23 + request.method.utf8ByteSize + reason.utf8ByteSize := by
  rw [List.size_toByteArray, List.length_append, length_spellHeader]
  simp only [errorTo, spellParams, List.length_append, length_bigEndian, List.flatMap_singleton,
    Tree.spell, Scalar.spell, Scalar.content, spellText, List.length_cons, length_toUTF8]
  omega

/-- An error to a message that has arrived can be encoded just when there is room for its text. -/
theorem errorTo_encodes (hname : request.method.isEmpty = false)
    (hmethod : Within request.method.utf8ByteSize codec.limits.maxStringLen) :
    (∃ bytes, (request.errorTo reason).encode codec = .ok bytes) ↔
      codec.limits.HasRoomFor request.method reason := by
  have hwithin : Within 1 codec.limits.maxCollectionLen ↔ 1 ≤ codec.limits.maxCollectionLen :=
    ⟨And.left, fun h => ⟨h, by decide⟩⟩
  simp only [encode_ok]
  constructor
  · rintro ⟨bytes, -, -, hsize, ts, order, hcount, hfits, rfl, hu⟩
    obtain ⟨rfl, -⟩ := (unfolds_scalar (s := .str reason)).1 hu
    rw [length_spell_errorTo] at hsize
    have htext := Tree.fits_scalar.1 (hfits _ (List.mem_singleton_self _))
    exact ⟨hwithin.1 hcount, htext, hsize⟩
  · rintro ⟨hparameter, htext, hframe⟩
    refine ⟨_, hname, hmethod.1, ?_, [.scalar (.str reason)], [], hwithin.2 hparameter, ?_, rfl,
      (unfolds_scalar (s := .str reason)).2 ⟨rfl, rfl⟩⟩
    · rw [length_spell_errorTo]
      exact hframe
    · intro t ht
      obtain rfl := List.mem_singleton.1 ht
      exact Tree.fits_scalar.2 htext

/-- A reply can be encoded unless it is an error for whose text there is no room. -/
theorem reply_encodes {outcome : Except Failure (Option (Payload α))}
    (hname : request.method.isEmpty = false)
    (hmethod : Within request.method.utf8ByteSize codec.limits.maxStringLen) :
    (∃ bytes, (request.reply codec outcome).encode codec = .ok bytes) ↔
      ∀ failure, request.refusal? codec outcome = some failure →
        codec.limits.HasRoomFor request.method failure.message := by
  cases hrefusal : request.refusal? codec outcome with
  | none =>
    obtain ⟨answer, bytes, -, -, hbytes⟩ := reply_of_answer hrefusal
    exact iff_of_true ⟨bytes, hbytes⟩ nofun
  | some failure =>
    rw [reply_of_refusal hrefusal, errorTo_encodes hname hmethod]
    simp

end Message

-- ---------------------------------------------------------------------------
-- Sending it
-- ---------------------------------------------------------------------------

namespace Endpoint

variable {e : Endpoint α}

def sending (m : Message α) (e : Endpoint α) : Endpoint α :=
  if e.connection.closed then e
  else
    match m.encode e.connection.codec with
    | .ok bytes => ((pushFrame none bytes).exec e).2
    | .error _ => e

theorem exec_ensureOpen (e : Endpoint α) : (ensureOpen : LinkM α Unit).exec e =
    if e.connection.closed then (.error .closed, e) else (.ok (), e) := by
  simp only [ensureOpen, LinkM.exec_bind, LinkM.exec_always, isClosed_run]
  cases e.connection.closed <;> rfl

theorem exec_respondError (request : Message α) (reason : String) (e : Endpoint α) :
    ((respondError request reason).exec e).2 = sending (request.errorTo reason) e := by
  simp only [respondError, LinkM.exec_bind, exec_ensureOpen, exec_encoded, sending]
  cases e.connection.closed with
  | true => rfl
  | false =>
    simp only [Bool.false_eq_true, if_false]
    cases (request.errorTo reason).encode e.connection.codec <;> rfl

theorem exec_respond (request : Message α) (answer : Option (Payload α)) (e : Endpoint α) :
    ((respond request (answer.getD .empty)).exec e).2 =
      sending (request.reply e.connection.codec (.ok answer)) e := by
  simp only [respond, LinkM.exec_bind, exec_ensureOpen]
  cases hclosed : e.connection.closed with
  | true => simp only [sending, hclosed, if_true]
  | false =>
    simp only [Bool.false_eq_true, if_false, LinkM.exec_get]
    cases hencode : (request.responseTo (answer.getD .empty)).encode e.connection.codec with
    | ok bytes =>
      simp only [sending, hclosed, Bool.false_eq_true, if_false, Message.reply_of_encode hencode, hencode]
    | error failure =>
      rw [Message.reply_of_refusal (Message.refusal?_of_encode hencode)]
      exact exec_respondError request failure.message e

theorem frames_sending (hopen : e.connection.closed = false)
    (hpolicy : e.connection.outbound.policy = .unbounded) (m : Message α) :
    (sending m e).connection.outbound.frames = e.connection.outbound.frames ++
      match m.encode e.connection.codec with
      | .ok bytes => [⟨none, bytes⟩]
      | .error _ => [] := by
  rw [sending, if_neg (by simp [hopen])]
  cases m.encode e.connection.codec with
  | error failure => exact (List.append_nil _).symm
  | ok bytes =>
    dsimp only
    rw [exec_pushFrame]
    simp only [push, Outbound.push, hpolicy, reduceCtorEq, false_and, if_false]
    rfl

def tally {β : Type} (outcome : Except Failure β) (e : Endpoint α) : Endpoint α :=
  match outcome with
  | .ok _ => e
  | .error _ => ((count Counters.dispatchFailed).run e).2

theorem connection_tally {β : Type} (outcome : Except Failure β) (e : Endpoint α) :
    (tally outcome e).connection = e.connection := by
  cases outcome <;> rfl

/-- Neither was anything sent nor the connection closed. -/
structure Undisturbed (e e' : Endpoint α) : Prop where
  codec : e'.connection.codec = e.connection.codec
  outbound : e'.connection.outbound = e.connection.outbound
  closed : e'.connection.closed = e.connection.closed

theorem Undisturbed.refl (e : Endpoint α) : Undisturbed e e := ⟨rfl, rfl, rfl⟩

theorem Undisturbed.trans {e e' e'' : Endpoint α} (h : Undisturbed e e') (h' : Undisturbed e' e'') :
    Undisturbed e e'' :=
  ⟨h'.codec.trans h.codec, h'.outbound.trans h.outbound, h'.closed.trans h.closed⟩

end Endpoint

namespace Routes

variable {routes : Routes α} {m : Message α} {e : Endpoint α}

theorem serveRequest_run (routes : Routes α) (m : Message α) (e : Endpoint α) :
    ((routes.serveRequest m).run e).2 =
      let (outcome, e') := (routes.invokeHandlers m).exec e
      Endpoint.sending (m.reply e'.connection.codec outcome) (e'.tally outcome) := by
  have hrun : (routes.invokeHandlers m).run.run e = (routes.invokeHandlers m).exec e := rfl
  simp only [serveRequest, StateT.run_bind, hrun]
  generalize (routes.invokeHandlers m).exec e = r
  obtain ⟨failure | answer, e'⟩ := r
  · exact Endpoint.exec_respondError m failure.message _
  · exact Endpoint.exec_respond m answer e'

theorem dispatch_run_request (routes : Routes α) (hkind : m.kind = .request) (e : Endpoint α) :
    ((routes.dispatch m).run e).2 =
      ((routes.serveRequest m).run ((Endpoint.count Counters.dispatched).run e).2).2 := by
  simp only [dispatch, StateT.run_bind, hkind]
  rfl

/-- The handlers for a message neither send on the connection nor close it. -/
def Quiet (routes : Routes α) (m : Message α) : Prop :=
  ∀ handler ∈ routes.handlersFor m.method, ∀ e, Endpoint.Undisturbed e ((handler m).exec e).2

theorem Quiet.runAll {handlers : List (Handler α)}
    (h : ∀ handler ∈ handlers, ∀ e, Endpoint.Undisturbed e ((handler m).exec e).2)
    (answer : Option (Payload α)) (e : Endpoint α) :
    Endpoint.Undisturbed e ((Routes.runAll m handlers answer).exec e).2 := by
  induction handlers generalizing answer e with
  | nil => exact .refl e
  | cons handler rest ih =>
    obtain ⟨hhandler, hrest⟩ := List.forall_mem_cons.1 h
    have hfirst := hhandler e
    rw [Routes.runAll, LinkM.exec_bind]
    generalize (handler m).exec e = r at hfirst ⊢
    obtain ⟨failure | out, e'⟩ := r
    · exact hfirst
    · exact hfirst.trans (ih hrest _ e')

theorem Quiet.invokeHandlers (h : routes.Quiet m) (e : Endpoint α) :
    Endpoint.Undisturbed e ((routes.invokeHandlers m).exec e).2 := by
  unfold Routes.invokeHandlers
  rw [Quiet] at h
  cases hhandlers : routes.handlersFor m.method with
  | nil => exact .refl e
  | cons handler rest => exact Quiet.runAll (hhandlers ▸ h) none e

end Routes

-- ---------------------------------------------------------------------------
-- Whether a request is answered
-- ---------------------------------------------------------------------------

/-- One frame was added, and it holds a reply to the request. -/
def Message.AnsweredBy (request : Message α) (e e' : Endpoint α) : Prop :=
  ∃ bytes reply, e'.connection.outbound.frames = e.connection.outbound.frames ++ [⟨none, bytes⟩] ∧
    Message.decode e.connection.codec bytes.data.toList = .ok reply ∧ reply.kind.isReply ∧
    reply.callId = request.callId ∧ reply.method = request.method

namespace Routes

variable {routes : Routes α} {m : Message α} {e : Endpoint α} {limits : Limits}

def outcomeAt (routes : Routes α) (m : Message α) (e : Endpoint α) : Except Failure (Option (Payload α)) :=
  ((routes.invokeHandlers m).exec ((Endpoint.count Counters.dispatched).run e).2).1

theorem frames_dispatch (hkind : m.kind = .request) (hopen : e.connection.closed = false)
    (hpolicy : e.connection.outbound.policy = .unbounded) (hquiet : routes.Quiet m) :
    ((routes.dispatch m).run e).2.connection.outbound.frames = e.connection.outbound.frames ++
      match (m.reply e.connection.codec (routes.outcomeAt m e)).encode e.connection.codec with
      | .ok bytes => [⟨none, bytes⟩]
      | .error _ => [] := by
  have hcounted : Endpoint.Undisturbed e ((Endpoint.count Counters.dispatched).run e).2 := ⟨rfl, rfl, rfl⟩
  have hsame := hcounted.trans (hquiet.invokeHandlers _)
  rw [dispatch_run_request routes hkind, serveRequest_run, outcomeAt]
  generalize (routes.invokeHandlers m).exec ((Endpoint.count Counters.dispatched).run e).2 = r at hsame ⊢
  obtain ⟨outcome, e'⟩ := r
  dsimp only at hsame ⊢
  have htally := Endpoint.connection_tally outcome e'
  rw [Endpoint.frames_sending (by rw [htally, hsame.closed, hopen])
    (by rw [htally, hsame.outbound, hpolicy]), htally, hsame.outbound, hsame.codec]

/-- Without room for the text of its error a request gets no answer. -/
theorem frames_dispatch_of_noRoom {codec : Codec α} {failure : Failure}
    (hcodec : e.connection.codec = codec) (hname : m.method.isEmpty = false)
    (hmethod : Within m.method.utf8ByteSize codec.limits.maxStringLen) (hkind : m.kind = .request)
    (hopen : e.connection.closed = false) (hpolicy : e.connection.outbound.policy = .unbounded)
    (hquiet : routes.Quiet m) (hrefusal : m.refusal? codec (routes.outcomeAt m e) = some failure)
    (hroom : ¬codec.limits.HasRoomFor m.method failure.message) :
    ((routes.dispatch m).run e).2.connection.outbound.frames = e.connection.outbound.frames := by
  subst hcodec
  rw [frames_dispatch hkind hopen hpolicy hquiet]
  cases hbytes : (m.reply e.connection.codec (routes.outcomeAt m e)).encode e.connection.codec with
  | error _ => exact List.append_nil _
  | ok bytes =>
    have hfits := (Message.reply_encodes hname hmethod).1 ⟨bytes, hbytes⟩ failure hrefusal
    exact (hroom hfits).elim

/-- A request that has arrived at an open connection is answered, unless it gets an error for whose
text there is no room; then nothing is sent. -/
theorem dispatch_answered (hcodec : e.connection.codec = ⟨limits, .generic⟩)
    (hm : Message.decode ⟨limits, .generic⟩ input = .ok m) (hkind : m.kind = .request)
    (hopen : e.connection.closed = false) (hpolicy : e.connection.outbound.policy = .unbounded)
    (hquiet : routes.Quiet m) :
    let refused := m.refusal? ⟨limits, .generic⟩ (routes.outcomeAt m e)
    let e' := ((routes.dispatch m).run e).2
    ((∀ failure, refused = some failure → limits.HasRoomFor m.method failure.message) →
      m.AnsweredBy e e') ∧
    ∀ failure, refused = some failure → ¬limits.HasRoomFor m.method failure.message →
      e'.connection.outbound.frames = e.connection.outbound.frames := by
  obtain ⟨-, hname, hmethod, -⟩ := decode_ok.1 hm
  intro refused e'
  constructor
  · intro hroom
    have hframes := frames_dispatch hkind hopen hpolicy hquiet
    rw [hcodec] at hframes
    obtain ⟨bytes, hbytes⟩ := (Message.reply_encodes hname hmethod).2 hroom
    obtain ⟨hversion, hreply, hid, hsame⟩ := Message.reply_for ⟨limits, .generic⟩ m (routes.outcomeAt m e)
    obtain ⟨m', hdecode, harrives⟩ :=
      Message.decode_of_encode hversion (by rw [hsame]; exact hmethod.2) hbytes
    rw [hbytes] at hframes
    refine ⟨bytes, m', hframes, ?_, ?_, ?_, ?_⟩
    · rw [hcodec]
      exact hdecode
    · rw [harrives.kind]
      exact hreply
    · rw [harrives.callId, hid]
    · rw [harrives.method, hsame]
  · intro failure hrefusal hroom
    exact frames_dispatch_of_noRoom hcodec hname hmethod hkind hopen hpolicy hquiet hrefusal hroom

def fresh : Endpoint Empty := { connection := .detached ⟨{}, .generic⟩, trace := {} }

def echo : Routes Empty := ({} : Routes Empty).register "p" fun m => pure (some m.payload)

theorem dispatch_answered_echo : ∃ input m,
    Message.decode ⟨{}, .generic⟩ input = .ok m ∧ m.kind = .request ∧ echo.Quiet m ∧
      m.AnsweredBy fresh ((echo.dispatch m).run fresh).2 := by
  have hm : Message.decode ⟨{}, .generic⟩ [1, 0, 0, 0, 0, 0, 0, 0, 0, 7, 0, 0, 0, 1, 112, 0, 0, 0, 1, 0] =
      .ok (.request 7 "p" (.ofValues [.null]) : Message Empty) := by
    cbv
  have hquiet : echo.Quiet (.request 7 "p" (.ofValues [.null])) := by
    intro handler hmem e
    obtain rfl := List.mem_singleton.1 hmem
    exact .refl e
  have hroom : Message.refusal? ⟨{}, .generic⟩ (.request 7 "p" (.ofValues [.null]))
      (echo.outcomeAt (.request 7 "p" (.ofValues [.null])) fresh) = none := by
    cbv
  refine ⟨_, _, hm, rfl, hquiet, (dispatch_answered rfl hm rfl rfl rfl hquiet).1 ?_⟩
  intro failure hrefusal
  rw [hroom] at hrefusal
  cases hrefusal

def longCall (n : Nat) : Message Empty := .request 1 (String.ofList (List.replicate n 'm')) .empty

theorem size_longCall (n : Nat) : (longCall n).method.utf8ByteSize = n := by
  simp only [longCall, Message.request, String.utf8ByteSize_ofList]
  induction n with
  | zero => rfl
  | succ n ih => rw [List.replicate_succ, String.utf8Len, ih]; rfl

theorem size_noHandler (method : String) :
    (Failure.noHandler method).message.utf8ByteSize = method.utf8ByteSize + 35 := by
  have hmessage : (Failure.noHandler method).message =
      "No handler registered for method '" ++ method ++ "'" := rfl
  have hopening : "No handler registered for method '".utf8ByteSize = 34 := rfl
  have hclosing : "'".utf8ByteSize = 1 := rfl
  rw [hmessage, String.utf8ByteSize_append, String.utf8ByteSize_append, hopening, hclosing]
  omega

/-- With the default limits a name can be so long that the error that quotes it is too long. -/
theorem frames_dispatch_long {n : Nat} (hn : n ≤ 1048576) (hlong : 1048576 < n + 35) :
    (∃ input, Message.decode ⟨{}, .generic⟩ input = .ok (longCall n)) ∧
      ((({} : Routes Empty).dispatch (longCall n)).run fresh).2.connection.outbound.frames = [] := by
  have hsize := size_longCall n
  have hname : (longCall n).method.isEmpty = false := by
    rw [String.isEmpty_eq_utf8ByteSize_beq_zero, hsize, beq_eq_false_iff_ne]
    omega
  have hmethod : Within (longCall n).method.utf8ByteSize ({} : Limits).maxStringLen := by
    rw [hsize]
    exact ⟨hn, hn.trans (by decide)⟩
  have hdecode : Message.decode ⟨{}, .generic⟩ ((longCall n).spellHeader ++ spellParams []) =
      .ok (longCall n) :=
    decode_ok.2 ⟨rfl, hname, hmethod, [], ⟨Nat.zero_le _, Nat.zero_le _⟩, nofun, rfl, grows_nil.2 rfl, rfl⟩
  refine ⟨⟨_, hdecode⟩, ?_⟩
  refine frames_dispatch_of_noRoom rfl hname hmethod rfl rfl rfl nofun rfl ?_
  rintro ⟨-, htext, -⟩
  have htext : (Failure.noHandler (longCall n).method).message.utf8ByteSize ≤ 1048576 := htext.1
  rw [size_noHandler, hsize] at htext
  omega

theorem frames_dispatch_longCall :
    (∃ input, Message.decode ⟨{}, .generic⟩ input = .ok (longCall 1048576)) ∧
      ((({} : Routes Empty).dispatch (longCall 1048576)).run fresh).2.connection.outbound.frames = [] :=
  frames_dispatch_long (by decide) (by decide)

end Routes
end GraphRpc
