import Mathlib
import GraphRpc.Proofs.Inbound.Stopping
import GraphRpc.Proofs.Link.Station

/-!
# Passing messages on

Whatever the steps at a station, messages pass it one after another: from the stream that arrives to
the desk, and from the outbound buffer to the stream that leaves. Only messages of one kind arrive, and
only such of another kind leave, so that their call ids tell them apart.
-/

namespace GraphRpc

open Wire Binary

variable {α : Type} {codec : Codec α} {P Q : MessageKind → Prop}

-- ---------------------------------------------------------------------------
-- Streams of messages
-- ---------------------------------------------------------------------------

/-- The bytes are those of a message of such a kind with this call id. -/
def Spells (codec : Codec α) (P : MessageKind → Prop) (id : UInt64) (bytes : ByteArray) : Prop :=
  ∃ m : Message α, P m.kind ∧ m.callId = id ∧ m.encode codec = .ok bytes

theorem MessageKind.byte_injective : Function.Injective byte := by
  intro kind kind' h
  cases kind <;> cases kind' <;> first | rfl | cases h

/-- What is read has the kind and the call id that was written. -/
theorem Spells.decode {id : UInt64} {bytes : ByteArray} {m : Message α} (h : Spells codec P id bytes)
    (hdecode : Message.decode codec bytes.data.toList = .ok m) : P m.kind ∧ m.callId = id := by
  obtain ⟨m', hkind, rfl, hencode⟩ := h
  obtain ⟨-, -, -, ts, order, -, -, rfl, -⟩ := encode_ok.1 hencode
  obtain ⟨-, -, -, ts', -, -, hinput, -⟩ := decode_ok.1 hdecode
  rw [List.data_toByteArray] at hinput
  simp only [Message.spellHeader, List.cons_append, List.append_assoc, List.cons.injEq] at hinput
  obtain ⟨-, hbyte, hrest⟩ := hinput
  have hid := (List.append_inj hrest (by simp only [length_bigEndian])).1
  refine ⟨MessageKind.byte_injective hbyte ▸ hkind, ?_⟩
  exact (UInt64.toNat_inj.1 (bigEndian_inj m'.callId.toNat_lt m.callId.toNat_lt hid)).symm

/-- The stream consists of frames that hold messages of such a kind with these call ids. -/
def Brings (codec : Codec α) (P : MessageKind → Prop) (ids : List UInt64) (stream : List UInt8) : Prop :=
  ∃ payloads : List ByteArray, stream = payloads.flatMap Frame.spell ∧
    (∀ payload ∈ payloads, Within payload.size codec.limits.maxFrameSize) ∧
    List.Forall₂ (Spells codec P) ids payloads

theorem Brings.nil : Brings codec P [] [] := ⟨[], rfl, List.forall_mem_nil _, .nil⟩

theorem Brings.append {ids : List UInt64} {id : UInt64} {stream : List UInt8} {bytes framed : ByteArray}
    (h : Brings codec P ids stream) (hbytes : Spells codec P id bytes)
    (hframed : Frame.build bytes codec.limits.maxFrameSize = .ok framed) :
    Brings codec P (ids ++ [id]) (stream ++ framed.data.toList) := by
  obtain ⟨hwithin, rfl⟩ := Frame.build_ok.1 hframed
  obtain ⟨payloads, rfl, hall, hspells⟩ := h
  refine ⟨payloads ++ [bytes], ?_, ?_, ?_⟩
  · rw [List.flatMap_append, List.flatMap_singleton, List.data_toByteArray]
  · exact List.forall_mem_append.2 ⟨hall, List.forall_mem_singleton.2 hwithin⟩
  · exact List.rel_append hspells (.cons hbytes .nil)

theorem Brings.next {ids : List UInt64} {buffer future rest : List UInt8} {size : Nat} {m : Message α}
    (h : Brings codec P ids (buffer ++ future)) (hnext : Arrival.next codec buffer = .message size m rest) :
    ∃ ids', ids = m.callId :: ids' ∧ P m.kind ∧ Brings codec P ids' (rest ++ future) := by
  obtain ⟨payloads, hstream, hwithin, hspells⟩ := h
  rw [Arrival.next] at hnext
  obtain ⟨missing, hparse⟩ | ⟨payload, payloads, rest', rfl, rfl, hrest, hparse⟩ :=
    Frame.parse_stream hwithin hstream
  · rw [hparse] at hnext
    cases hnext
  · rw [hparse] at hnext
    dsimp only at hnext
    cases hspells with
    | cons hspell hspells =>
      split at hnext
      · next m' hdecode =>
        cases hnext
        obtain ⟨hkind, rfl⟩ := hspell.decode hdecode
        rw [List.drop_left]
        exact ⟨_, rfl, hkind, payloads, hrest, (List.forall_mem_cons.1 hwithin).2, hspells⟩
      · cases hnext

-- ---------------------------------------------------------------------------
-- Messages at a station
-- ---------------------------------------------------------------------------

namespace DispatchPhase

/-- Whether the message was passed on: the call that it answers was taken, or its request served. -/
def passed : DispatchPhase α → Bool
  | deciding (.telling ..) | deciding .done | serving .done => true
  | _ => false

def telling : DispatchPhase α → List Callback
  | deciding (.telling call _) => [call.callback]
  | _ => []

def Of (m : Message α) : DispatchPhase α → Prop
  | starting => True
  | deciding (.taking id _) => m.kind.isReply ∧ id = m.callId
  | deciding (.telling ..) | deciding .done => m.kind ≠ .request
  | serving _ => m.kind = .request
  | noticing => m.kind = .oneWay

theorem of_finished {phase : DispatchPhase α} (h : phase.finished) :
    phase.passed ∧ phase.telling = [] := by
  unfold finished at h
  split at h
  · exact ⟨rfl, rfl⟩
  · exact ⟨rfl, rfl⟩
  · cases h

theorem ofMessage_of (m : Message α) : (ofMessage m).Of m := by
  unfold ofMessage
  split
  · next hkind => exact ⟨by rw [hkind]; rfl, rfl⟩
  · next hkind => exact ⟨by rw [hkind]; rfl, rfl⟩
  · next hkind => exact hkind
  · next hkind => exact hkind

end DispatchPhase

namespace Station

/-- What was taken in and has not been passed on yet, oldest first. -/
def line (x : Station α) : List (Message α) :=
  x.desk.waiting.drop (x.handlings.countP (·.phase.passed))

def telling (x : Station α) : List Callback := x.handlings.flatMap (·.phase.telling)

def closed (x : Station α) : Bool := x.endpoint.connection.closed

def frames (x : Station α) : List ByteArray := x.endpoint.connection.outbound.frames.map (·.bytes)

/-- Messages of one kind come to the station, and such of another kind with these call ids are queued. -/
structure Bears (codec : Codec α) (P Q : MessageKind → Prop) (x : Station α) (queued : List UInt64) :
    Prop where
  codec_eq : x.endpoint.connection.codec = codec
  policy_eq : x.endpoint.connection.outbound.policy = .unbounded
  kept : x.desk.Kept
  busy : x.handlings = [] ∨
    ∃ h, x.handlings = [h] ∧ x.desk.held h.hand = [h.message] ∧ h.phase.Of h.message
  kinds : ∀ m ∈ x.desk.waiting, P m.kind
  spells : List.Forall₂ (Spells codec Q) queued x.frames

variable {x : Station α} {queued : List UInt64} {hand : Hand}

theorem bears_start (kind : StrategyKind) (workers connection : Nat) (routes : Routes α) :
    (start codec kind workers connection routes).Bears codec P Q [] where
  codec_eq := rfl
  policy_eq := rfl
  kept := Desk.kept_ofKind ..
  busy := .inl rfl
  kinds := by
    rw [start, Desk.waiting_ofKind]
    exact List.forall_mem_nil _
  spells := .nil

theorem line_start (codec : Codec α) (kind : StrategyKind) (workers connection : Nat) (routes : Routes α) :
    (start codec kind workers connection routes).line = [] := by
  rw [line, start, Desk.waiting_ofKind]
  rfl

theorem Bears.waiting_eq {h : Handling α} (hx : x.Bears codec P Q queued) (hone : x.handlings = [h]) :
    x.desk.held h.hand = [h.message] ∧ h.phase.Of h.message ∧
      x.desk.waiting = h.message :: (x.desk.step h.hand).waiting := by
  obtain hnone | ⟨h', hone', hheld, hof⟩ := hx.busy
  · rw [hone] at hnone
    cases hnone
  · rw [hone] at hone'
    cases hone'
    refine ⟨hheld, hof, ?_⟩
    rw [(hx.kept.step h.hand).2.1, hheld]
    rfl

theorem Bears.passed_le (hx : x.Bears codec P Q queued) :
    x.handlings.countP (·.phase.passed) ≤ x.desk.waiting.length := by
  obtain hnone | ⟨h, hone, -⟩ := hx.busy
  · rw [hnone]
    exact Nat.zero_le _
  · refine Nat.le_trans List.countP_le_length ?_
    rw [(hx.waiting_eq hone).2.2, hone]
    simp

end Station

-- ---------------------------------------------------------------------------
-- Reading and writing
-- ---------------------------------------------------------------------------

/-- Nothing happened to the calls of the connection, and nobody was told anything. -/
structure Endpoint.CallsKept (e e' : Endpoint α) : Prop where
  calls : e'.connection.calls = e.connection.calls
  callTimeout : e'.connection.callTimeout = e.connection.callTimeout
  outcomes : e'.trace.outcomes = e.trace.outcomes
  nextCallback : e'.trace.nextCallback = e.trace.nextCallback

theorem Endpoint.CallsKept.refl (e : Endpoint α) : CallsKept e e := ⟨rfl, rfl, rfl, rfl⟩

theorem Endpoint.closed_fail {e : Endpoint α} (hopen : e.connection.closed = false) (why : Failure) :
    ((fail why).run e).2.connection.closed := by
  have hrun : ((fail why).run e).2 = (close.run ((emit (.faulted why)).run e).2).2 := by
    simp only [fail, StateT.run_bind]
    rw [isClosed_run, hopen]
    rfl
  rw [hrun, close_run (e := ((emit (.faulted why)).run e).2) hopen]

theorem Endpoint.closed_readFailed {e : Endpoint α} (hopen : e.connection.closed = false) (why : Failure) :
    ((readFailed why).run e).2.connection.closed := by
  rw [readFailed_run hopen, close_run (e := e.reported why) hopen]

theorem Outbound.pop?_some {q q' : Outbound} {frame : OutboundFrame} (h : q.pop? = some (frame, q')) :
    q.frames = frame :: q'.frames ∧ q'.policy = q.policy := by
  unfold pop? at h
  split at h
  · cases h
  · next hframes =>
    cases h
    exact ⟨hframes, rfl⟩

/-- The call ids of the messages on the stream that arrives, in the outbound buffer, and on the stream
that leaves. -/
structure Transit where
  coming : List UInt64 := []
  queued : List UInt64 := []
  gone : List UInt64 := []

namespace Station

/-- The station bears messages, and so do its streams, of which `ahead` and `behind` are the parts at the
other end. -/
structure Passes (codec : Codec α) (P Q : MessageKind → Prop) (ahead behind : List UInt8) (x : Station α)
    (t : Transit) : Prop where
  bears : x.Bears codec P Q t.queued
  coming : Brings codec P t.coming (x.received ++ behind)
  gone : Brings codec Q t.gone (ahead ++ x.sent)

/-- Messages went their way through the station, and nothing else happened. -/
structure Moved (x : Station α) (t : Transit) (x' : Station α) (t' : Transit) : Prop where
  out : t'.gone ++ t'.queued = t.gone ++ t.queued
  line : x'.line.map (·.callId) ++ t'.coming = x.line.map (·.callId) ++ t.coming
  kept : x.endpoint.CallsKept x'.endpoint
  nextCallId : x'.endpoint.connection.nextCallId = x.endpoint.connection.nextCallId
  telling : x'.telling = x.telling

variable {ahead behind : List UInt8} {x : Station α} {t : Transit}

theorem Moved.refl (x : Station α) (t : Transit) : x.Moved t x t := ⟨rfl, rfl, .refl _, rfl, rfl⟩

theorem Passes.depart (h : x.Passes codec P Q ahead behind t) (count : Nat) :
    Passes codec P Q (ahead ++ x.sent.take count) behind { x with sent := x.sent.drop count } t := by
  obtain ⟨⟨hcodec, hpolicy, hkept, hbusy, hkinds, hspells⟩, hcoming, hgone⟩ := h
  refine ⟨⟨hcodec, hpolicy, hkept, hbusy, hkinds, hspells⟩, hcoming, ?_⟩
  rw [List.append_assoc, List.take_append_drop]
  exact hgone

theorem Passes.arrive (h : x.Passes codec P Q ahead behind t) (count : Nat) :
    Passes codec P Q ahead (behind.drop count)
      { x with received := x.received ++ behind.take count } t := by
  obtain ⟨⟨hcodec, hpolicy, hkept, hbusy, hkinds, hspells⟩, hcoming, hgone⟩ := h
  refine ⟨⟨hcodec, hpolicy, hkept, hbusy, hkinds, hspells⟩, ?_, hgone⟩
  rw [List.append_assoc, List.take_append_drop]
  exact hcoming

theorem Passes.attach (h : x.Passes codec P Q ahead behind t) :
    x.attach.Passes codec P Q ahead behind t ∧ x.Moved t x.attach t := by
  unfold Station.attach
  split
  · exact ⟨h, .refl x t⟩
  · obtain ⟨⟨hcodec, hpolicy, hkept, hbusy, hkinds, hspells⟩, hcoming, hgone⟩ := h
    refine ⟨⟨⟨hcodec, hpolicy, hkept, hbusy, hkinds, hspells⟩, hcoming, hgone⟩, rfl, rfl, ?_, rfl, rfl⟩
    exact ⟨rfl, rfl, (Trace.outcomes_emit ..).trans (List.append_nil _), rfl⟩

theorem Passes.write (h : x.Passes codec P Q ahead behind t) (hopen : x.closed = false)
    (hopen' : x.write.closed = false) :
    ∃ t', x.write.Passes codec P Q ahead behind t' ∧ x.Moved t x.write t' := by
  revert hopen'
  unfold Station.write
  split
  · exact fun _ => ⟨t, h, .refl x t⟩
  next frame outbound hpop =>
  obtain ⟨hframes, hpolicy⟩ := Outbound.pop?_some hpop
  have hspells := h.bears.spells
  rw [Station.frames, hframes, List.map_cons, List.forall₂_cons_right_iff] at hspells
  obtain ⟨id, queued, hspell, hspells, hqueued⟩ := hspells
  rw [Station.codec, h.bears.codec_eq]
  dsimp only
  split
  · next framed hframed =>
    intro _
    refine ⟨{ t with queued, gone := t.gone ++ [id] }, ⟨⟨h.bears.codec_eq, ?_, h.bears.kept, h.bears.busy,
      h.bears.kinds, hspells⟩, h.coming, ?_⟩, ?_, rfl, ⟨rfl, rfl, rfl, rfl⟩, rfl, rfl⟩
    · exact hpolicy.trans h.bears.policy_eq
    · rw [← List.append_assoc]
      exact h.gone.append hspell hframed
    · rw [hqueued, List.append_assoc, List.singleton_append]
  · next why _ =>
    intro hopen'
    have hclosed := Endpoint.closed_fail
      (e := { x.endpoint with connection := { x.endpoint.connection with outbound } }) hopen (.frame why)
    cases hopen'.symm.trans hclosed

theorem Passes.read (h : x.Passes codec P Q ahead behind t) (hready : x.desk.ready)
    (hopen : x.closed = false) (hopen' : x.read.closed = false) :
    ∃ t', x.read.Passes codec P Q ahead behind t' ∧ x.Moved t x.read t' := by
  revert hopen'
  unfold Station.read
  split
  · next size m rest hnext =>
    intro _
    rw [Station.codec, h.bears.codec_eq] at hnext
    obtain ⟨coming, hcoming, hkind, hbrings⟩ := h.coming.next hnext
    obtain ⟨hkept, hwaiting, hheld⟩ := h.bears.kept.give hready m
    have hline : (x.desk.give m).waiting.drop (x.handlings.countP (·.phase.passed)) = x.line ++ [m] := by
      rw [hwaiting, List.drop_append_of_le_length h.bears.passed_le, line]
    refine ⟨{ t with coming }, ⟨⟨h.bears.codec_eq, h.bears.policy_eq, hkept, ?_, ?_, h.bears.spells⟩, hbrings,
      h.gone⟩, rfl, ?_, ⟨rfl, rfl, rfl, rfl⟩, rfl, rfl⟩
    · refine h.bears.busy.imp_right ?_
      rintro ⟨handling, hone, hhand, hof⟩
      exact ⟨handling, hone, (hheld _ (by simp [hhand])).trans hhand, hof⟩
    · rw [hwaiting]
      exact List.forall_mem_append.2 ⟨h.bears.kinds, List.forall_mem_singleton.2 hkind⟩
    · refine (congrArg (·.map (·.callId) ++ coming) hline).trans ?_
      rw [List.map_append, hcoming, List.append_assoc]
      rfl
  · next size why _ =>
    intro hopen'
    have hclosed := Endpoint.closed_readFailed
      (e := (x.count (Counters.frameReceived size)).endpoint) hopen why
    cases hopen'.symm.trans hclosed
  · next why _ =>
    intro hopen'
    cases hopen'.symm.trans (Endpoint.closed_readFailed hopen (.frame why))
  · exact fun _ => ⟨t, h, .refl x t⟩

-- ---------------------------------------------------------------------------
-- Work at the desk
-- ---------------------------------------------------------------------------

def dispatch (x : Station α) (h : Handling α) : Station α :=
  let (phase, endpoint) := h.phase.step x.routes h.message x.endpoint
  { x with endpoint, handlings := [{ h with phase }] }

structure Shifted (x x' : Station α) : Prop where
  endpoint : x'.endpoint = x.endpoint
  routes : x'.routes = x.routes
  line : x'.line = x.line
  telling : x'.telling = x.telling
  sent : x'.sent = x.sent
  received : x'.received = x.received

theorem Bears.step_desk {queued : List UInt64} (hx : x.Bears codec P Q queued) {hand : Hand}
    (hheld : x.desk.held hand = []) (hother : ∀ h ∈ x.handlings, h.hand ≠ hand) :
    Bears codec P Q { x with desk := x.desk.step hand } queued ∧
      x.Shifted { x with desk := x.desk.step hand } := by
  obtain ⟨hkept, hwaiting, hothers⟩ := hx.kept.step hand
  rw [hheld, List.nil_append] at hwaiting
  refine ⟨⟨hx.codec_eq, hx.policy_eq, hkept, ?_, hwaiting ▸ hx.kinds, hx.spells⟩, rfl, rfl, ?_, rfl, rfl, rfl⟩
  · refine hx.busy.imp_right ?_
    rintro ⟨h, hone, hhand, hof⟩
    have hne : h.hand ≠ hand := hother h (by rw [hone]; exact List.mem_singleton_self h)
    exact ⟨h, hone, (hothers _ hne).trans hhand, hof⟩
  · rw [Station.line, Station.line, hwaiting]

theorem Bears.work_idle {queued : List UInt64} (hx : x.Bears codec P Q queued) (hnone : x.handlings = [])
    (hand : Hand) : (x.work hand).Bears codec P Q queued ∧ x.Shifted (x.work hand) := by
  have hfind : x.handlings.find? (·.hand = hand) = none := by
    rw [hnone]
    rfl
  obtain hempty | ⟨m, hm⟩ := x.desk.held_cases hand
  · have hwork : x.work hand = { x with desk := x.desk.step hand } := by
      rw [Station.work, hfind, hempty]
    rw [hwork]
    exact hx.step_desk hempty (by rw [hnone]; exact List.forall_mem_nil _)
  · have hwork : x.work hand = { x with handlings := [⟨hand, m, .starting⟩] } := by
      rw [Station.work, hfind, hm, hnone]
      rfl
    rw [hwork]
    refine ⟨⟨hx.codec_eq, hx.policy_eq, hx.kept, .inr ⟨_, rfl, hm, trivial⟩, hx.kinds, hx.spells⟩, rfl, rfl,
      ?_, ?_, rfl, rfl⟩
    · rw [Station.line, Station.line, hnone]
      rfl
    · rw [Station.telling, Station.telling, hnone]
      rfl

theorem Bears.work_other {queued : List UInt64} {h : Handling α} {hand : Hand}
    (hx : x.Bears codec P Q queued) (hone : x.handlings = [h]) (hhand : h.hand ≠ hand) :
    (x.work hand).Bears codec P Q queued ∧ x.Shifted (x.work hand) := by
  have hfind : x.handlings.find? (·.hand = hand) = none := by simp [hone, hhand]
  have hempty : x.desk.held hand = [] := by
    by_contra hne
    exact hhand (hx.kept.alone hne (by simp [(hx.waiting_eq hone).1]))
  have hwork : x.work hand = { x with desk := x.desk.step hand } := by
    rw [Station.work, hfind, hempty]
  rw [hwork]
  refine hx.step_desk hempty ?_
  rw [hone]
  exact List.forall_mem_singleton.2 hhand

theorem Bears.work_finished {queued : List UInt64} {h : Handling α} (hx : x.Bears codec P Q queued)
    (hone : x.handlings = [h]) (hfinished : h.phase.finished) :
    (x.work h.hand).Bears codec P Q queued ∧ x.Shifted (x.work h.hand) := by
  have hwork : x.work h.hand = { x with desk := x.desk.step h.hand, handlings := [] } := by
    simp [Station.work, hfinished, hone]
  obtain ⟨hpassed, htelling⟩ := DispatchPhase.of_finished hfinished
  obtain ⟨-, -, hwaiting⟩ := hx.waiting_eq hone
  have hkinds := hx.kinds
  rw [hwaiting] at hkinds
  rw [hwork]
  refine ⟨⟨hx.codec_eq, hx.policy_eq, (hx.kept.step _).1, .inl rfl, (List.forall_mem_cons.1 hkinds).2,
    hx.spells⟩, rfl, rfl, ?_, ?_, rfl, rfl⟩
  · rw [Station.line, Station.line, hone, hwaiting, List.countP_singleton, if_pos hpassed]
    rfl
  · rw [Station.telling, Station.telling, hone, List.flatMap_singleton, htelling]
    rfl

/-- Work at a desk is to dispatch, or it changes nothing that matters. -/
theorem Bears.work_cases {queued : List UInt64} (hx : x.Bears codec P Q queued) (hand : Hand) :
    ((x.work hand).Bears codec P Q queued ∧ x.Shifted (x.work hand)) ∨
      ∃ h, x.handlings = [h] ∧ h.phase.finished = false ∧ x.work hand = x.dispatch h := by
  obtain hnone | ⟨h, hone, -⟩ := hx.busy
  · exact .inl (hx.work_idle hnone hand)
  by_cases hhand : h.hand = hand
  · subst hhand
    cases hfinished : h.phase.finished with
    | true => exact .inl (hx.work_finished hone hfinished)
    | false =>
      refine .inr ⟨h, hone, hfinished, ?_⟩
      simp [Station.work, hfinished, hone, Station.dispatch]
  · exact .inl (hx.work_other hone hhand)

theorem routes_act (x : Station α) (a : StationAction) : (x.act a).routes = x.routes := by
  cases a with
  | attach =>
    simp only [act, Station.attach]
    split <;> rfl
  | write =>
    simp only [act, Station.write]
    split
    · split
      · rfl
      · split <;> rfl
    · rfl
  | read =>
    simp only [act, Station.read]
    split
    · split <;> rfl
    · rfl
  | work hand =>
    simp only [act, Station.work]
    split
    · split <;> rfl
    · split <;> rfl

/-- A step at a station lets messages go their way, or it is one of dispatching. -/
theorem Passes.act_cases (h : x.Passes codec P Q ahead behind t) (a : StationAction)
    (hopen : x.closed = false) (hopen' : (x.act a).closed = false) :
    (∃ t', (x.act a).Passes codec P Q ahead behind t' ∧ x.Moved t (x.act a) t') ∨
      ∃ handling, x.handlings = [handling] ∧ handling.phase.finished = false ∧
        x.act a = x.dispatch handling := by
  cases a with
  | attach => exact .inl ⟨t, h.attach⟩
  | write =>
    simp only [act] at hopen' ⊢
    split at hopen'
    · next hconnected =>
      rw [if_pos hconnected]
      exact .inl (h.write hopen hopen')
    · next hconnected =>
      rw [if_neg hconnected]
      exact .inl ⟨t, h, .refl x t⟩
  | read =>
    simp only [act] at hopen' ⊢
    split at hopen'
    · next hready =>
      rw [if_pos hready]
      exact .inl (h.read (Bool.and_eq_true_iff.1 hready).2 hopen hopen')
    · next hready =>
      rw [if_neg hready]
      exact .inl ⟨t, h, .refl x t⟩
  | work hand =>
    obtain ⟨hbears, hshifted⟩ | hdispatch := h.bears.work_cases hand
    · refine .inl ⟨t, ⟨hbears, ?_, ?_⟩, rfl, ?_, ?_, ?_, hshifted.telling⟩
      · rw [act, hshifted.received]
        exact h.coming
      · rw [act, hshifted.sent]
        exact h.gone
      · rw [act, hshifted.line]
      · rw [act, hshifted.endpoint]
        exact .refl _
      · rw [act, hshifted.endpoint]
    · exact .inr hdispatch

end Station

-- ---------------------------------------------------------------------------
-- Serving requests
-- ---------------------------------------------------------------------------

/-- A buffer with unbounded room takes every frame and pushes nothing out. -/
theorem Endpoint.push_unbounded {e : Endpoint α} (hpolicy : e.connection.outbound.policy = .unbounded)
    (frame : OutboundFrame) : e.push frame = .ok (.done,
      { connection := { e.connection with outbound :=
          { e.connection.outbound with frames := e.connection.outbound.frames ++ [frame] } }
        trace := e.trace.emit .frameQueued }) := by
  simp only [push, Outbound.push, hpolicy, reduceCtorEq, false_and, if_false]
  rfl

/-- At most one frame was added, with a reply to the request, and then the request is served. -/
def Service.Adds (m : Message α) (phase : ServePhase α) (e e' : Endpoint α) : Prop :=
  ∃ sent : List OutboundFrame, e'.connection.outbound =
      { e.connection.outbound with frames := e.connection.outbound.frames ++ sent } ∧
    (sent = [] ∨ phase = .done ∧ ∃ frame, sent = [frame] ∧
      Spells e.connection.codec (fun kind => kind.isReply) m.callId frame.bytes)

section
variable {routes : Routes α} {m : Message α} {e e' : Endpoint α}

theorem Service.Adds.nothing {phase : ServePhase α}
    (h : e'.connection.outbound = e.connection.outbound) : Adds m phase e e' :=
  ⟨[], by rw [h, List.append_nil], .inl rfl⟩

theorem Service.Adds.push {reply : Message α} {bytes : ByteArray}
    (hpolicy : e.connection.outbound.policy = .unbounded)
    (hencode : reply.encode e.connection.codec = .ok bytes) (hreply : reply.kind.isReply)
    (hid : reply.callId = m.callId) :
    Adds m .done e ((Endpoint.pushFrame none bytes).exec e).2 := by
  rw [exec_pushFrame, Endpoint.push_unbounded hpolicy]
  exact ⟨[⟨none, bytes⟩], rfl, .inr ⟨rfl, _, rfl, reply, hreply, hid, hencode⟩⟩

theorem codec_pushFrame (hpolicy : e.connection.outbound.policy = .unbounded) (bytes : ByteArray) :
    ((Endpoint.pushFrame none bytes).exec e).2.connection.codec = e.connection.codec := by
  rw [exec_pushFrame, Endpoint.push_unbounded hpolicy]
  rfl

theorem Service.advance_adds (hquiet : routes.Quiet m)
    (hpolicy : e.connection.outbound.policy = .unbounded) (phase : ServePhase α) :
    let r := advance routes (⟨m, phase⟩, e)
    r.2.connection.codec = e.connection.codec ∧ Adds m r.1.phase e r.2 := by
  cases phase with
  | invoking =>
    have hsame := hquiet.invokeHandlers e
    have hconnection := Endpoint.connection_tally ((routes.invokeHandlers m).exec e).1
      ((routes.invokeHandlers m).exec e).2
    exact ⟨(congrArg Connection.codec hconnection).trans hsame.codec,
      .nothing ((congrArg Connection.outbound hconnection).trans hsame.outbound)⟩
  | responding answer =>
    simp only [advance, step]
    split
    · exact ⟨rfl, .nothing rfl⟩
    split
    · next bytes hencode => exact ⟨codec_pushFrame hpolicy bytes, .push hpolicy hencode rfl rfl⟩
    · exact ⟨rfl, .nothing rfl⟩
  | refusing failure =>
    simp only [advance, step]
    split
    · exact ⟨rfl, .nothing rfl⟩
    split
    · next bytes hencode => exact ⟨codec_pushFrame hpolicy bytes, .push hpolicy hencode rfl rfl⟩
    · exact ⟨rfl, .nothing rfl⟩
  | done => exact ⟨rfl, .nothing rfl⟩

end

namespace Station

variable {ahead behind : List UInt8} {x : Station α} {t : Transit} {h : Handling α}

/-- A step of dispatching the oldest message changes the line only by passing that message on. -/
theorem Bears.line_dispatch {queued : List UInt64} (hx : x.Bears codec P Q queued)
    (hone : x.handlings = [h]) :
    let rest := (x.desk.step h.hand).waiting
    x.line = (if h.phase.passed then rest else h.message :: rest) ∧
      (x.dispatch h).line =
        (if (h.phase.step x.routes h.message x.endpoint).1.passed then rest else h.message :: rest) := by
  obtain ⟨-, -, hwaiting⟩ := hx.waiting_eq hone
  have hdrop (phase : DispatchPhase α) :
      x.desk.waiting.drop (if phase.passed then 1 else 0) =
        if phase.passed then (x.desk.step h.hand).waiting
        else h.message :: (x.desk.step h.hand).waiting := by
    rw [hwaiting]
    cases phase.passed <;> rfl
  constructor
  · rw [Station.line, hone, List.countP_singleton]
    exact hdrop h.phase
  · rw [Station.line, Station.dispatch, List.countP_singleton]
    exact hdrop _

theorem Bears.dispatch {queued queued' : List UInt64} (hx : x.Bears codec P Q queued)
    (hone : x.handlings = [h])
    (hcodec : (x.dispatch h).endpoint.connection.codec = x.endpoint.connection.codec)
    (hpolicy : (x.dispatch h).endpoint.connection.outbound.policy = x.endpoint.connection.outbound.policy)
    (hof : (h.phase.step x.routes h.message x.endpoint).1.Of h.message)
    (hspells : List.Forall₂ (Spells codec Q) queued' (x.dispatch h).frames) :
    (x.dispatch h).Bears codec P Q queued' where
  codec_eq := hcodec.trans hx.codec_eq
  policy_eq := hpolicy.trans hx.policy_eq
  kept := hx.kept
  busy := .inr ⟨_, rfl, (hx.waiting_eq hone).1, hof⟩
  kinds := hx.kinds
  spells := hspells

theorem step_request {routes : Routes α} {m : Message α} {phase : DispatchPhase α} {e : Endpoint α}
    (hkind : m.kind = .request) (hof : phase.Of m) (hgoes : phase.finished = false)
    (hquiet : routes.Quiet m) (hpolicy : e.connection.outbound.policy = .unbounded) :
    phase.passed = false ∧ ∃ serving, (phase.step routes m e).1 = .serving serving ∧
      (phase.step routes m e).2.connection.codec = e.connection.codec ∧
      Service.Adds m serving e (phase.step routes m e).2 := by
  cases phase with
  | starting =>
    refine ⟨rfl, .invoking, ?_, rfl, .nothing rfl⟩
    rw [DispatchPhase.step, DispatchPhase.ofMessage, hkind]
  | deciding d =>
    cases d with
    | taking id outcome =>
      rw [DispatchPhase.Of, hkind] at hof
      cases hof.1
    | telling call outcome => exact (hof hkind).elim
    | done => exact (hof hkind).elim
  | serving phase =>
    refine ⟨?_, _, rfl, Service.advance_adds hquiet hpolicy phase⟩
    cases phase with
    | done => cases hgoes
    | _ => rfl
  | noticing => cases hkind.symm.trans hof

theorem Passes.dispatch_request
    (hx : x.Passes codec (· = .request) (fun kind => kind.isReply) ahead behind t)
    (hquiet : ∀ m, x.routes.Quiet m) (hone : x.handlings = [h]) (hgoes : h.phase.finished = false) :
    ∃ t', (x.dispatch h).Passes codec (· = .request) (fun kind => kind.isReply) ahead behind t' ∧
      (t'.gone ++ t'.queued ++ ((x.dispatch h).line.map (·.callId) ++ t'.coming)).Sublist
        (t.gone ++ t.queued ++ (x.line.map (·.callId) ++ t.coming)) := by
  obtain ⟨hbears, hcoming, hgone⟩ := hx
  obtain ⟨hheld, hof, hwaiting⟩ := hbears.waiting_eq hone
  have hkind : h.message.kind = .request :=
    hbears.kinds h.message (by rw [hwaiting]; exact List.mem_cons_self)
  obtain ⟨hpassed, phase, hphase, hcodec, sent, houtbound, hsent⟩ :=
    step_request hkind hof hgoes (hquiet h.message) hbears.policy_eq
  obtain ⟨hline, hline'⟩ := hbears.line_dispatch hone
  rw [hpassed] at hline
  rw [hphase] at hline'
  have hframes : (x.dispatch h).frames = x.frames ++ sent.map (·.bytes) := by
    rw [Station.frames, Station.dispatch, houtbound]
    exact List.map_append
  have hpolicy := congrArg Outbound.policy houtbound
  have hnext (queued : List UInt64) (hspells : List.Forall₂
      (Spells codec fun kind => kind.isReply) queued (x.dispatch h).frames) :
      (x.dispatch h).Bears codec (· = .request) (fun kind => kind.isReply) queued :=
    hbears.dispatch hone hcodec hpolicy (by rw [hphase]; exact hkind) hspells
  rw [hline, hline']
  rcases hsent with rfl | ⟨rfl, frame, rfl, hspell⟩
  · refine ⟨t, ⟨hnext t.queued (by rw [hframes, List.map_nil, List.append_nil]; exact hbears.spells), hcoming,
      hgone⟩, ?_⟩
    refine (List.Sublist.refl _).append (List.Sublist.append ?_ (List.Sublist.refl _))
    refine List.Sublist.map _ ?_
    split
    · exact List.sublist_cons_self ..
    · exact List.Sublist.refl _
  · refine ⟨{ t with queued := t.queued ++ [h.message.callId] }, ⟨hnext _ ?_, hcoming, hgone⟩, ?_⟩
    · rw [hframes]
      exact List.rel_append hbears.spells (.cons (hbears.codec_eq ▸ hspell) .nil)
    · simp [DispatchPhase.passed]

end Station
end GraphRpc
