import Mathlib
import GraphRpc.Proofs.Peers.Exchange
import GraphRpc.Sample.Handlers

/-!
# Correlation

Whatever two peers do and in whatever order: a callback that is told an answer, or the text of an
error, is told what the handlers of the other side gave for the request of that very call. Both sides
number their calls alike, but what a side says to the requests of the other one gets to nobody else.
-/

namespace GraphRpc

open Wire

variable {α : Type} {limits : Limits}

-- ---------------------------------------------------------------------------
-- What a reply brings
-- ---------------------------------------------------------------------------

namespace Message

variable {codec : Codec α} {request m : Message α} {given : Except Failure (Option (Payload α))}

/-- The text of an error arrives as it was sent. -/
theorem outcome_of_errorTo {reason : String} (h : (request.errorTo reason).Arrives m) :
    m.outcome = .error (.call (.remote reason)) := by
  obtain ⟨number, hsame⟩ := h.payload
  have hvalues : m.payload.values = [.str reason] := by
    rw [hsame.values]
    exact congrArg ([·]) (Value.rename_scalar _ (.str reason))
  have hkind : m.kind = .error := h.kind
  rw [outcome, hkind, errorReason, Payload.first?, hvalues]
  rfl

theorem outcome_of_responseTo {payload : Payload α} (h : (request.responseTo payload).Arrives m) :
    m.outcome = .ok m.payload := by
  have hkind : m.kind = .response := h.kind
  rw [outcome, hkind]

theorem answer_of_reply {payload : Payload α} (h : (request.reply codec given).Arrives m)
    (hok : m.outcome = .ok payload) :
    ∃ answer, given = .ok answer ∧ (answer.getD .empty).SameGraph payload := by
  cases hrefusal : request.refusal? codec given with
  | some failure =>
    rw [reply_of_refusal hrefusal] at h
    rw [outcome_of_errorTo h] at hok
    cases hok
  | none =>
    obtain ⟨answer, -, rfl, hreply, -⟩ := reply_of_answer hrefusal
    rw [hreply] at h
    rw [outcome_of_responseTo h] at hok
    cases hok
    exact ⟨answer, rfl, h.payload⟩

/-- A reply that brings a failure has the text of why the request was refused. -/
theorem refusal_of_reply {reason : String} (h : (request.reply codec given).Arrives m)
    (herror : m.outcome = .error (.call (.remote reason))) :
    ∃ failure, request.refusal? codec given = some failure ∧ failure.message = reason := by
  cases hrefusal : request.refusal? codec given with
  | some failure =>
    rw [reply_of_refusal hrefusal] at h
    rw [outcome_of_errorTo h] at herror
    cases herror
    exact ⟨failure, rfl, rfl⟩
  | none =>
    obtain ⟨answer, -, rfl, hreply, -⟩ := reply_of_answer hrefusal
    rw [hreply] at h
    rw [outcome_of_responseTo h] at herror
    cases herror

end Message

-- ---------------------------------------------------------------------------
-- Runs
-- ---------------------------------------------------------------------------

namespace Peer

variable {p q : Peer α}

theorem carried (hp : p.Sound limits q) (hq : q.Sound limits p) (hout : p.Carries limits q)
    (hinto : q.Carries limits p) (count : Nat) :
    let (p', q') := p.carryTo q count
    p'.Sound limits q' ∧ q'.Sound limits p' ∧ p'.Carries limits q' ∧ q'.Carries limits p' := by
  obtain ⟨payloads, hstream, hsends⟩ := hout
  have hgrows : p.Grows { p with sent := p.sent.drop count } :=
    .still rfl rfl rfl
  have hgrows' : q.Grows { q with received := q.received ++ p.sent.take count } :=
    .still rfl rfl rfl
  have hp' := hp.mono hgrows'
  have hq' := hq.mono hgrows
  refine ⟨hp'.transfer rfl rfl rfl hp'.queued hp'.serving, hq'.transfer rfl rfl rfl hq'.queued hq'.serving,
    ⟨payloads, ?_, fun bytes hmem => (hsends bytes hmem).mono hgrows⟩, hinto.mono hgrows' rfl rfl⟩
  · rw [List.append_assoc, List.take_append_drop]
    exact hstream

end Peer

namespace Pair

variable {s : Pair α}

structure Sound (limits : Limits) (s : Pair α) : Prop where
  near : s.near.Sound limits s.far
  far : s.far.Sound limits s.near
  forth : s.near.Carries limits s.far
  back : s.far.Carries limits s.near

theorem Sound.act (h : s.Sound limits) (hword : limits.maxFrameSize ≤ maxWord) (a : PairAction α) :
    (s.act a).Sound limits := by
  obtain ⟨hnear, hfar, hforth, hback⟩ := h
  cases a with
  | own side a =>
    cases side with
    | near =>
      obtain ⟨hsound, hout, hinto⟩ := Peer.Joined.act ⟨hnear, hforth, hback⟩ hword a
      exact ⟨hsound, hfar.mono (s.near.grows_act a), hout, hinto⟩
    | far =>
      obtain ⟨hsound, hout, hinto⟩ := Peer.Joined.act ⟨hfar, hback, hforth⟩ hword a
      exact ⟨hnear.mono (s.far.grows_act a), hsound, hinto, hout⟩
  | carry side count =>
    cases side with
    | near =>
      obtain ⟨hsound, hsound', hout, hinto⟩ := Peer.carried hnear hfar hforth hback count
      exact ⟨hsound, hsound', hout, hinto⟩
    | far =>
      obtain ⟨hsound, hsound', hout, hinto⟩ := Peer.carried hfar hnear hback hforth count
      exact ⟨hsound', hsound, hinto, hout⟩

theorem Sound.run (h : s.Sound limits) (hword : limits.maxFrameSize ≤ maxWord)
    (actions : List (PairAction α)) : (s.run actions).Sound limits := by
  induction actions generalizing s with
  | nil => exact h
  | cons a actions ih => exact ih (h.act hword a)

theorem routes_act (s : Pair α) (a : PairAction α) :
    (s.act a).near.routes = s.near.routes ∧ (s.act a).far.routes = s.far.routes := by
  cases a with
  | own side a =>
    cases side with
    | near => exact ⟨(s.near.grows_act a).routes, rfl⟩
    | far => exact ⟨rfl, (s.far.grows_act a).routes⟩
  | carry side count => cases side <;> exact ⟨rfl, rfl⟩

theorem routes_run (s : Pair α) (actions : List (PairAction α)) :
    (s.run actions).near.routes = s.near.routes ∧ (s.run actions).far.routes = s.far.routes := by
  induction actions generalizing s with
  | nil => exact ⟨rfl, rfl⟩
  | cons a actions ih =>
    obtain ⟨hnear, hfar⟩ := ih (s.act a)
    exact ⟨hnear.trans (s.routes_act a).1, hfar.trans (s.routes_act a).2⟩

end Pair

-- ---------------------------------------------------------------------------
-- What callbacks were told
-- ---------------------------------------------------------------------------

namespace Peer

variable {p q : Peer α}

def told (p : Peer α) : List (Callback × Except Failure (Payload α)) := p.endpoint.trace.outcomes

/-- `q` dispatched the request of the call `x`. If ids run out and are given again, it can be that of
another call with the same id. -/
structure Reached (p q : Peer α) (x : Issue α) (request : Message α) : Prop where
  served : request ∈ q.served
  issued : ∃ y ∈ p.issues, y.request.Arrives request ∧ y.id = x.id ∧ (p.issues.length ≤ 2 ^ 64 → y = x)

/-- What the callbacks of `p` were told, in view of `q`, whose handlers are in `routes`. -/
structure Correlated (limits : Limits) (routes : Routes α) (p q : Peer α) : Prop where
  issued : ∀ r ∈ p.told, ∃! x, x ∈ p.issues ∧ x.callback = r.1
  answered : ∀ x ∈ p.issues, ∀ payload, (x.callback, .ok payload) ∈ p.told →
    ∃ request answer, p.Reached q x request ∧ routes.Gives request (.ok answer) ∧
      (answer.getD .empty).SameGraph payload
  refused : ∀ x ∈ p.issues, ∀ text, (x.callback, .error (.call (.remote text))) ∈ p.told →
    ∃ request outcome failure, p.Reached q x request ∧ routes.Gives request outcome ∧
      request.refusal? ⟨limits, .generic⟩ outcome = some failure ∧ failure.message = text

theorem Sound.told (h : p.Sound limits q) {x : Issue α} {outcome : Except Failure (Payload α)}
    (hx : x ∈ p.issues) (htold : (x.callback, outcome) ∈ p.told) :
    (∃ failure, outcome = .error failure ∧ failure.isRemote = false) ∨ q.Replied limits x.id outcome := by
  obtain ⟨id, ⟨y, hy, rfl, hcallback⟩, hjustified⟩ := h.founded.endpoint.outcomes _ htold
  obtain rfl := h.numbered.eq_of_callback hy hx hcallback
  exact hjustified

theorem Sound.reached (h : p.Sound limits q) (h' : q.Sound limits p) {x : Issue α} {request : Message α}
    (hrequest : request ∈ q.served) (hid : request.callId = x.id) (hx : x ∈ p.issues) :
    p.Reached q x request := by
  -- The requests that `q` dispatched were said by `p`, though `q` has calls with the same ids.
  obtain ⟨hkind, hsaid⟩ := h'.served request hrequest
  obtain ⟨y, hy, harrives⟩ := hsaid.issued hkind
  have hsame : y.id = x.id := harrives.callId.symm.trans hid
  exact ⟨hrequest, y, hy, harrives, hsame, fun hlength => h.numbered.eq_of_id hlength hy hx hsame⟩

theorem Sound.correlated (h : p.Sound limits q) (h' : q.Sound limits p) :
    p.Correlated limits q.routes q where
  issued r hr := by
    obtain ⟨id, ⟨x, hx, -, hcallback⟩, -⟩ := h.founded.endpoint.outcomes r hr
    refine ⟨x, ⟨hx, hcallback⟩, ?_⟩
    rintro y ⟨hy, hsame⟩
    exact h.numbered.eq_of_callback hy hx (hsame.trans hcallback.symm)
  answered x hx payload htold := by
    obtain ⟨failure, hfailure, -⟩ | ⟨request, hrequest, given, m, hid, hgives, harrives, hbrings⟩ :=
      h.told hx htold
    · cases hfailure
    · obtain ⟨answer, rfl, hsame⟩ := Message.answer_of_reply harrives hbrings
      exact ⟨request, answer, h.reached h' hrequest hid hx, hgives, hsame⟩
  refused x hx text htold := by
    obtain ⟨failure, hfailure, hremote⟩ | ⟨request, hrequest, given, m, hid, hgives, harrives, hbrings⟩ :=
      h.told hx htold
    · cases hfailure
      cases hremote
    · obtain ⟨failure, hrefusal, htext⟩ := Message.refusal_of_reply harrives hbrings
      exact ⟨request, given, failure, h.reached h' hrequest hid hx, hgives, hrefusal, htext⟩

end Peer

namespace Pair

variable {nearOutbound farOutbound : Outbound} {nearTimeout farTimeout : Option Millis}
  {nearRoutes farRoutes : Routes α}

def start (codec : Codec α) (nearOutbound farOutbound : Outbound) (nearTimeout farTimeout : Option Millis)
    (nearRoutes farRoutes : Routes α) : Pair α where
  near := .start codec nearOutbound nearTimeout nearRoutes
  far := .start codec farOutbound farTimeout farRoutes

theorem sound_start (hnear : nearRoutes.Plain) (hfar : farRoutes.Plain) :
    (start ⟨limits, .generic⟩ nearOutbound farOutbound nearTimeout farTimeout nearRoutes
      farRoutes).Sound limits where
  near := Peer.sound_start hnear
  far := Peer.sound_start hfar
  forth := ⟨[], rfl, List.forall_mem_nil _⟩
  back := ⟨[], rfl, List.forall_mem_nil _⟩

/-- Whatever happens between two peers, no callback is told a reply to anything but its own call. -/
theorem run_correlated (hlimits : limits.problems = []) (hnear : nearRoutes.Plain)
    (hfar : farRoutes.Plain) (actions : List (PairAction α)) :
    let s := (start ⟨limits, .generic⟩ nearOutbound farOutbound nearTimeout farTimeout nearRoutes
      farRoutes).run actions
    s.near.Correlated limits farRoutes s.far ∧ s.far.Correlated limits nearRoutes s.near := by
  intro s
  have hsound : s.Sound limits :=
    (sound_start hnear hfar).run (Limits.maxFrameSize_le_maxWord hlimits) actions
  obtain ⟨hnearRoutes, hfarRoutes⟩ : s.near.routes = nearRoutes ∧ s.far.routes = farRoutes :=
    routes_run _ actions
  constructor
  · rw [← hfarRoutes]
    exact hsound.near.correlated hsound.far
  · rw [← hnearRoutes]
    exact hsound.far.correlated hsound.near

def echoing : Routes Empty := ({} : Routes Empty).register "p" (Sample.Behaviour.echo.handler "echo")

theorem plain_echoing : echoing.Plain := by
  intro x hx m
  obtain rfl := List.mem_singleton.1 hx
  refine ⟨.ok (some m.payload), fun e => ⟨rfl, rfl, ?_, rfl⟩⟩
  exact (Trace.outcomes_emit ..).trans (List.append_nil _)

/-- Both sides call each other at the same time, with the same id. -/
def exchange : List (PairAction Empty) :=
  let both (a : PeerAction Empty) : List (PairAction Empty) := [.own .near a, .own .far a]
  let across : List (PairAction Empty) := [.carry .near 64, .carry .far 64]
  [.own .near (.invoke "p" (.ofValues [.bool true]) none false),
    .own .far (.invoke "p" (.ofValues [.bool false]) none false)] ++
  (List.replicate 8 (.step 0 [])).flatMap both ++ both .write ++ across ++ both .read ++
  both (.dispatch 0) ++ both (.serve 0) ++ both (.serve 0) ++ both (.step 1 []) ++ both .write ++ across ++
  both .read ++ both (.dispatch 0) ++ both (.step 2 []) ++ both (.step 2 [])

theorem run_correlated_exchange : Limits.problems {} = [] ∧ echoing.Plain ∧
    let s := (start ⟨{}, .generic⟩ {} {} none none echoing echoing).run exchange
    s.near.told = [(⟨0, false⟩, .ok (.ofValues [.bool true]))] ∧
      s.far.told = [(⟨0, false⟩, .ok (.ofValues [.bool false]))] ∧
      s.near.Correlated {} echoing s.far ∧ s.far.Correlated {} echoing s.near := by
  have hlimits : Limits.problems {} = [] := by decide
  exact ⟨hlimits, plain_echoing, by cbv, by cbv,
    run_correlated hlimits plain_echoing plain_echoing exchange⟩

end Pair
end GraphRpc
