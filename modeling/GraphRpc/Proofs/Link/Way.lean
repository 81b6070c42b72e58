import Mathlib
import GraphRpc.Proofs.Link.Turns

/-!
# The way of a call

A client that issues calls one after another and a server that answers them, joined by a stream of
bytes in each direction. Calls are issued before a transport is attached and after, while requests and
replies are on their way. At all times those that are under way follow one another in the order in
which they were issued.
-/

namespace GraphRpc

variable {α : Type} {codec : Codec α}

-- ---------------------------------------------------------------------------
-- A client and a server
-- ---------------------------------------------------------------------------

/-- The id under which the call is about to enter the table. -/
def InvokePhase.enters? : InvokePhase α → Option UInt64
  | entering id _ => some id
  | _ => none

structure Link (α : Type) where
  client : Station α
  server : Station α
  calling : Option (Invocation α) := none
  /-- The callbacks of all calls, in the order in which these were issued. -/
  submitted : List Callback := []

inductive LinkAction (α : Type) where
  /-- The client begins to issue a call, when it is done with the one before. -/
  | submit (method : String) (payload : Payload α) (awaited : Bool)
  | invoke
  | client (a : StationAction)
  | server (a : StationAction)
  | forth (count : Nat)
  | back (count : Nat)

namespace Link

def start (client server : Station α) : Link α := { client, server }

def idle (s : Link α) : Bool := s.calling.all fun call => (Party.invoke call).finished

def submit (s : Link α) (method : String) (payload : Payload α) (awaited : Bool) : Link α :=
  let (callback, endpoint) := (Endpoint.newCallback awaited).run s.client.endpoint
  { s with
    client := { s.client with endpoint }
    calling := some { method, payload, timeout := none, callback }
    submitted := s.submitted ++ [callback] }

def invoke (s : Link α) (call : Invocation α) : Link α :=
  let (phase, endpoint) := call.step s.client.endpoint
  { s with client := { s.client with endpoint }, calling := some { call with phase } }

def act (s : Link α) : LinkAction α → Link α
  | .submit method payload awaited => if s.idle then s.submit method payload awaited else s
  | .invoke => s.calling.elim s s.invoke
  | .client a => { s with client := s.client.act a }
  | .server a => { s with server := s.server.act a }
  | .forth count =>
    { s with
      client := { s.client with sent := s.client.sent.drop count }
      server := { s.server with received := s.server.received ++ s.client.sent.take count } }
  | .back count =>
    { s with
      client := { s.client with received := s.client.received ++ s.server.sent.take count }
      server := { s.server with sent := s.server.sent.drop count } }

def run (s : Link α) (actions : List (LinkAction α)) : Link α := actions.foldl act s

def entering (s : Link α) : Option UInt64 := s.calling.bind (·.phase.enters?)

def told (s : Link α) : List Callback := s.client.endpoint.trace.outcomes.map Prod.fst

/-- Neither end is closed. -/
def Open (s : Link α) : Prop := s.client.closed = false ∧ s.server.closed = false

/-- No call is about to get the id of one that is still pending. -/
structure Steady (s : Link α) : Prop where
  opened : s.Open
  fresh : ∀ id ∈ s.entering, s.client.endpoint.connection.calls.contains id = false

end Link

-- ---------------------------------------------------------------------------
-- The way of a call
-- ---------------------------------------------------------------------------

namespace InvokePhase

/-- The id of the call whose request is about to be queued. -/
def pushes : InvokePhase α → List UInt64
  | pushing id _ => [id]
  | _ => []

/-- The phase of a call that goes its way without anything in between. -/
def Smooth (codec : Codec α) : InvokePhase α → Prop
  | entering id bytes | pushing id bytes => Spells codec (· = .request) id bytes
  | evicting _ d => d = .done
  | refused .. | withdrawing _ => False
  | _ => True

end InvokePhase

/-- The call ids of the requests in the outbound buffer of the client and on the stream to the server,
and of the replies in the outbound buffer of the server and on the stream to the client. -/
structure Way where
  requests : List UInt64 := []
  forth : List UInt64 := []
  replies : List UInt64 := []
  back : List UInt64 := []

def Way.atClient (w : Way) : Transit := ⟨w.back, w.requests, w.forth⟩

def Way.atServer (w : Way) : Transit := ⟨w.forth, w.replies, w.back⟩

namespace Link

def current {β : Type} (s : Link α) (f : Invocation α → List β) : List β := (s.calling.map f).getD []

/-- The ids of all calls that are under way, oldest first. -/
def path (s : Link α) (w : Way) : List UInt64 :=
  s.client.line.map (·.callId) ++ (w.back ++ w.replies ++ (s.server.line.map (·.callId) ++ w.forth) ++
    w.requests ++ s.current (·.phase.pushes))

def early (s : Link α) : List Callback :=
  s.current fun call => if call.phase.early then [call.callback] else []

structure Sound (codec : Codec α) (s : Link α) (w : Way) : Prop where
  client : s.client.Passes codec (fun kind => kind.isReply) (· = .request) s.server.received s.server.sent
    w.atClient
  server : s.server.Passes codec (· = .request) (fun kind => kind.isReply) s.client.received s.client.sent
    w.atServer
  quiet : ∀ m, s.server.routes.Quiet m
  untimed : s.client.endpoint.connection.callTimeout = none
  calling : ∀ call ∈ s.calling, call.timeout = none ∧ call.phase.Smooth codec
  turn : ∃ before, s.submitted = before ++ s.early ∧
    s.client.endpoint.InTurn s.client.telling (s.path w) before
  numbered : s.submitted.map (·.number) = List.range s.client.endpoint.trace.nextCallback

variable {s : Link α} {w : Way}

theorem current_of_calling {β : Type} {call : Invocation α} (h : s.calling = some call)
    (f : Invocation α → List β) : s.current f = f call := by
  rw [current, h]
  rfl

theorem current_of_idle {β : Type} {f : Invocation α → List β} (h : s.idle)
    (hf : ∀ call id result, call.phase = .returned id result → f call = []) : s.current f = [] := by
  rw [idle] at h
  cases hcall : s.calling with
  | none =>
    rw [current, hcall]
    rfl
  | some call =>
    rw [hcall] at h
    rw [current_of_calling hcall]
    obtain ⟨method, payload, timeout, callback, phase⟩ := call
    cases phase with
    | returned id result => exact hf _ id result rfl
    | _ => cases h

theorem Sound.submit (h : s.Sound codec w) (hidle : s.idle) (method : String) (payload : Payload α)
    (awaited : Bool) : (s.submit method payload awaited).Sound codec w := by
  obtain ⟨hclient, hserver, hquiet, huntimed, hcalling, ⟨before, hsubmitted, hturn⟩, hnumbered⟩ := h
  obtain ⟨⟨hcodec, hpolicy, hkept, hbusy, hkinds, hspells⟩, hcoming, hgone⟩ := hclient
  have hearly : s.early = [] :=
    current_of_idle hidle fun call id result hphase => by rw [hphase]; rfl
  have hpushes : s.current (·.phase.pushes) = [] :=
    current_of_idle hidle fun call id result hphase => by rw [hphase]; rfl
  rw [hearly, List.append_nil] at hsubmitted
  rw [path, hpushes, ← hsubmitted] at hturn
  refine ⟨⟨⟨hcodec, hpolicy, hkept, hbusy, hkinds, hspells⟩, hcoming, hgone⟩, hserver, hquiet, huntimed, ?_,
    ⟨s.submitted, rfl, hturn.still rfl rfl⟩, ?_⟩
  · rintro call ⟨⟩
    exact ⟨rfl, trivial⟩
  · have hnext : (s.submit method payload awaited).client.endpoint.trace.nextCallback =
        s.client.endpoint.trace.nextCallback + 1 := rfl
    rw [hnext, List.range_succ, ← hnumbered]
    exact List.map_append

theorem path_eq (s : Link α) (w : Way) : s.path w =
    s.client.line.map (·.callId) ++ w.back ++ (w.replies ++ s.server.line.map (·.callId)) ++
      (w.forth ++ w.requests) ++ s.current (·.phase.pushes) := by
  simp only [path, List.append_assoc]

theorem Sound.client_act (h : s.Sound codec w) (a : StationAction) (hopen : s.client.closed = false)
    (hopen' : (s.client.act a).closed = false) : ∃ w', (s.act (.client a)).Sound codec w' := by
  obtain ⟨hclient, hserver, hquiet, huntimed, hcalling, ⟨before, hsubmitted, hturn⟩, hnumbered⟩ := h
  obtain ⟨t, hpasses, hmoved⟩ | ⟨handling, hone, hgoes, hact⟩ := hclient.act_cases a hopen hopen'
  · refine ⟨⟨t.queued, t.gone, w.replies, t.coming⟩, hpasses, ⟨hserver.bears, hpasses.gone, hpasses.coming⟩,
      hquiet, hmoved.kept.callTimeout.trans huntimed, hcalling, ⟨before, hsubmitted, ?_⟩, ?_⟩
    · have hline := hmoved.line
      have hout := hmoved.out
      rw [path_eq] at hturn ⊢
      simp only [Way.atClient] at hline hout
      simp only [Link.act, hline, hout, hmoved.telling]
      exact hturn.still hmoved.kept.calls hmoved.kept.outcomes
    · exact hnumbered.trans (congrArg List.range hmoved.kept.nextCallback.symm)
  · obtain ⟨hpasses, honly, hturns⟩ := hclient.dispatch_reply hone hgoes
    rw [Link.act, hact]
    refine ⟨w, hpasses, ⟨hserver.bears, hpasses.gone, hpasses.coming⟩, hquiet,
      honly.callTimeout.trans huntimed, hcalling, ⟨before, hsubmitted, hturns _ _ hturn⟩, ?_⟩
    exact hnumbered.trans (congrArg List.range honly.nextCallback.symm)

theorem Sound.server_act (h : s.Sound codec w) (a : StationAction) (hopen : s.server.closed = false)
    (hopen' : (s.server.act a).closed = false) : ∃ w', (s.act (.server a)).Sound codec w' := by
  obtain ⟨hclient, hserver, hquiet, huntimed, hcalling, ⟨before, hsubmitted, hturn⟩, hnumbered⟩ := h
  have hquiet' : ∀ m, (s.server.act a).routes.Quiet m := by
    rw [s.server.routes_act]
    exact hquiet
  -- What is under way at the server and on both streams gets on or gets lost.
  obtain ⟨t, hpasses, hway⟩ : ∃ t, (s.server.act a).Passes codec (· = .request)
      (fun kind => kind.isReply) s.client.received s.client.sent t ∧
      (t.gone ++ t.queued ++ ((s.server.act a).line.map (·.callId) ++ t.coming)).Sublist
        (w.back ++ w.replies ++ (s.server.line.map (·.callId) ++ w.forth)) := by
    obtain ⟨t, hpasses, hmoved⟩ | ⟨handling, hone, hgoes, hact⟩ := hserver.act_cases a hopen hopen'
    · refine ⟨t, hpasses, ?_⟩
      rw [hmoved.out, hmoved.line]
      exact List.Sublist.refl _
    · rw [hact]
      exact hserver.dispatch_request hquiet hone hgoes
  refine ⟨⟨w.requests, t.coming, t.queued, t.gone⟩, ⟨hclient.bears, hpasses.gone, hpasses.coming⟩, hpasses,
    hquiet', huntimed, hcalling, ⟨before, hsubmitted, hturn.lose ?_⟩, hnumbered⟩
  exact (List.Sublist.refl _).append ((hway.append (List.Sublist.refl _)).append (List.Sublist.refl _))

section
variable {call : Invocation α} {phase : InvokePhase α} {e : Endpoint α}

theorem Sound.prepare (h : s.Sound codec w) (hcall : s.calling = some call)
    (hkept : s.client.endpoint.CallsKept e)
    (hcodec : e.connection.codec = s.client.endpoint.connection.codec)
    (houtbound : e.connection.outbound = s.client.endpoint.connection.outbound)
    (hsmooth : phase.Smooth codec) (hpushes : phase.pushes = call.phase.pushes)
    (hearly : phase.early → call.phase.early) :
    Sound codec { s with
      client := { s.client with endpoint := e }
      calling := some { call with phase } } w := by
  obtain ⟨hclient, hserver, hquiet, huntimed, hcalling, ⟨before, hsubmitted, hturn⟩, hnumbered⟩ := h
  obtain ⟨⟨hbase, hpolicy, hdesk, hbusy, hkinds, hspells⟩, hcoming, hgone⟩ := hclient
  have hpath : s.current (·.phase.pushes) = phase.pushes :=
    (current_of_calling hcall _).trans hpushes.symm
  rw [path, hpath] at hturn
  have hturn' := hturn.still hkept.calls hkept.outcomes
  refine ⟨⟨⟨hcodec.trans hbase, houtbound ▸ hpolicy, hdesk, hbusy, hkinds, ?_⟩, hcoming, hgone⟩, hserver,
    hquiet, hkept.callTimeout.trans huntimed, ?_, ?_,
    hnumbered.trans (congrArg List.range hkept.nextCallback.symm)⟩
  · rw [Station.frames, houtbound]
    exact hspells
  · rintro _ ⟨⟩
    exact ⟨(hcalling call hcall).1, hsmooth⟩
  · by_cases hphase : phase.early
    · have hsame : s.early = [call.callback] := by
        rw [early, current_of_calling hcall, if_pos (hearly hphase)]
      refine ⟨before, hsubmitted.trans ?_, hturn'⟩
      rw [hsame, early, current_of_calling rfl, if_pos hphase]
    · refine ⟨s.submitted, ?_, hturn'.mono (hsubmitted ▸ List.sublist_append_left ..)⟩
      rw [early, current_of_calling rfl, if_neg hphase, List.append_nil]

theorem Sound.enter {id : UInt64} {bytes : ByteArray} (h : s.Sound codec w)
    (hcall : s.calling = some call) (hphase : call.phase = .entering id bytes) (hs : s.Steady) :
    (s.invoke call).Sound codec w := by
  obtain ⟨hclient, hserver, hquiet, huntimed, hcalling, ⟨before, hsubmitted, hturn⟩, hnumbered⟩ := h
  obtain ⟨⟨hcodec, hpolicy, hdesk, hbusy, hkinds, hspells⟩, hcoming, hgone⟩ := hclient
  obtain ⟨htimeout, hsmooth⟩ := hcalling call hcall
  rw [hphase] at hsmooth
  have hfresh : ∀ x ∈ s.client.endpoint.entries, x.1 ≠ id := by
    rintro x hx rfl
    have hnew := hs.fresh x.1 (by rw [entering, hcall, Option.bind_some, hphase]; rfl)
    rw [Calls.contains_iff.2 ⟨x, hx, rfl⟩] at hnew
    cases hnew
  have hearly : s.early = [call.callback] := by
    rw [early, current_of_calling hcall, hphase]
    rfl
  have hpath : s.current (·.phase.pushes) = [] := by
    rw [current_of_calling hcall, hphase]
    rfl
  rw [path, hpath, List.append_nil] at hturn
  simp only [Link.invoke, Invocation.step, hphase]
  refine ⟨⟨⟨hcodec, hpolicy, hdesk, hbusy, hkinds, hspells⟩, hcoming, hgone⟩, hserver, hquiet, huntimed,
    ?_, ⟨before ++ [call.callback], ?_, ?_⟩, hnumbered⟩
  · rintro _ ⟨⟩
    exact ⟨htimeout, hsmooth⟩
  · rw [hsubmitted, hearly]
    exact (List.append_nil _).symm
  · have hentered := hturn.enter call.callback (call.timeout <|> s.client.endpoint.connection.callTimeout)
      hfresh
    rw [List.append_assoc] at hentered
    exact hentered

theorem Sound.push {id : UInt64} {bytes : ByteArray} (h : s.Sound codec w)
    (hcall : s.calling = some call) (hphase : call.phase = .pushing id bytes) :
    (s.invoke call).Sound codec { w with requests := w.requests ++ [id] } := by
  obtain ⟨hclient, hserver, hquiet, huntimed, hcalling, ⟨before, hsubmitted, hturn⟩, hnumbered⟩ := h
  obtain ⟨⟨hcodec, hpolicy, hdesk, hbusy, hkinds, hspells⟩, hcoming, hgone⟩ := hclient
  obtain ⟨htimeout, hsmooth⟩ := hcalling call hcall
  rw [hphase] at hsmooth
  have hearly : s.early = [] := by
    rw [early, current_of_calling hcall, hphase]
    rfl
  have hpath : s.current (·.phase.pushes) = [id] := by
    rw [current_of_calling hcall, hphase]
    rfl
  rw [hearly] at hsubmitted
  rw [path, hpath, List.append_assoc _ w.requests] at hturn
  simp only [Link.invoke, Invocation.step, hphase, Endpoint.push_unbounded hpolicy]
  refine ⟨⟨⟨hcodec, hpolicy, hdesk, hbusy, hkinds, ?_⟩, hcoming, hgone⟩, hserver, hquiet, huntimed, ?_,
    ⟨before, hsubmitted, ?_⟩, hnumbered⟩
  · have hqueued : List.Forall₂ (Spells codec (· = .request)) (w.requests ++ [id])
        ((s.client.endpoint.connection.outbound.frames ++ [(⟨some id, bytes⟩ : OutboundFrame)]).map
          (·.bytes)) := by
      rw [List.map_append]
      exact List.rel_append hspells (.cons hsmooth .nil)
    exact hqueued
  · rintro _ ⟨⟩
    exact ⟨htimeout, rfl⟩
  · rw [← List.append_nil (_ ++ (w.requests ++ [id]))] at hturn
    exact hturn.still rfl ((Trace.outcomes_emit ..).trans (List.append_nil _))

theorem Sound.invoke (h : s.Sound codec w) (hcall : s.calling = some call)
    (hs : s.Steady) : ∃ w', (s.invoke call).Sound codec w' := by
  obtain ⟨htimeout, hsmooth⟩ := h.calling call hcall
  have hopen : s.client.endpoint.connection.closed = false := hs.opened.1
  cases hphase : call.phase with
  | opening =>
    simp only [Link.invoke, Invocation.step, hphase, hopen, Bool.false_eq_true, if_false]
    exact ⟨w, h.prepare hcall (.refl _) rfl rfl trivial (by rw [hphase]; rfl) (by rw [hphase]; exact id)⟩
  | numbering =>
    simp only [Link.invoke, Invocation.step, hphase]
    exact ⟨w, h.prepare hcall ⟨rfl, rfl, rfl, rfl⟩ rfl rfl trivial (by rw [hphase]; rfl)
      (by rw [hphase]; exact id)⟩
  | encoding id =>
    simp only [Link.invoke, Invocation.step, hphase]
    split
    · next bytes hencode =>
      rw [h.client.bears.codec_eq] at hencode
      exact ⟨w, h.prepare hcall (.refl _) rfl rfl ⟨_, rfl, rfl, hencode⟩ (by rw [hphase]; rfl)
        (by rw [hphase]; exact fun _ => rfl)⟩
    · exact ⟨w, h.prepare hcall (.refl _) rfl rfl trivial (by rw [hphase]; rfl) (by rintro ⟨⟩)⟩
  | entering id bytes => exact ⟨w, h.enter hcall hphase hs⟩
  | pushing id bytes => exact ⟨_, h.push hcall hphase⟩
  -- A buffer with unbounded room refuses nothing.
  | refused id failure =>
    rw [hphase] at hsmooth
    exact hsmooth.elim
  | evicting id d =>
    rw [hphase] at hsmooth
    obtain rfl : d = .done := hsmooth
    simp only [Link.invoke, Invocation.step, hphase]
    exact ⟨w, h.prepare hcall (.refl _) rfl rfl trivial (by rw [hphase]; rfl) (by rintro ⟨⟩)⟩
  | rechecking id =>
    simp only [Link.invoke, Invocation.step, hphase, hopen, Bool.false_eq_true, if_false]
    exact ⟨w, h.prepare hcall (.refl _) rfl rfl trivial (by rw [hphase]; rfl) (by rintro ⟨⟩)⟩
  -- Nobody closes, so the call is not taken back.
  | withdrawing id =>
    rw [hphase] at hsmooth
    exact hsmooth.elim
  | arming id =>
    have hnone : (call.timeout <|> s.client.endpoint.connection.callTimeout) = none := by
      rw [htimeout, h.untimed]
      rfl
    simp only [Link.invoke, Invocation.step, hphase, hnone]
    exact ⟨w, h.prepare hcall ⟨rfl, rfl, rfl, rfl⟩ rfl rfl trivial (by rw [hphase]; rfl) (by rintro ⟨⟩)⟩
  | returned id result =>
    simp only [Link.invoke, Invocation.step, hphase]
    exact ⟨w, h.prepare hcall (.refl _) rfl rfl trivial (by rw [hphase]) (by rintro ⟨⟩)⟩

end

theorem Sound.act (h : s.Sound codec w) (a : LinkAction α) (hs : s.Steady) (hs' : (s.act a).Open) :
    ∃ w', (s.act a).Sound codec w' := by
  cases a with
  | submit method payload awaited =>
    simp only [Link.act]
    split
    · next hidle => exact ⟨w, h.submit hidle method payload awaited⟩
    · exact ⟨w, h⟩
  | invoke =>
    simp only [Link.act]
    cases hcall : s.calling with
    | none => exact ⟨w, h⟩
    | some call => exact h.invoke hcall hs
  | client a => exact h.client_act a hs.opened.1 hs'.1
  | server a => exact h.server_act a hs.opened.2 hs'.2
  | forth count =>
    obtain ⟨hclient, hserver, hquiet, huntimed, hcalling, hturn, hnumbered⟩ := h
    exact ⟨w, hclient.depart count, hserver.arrive count, hquiet, huntimed, hcalling, hturn, hnumbered⟩
  | back count =>
    obtain ⟨hclient, hserver, hquiet, huntimed, hcalling, hturn, hnumbered⟩ := h
    exact ⟨w, hclient.arrive count, hserver.depart count, hquiet, huntimed, hcalling, hturn, hnumbered⟩

end Link
end GraphRpc
