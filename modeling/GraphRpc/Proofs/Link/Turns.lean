import Mathlib
import GraphRpc.Proofs.Link.Passage

/-!
# Turns

The calls of a connection have their turn in the order in which they were issued: those that were told,
then the one that was taken to be told, then those whose request or reply is still under way.
-/

namespace GraphRpc

variable {α : Type} {codec : Codec α}

/-- The callbacks that were told, those that were taken, and those of the calls whose ids are under way
come in the order of `calls`. -/
structure Endpoint.InTurn (e : Endpoint α) (telling : List Callback) (way : List UInt64)
    (calls : List Callback) : Prop where
  distinct : e.connection.calls.Distinct
  nodup : way.Nodup
  sublist : ∃ flow : List (UInt64 × Callback), flow.map Prod.fst = way ∧ flow ⊆ e.entries ∧
    (e.trace.outcomes.map Prod.fst ++ telling ++ flow.map Prod.snd).Sublist calls

namespace Endpoint.InTurn

variable {e e' : Endpoint α} {telling calls calls' : List Callback} {way way' : List UInt64} {id : UInt64}

theorem mono (h : e.InTurn telling way calls) (hcalls : calls.Sublist calls') :
    e.InTurn telling way calls' := by
  obtain ⟨hdistinct, hnodup, flow, hway, hentries, hsublist⟩ := h
  exact ⟨hdistinct, hnodup, flow, hway, hentries, hsublist.trans hcalls⟩

/-- What is under way may get lost. -/
theorem lose (h : e.InTurn telling way calls) (hway' : way'.Sublist way) :
    e.InTurn telling way' calls := by
  obtain ⟨hdistinct, hnodup, flow, rfl, hentries, hsublist⟩ := h
  obtain ⟨flow', hflow', rfl⟩ := List.sublist_map_iff.1 hway'
  refine ⟨hdistinct, hnodup.sublist hway', flow', rfl, fun x hx => hentries (hflow'.subset hx), ?_⟩
  exact ((List.Sublist.refl _).append (hflow'.map Prod.snd)).trans hsublist

theorem still (h : e.InTurn telling way calls) (hcalls : e'.connection.calls = e.connection.calls)
    (houtcomes : e'.trace.outcomes = e.trace.outcomes) : e'.InTurn telling way calls := by
  obtain ⟨hdistinct, hnodup, flow, hway, hentries, hsublist⟩ := h
  refine ⟨hcalls ▸ hdistinct, hnodup, flow, hway, ?_, ?_⟩
  · rw [Endpoint.entries, hcalls]
    exact hentries
  · rw [houtcomes]
    exact hsublist

/-- A call that enters the table under a new id is the last one. -/
theorem enter (h : e.InTurn telling way calls) (callback : Callback) (timeout : Option Millis)
    (hfresh : ∀ x ∈ e.entries, x.1 ≠ id) :
    ((enterCall id callback timeout).run e).2.InTurn telling (way ++ [id]) (calls ++ [callback]) := by
  obtain ⟨hdistinct, hnodup, flow, rfl, hentries, hsublist⟩ := h
  have hentries' : ((enterCall id callback timeout).run e).2.entries =
      e.connection.calls.without id ++ [(id, callback)] := Calls.entries_insert
  have hnew : id ∉ flow.map Prod.fst := by
    intro hmem
    obtain ⟨x, hx, hid⟩ := List.mem_map.1 hmem
    exact hfresh x (hentries hx) hid
  refine ⟨hdistinct.insert, ?_, flow ++ [(id, callback)], List.map_append, ?_, ?_⟩
  · rw [← List.concat_eq_append]
    exact hnodup.concat hnew
  · rw [hentries']
    intro x hx
    rcases List.mem_append.1 hx with hx | hx
    · refine List.mem_append_left _ ((Calls.mem_without_or id (hentries hx)).resolve_right ?_)
      exact hfresh x (hentries hx)
    · exact List.mem_append_right _ hx
  · rw [List.map_append, ← List.append_assoc]
    exact hsublist.append (List.Sublist.refl _)

/-- Whoever takes the call of the oldest message gets the next callback. -/
theorem take (h : e.InTurn [] (id :: way) calls) (outcome : Except Failure (Payload α)) :
    let next := (Deciding.taking id outcome).step e
    next.2.InTurn (DispatchPhase.deciding next.1).telling way calls := by
  obtain ⟨hdistinct, hnodup, flow, hway, hentries, hsublist⟩ := h
  obtain ⟨⟨head, callback⟩, flow, rfl, rfl, rfl⟩ := List.map_eq_cons_iff.1 hway
  obtain ⟨hnew, hothers⟩ := List.nodup_cons.1 hnodup
  obtain ⟨hhead, hrest⟩ := List.cons_subset.1 hentries
  obtain ⟨call, left, htaken, hrun⟩ | ⟨hnone, -⟩ := withdraw_cases head e
  · obtain rfl : call.callback = callback :=
      congrArg Prod.snd (hdistinct.eq_of_mem htaken.mem hhead rfl)
    simp only [Deciding.step, hrun]
    refine ⟨htaken.distinct hdistinct, hothers, flow, rfl, fun x hx => ?_, ?_⟩
    · refine (htaken.kept hdistinct (hrest hx)).resolve_right ?_
      rintro rfl
      exact hnew (List.mem_map_of_mem hx)
    · rw [List.append_nil] at hsublist
      rw [DispatchPhase.telling, List.append_assoc]
      exact hsublist
  · exact (hnone _ hhead rfl).elim

theorem tell {callback : Callback} (h : e.InTurn [callback] way calls)
    (outcome : Except Failure (Payload α)) :
    InTurn { e with trace := e.trace.finish callback outcome } [] way calls := by
  obtain ⟨hdistinct, hnodup, flow, hway, hentries, hsublist⟩ := h
  refine ⟨hdistinct, hnodup, flow, hway, hentries, ?_⟩
  rw [Trace.outcomes_finish, List.map_append, List.append_nil]
  exact hsublist

end Endpoint.InTurn

-- ---------------------------------------------------------------------------
-- Completing calls
-- ---------------------------------------------------------------------------

/-- Calls were taken out of the table at most. -/
structure Endpoint.CallsOnly (e e' : Endpoint α) : Prop where
  codec : e'.connection.codec = e.connection.codec
  outbound : e'.connection.outbound = e.connection.outbound
  callTimeout : e'.connection.callTimeout = e.connection.callTimeout
  nextCallId : e'.connection.nextCallId = e.connection.nextCallId
  entries : e'.entries ⊆ e.entries
  nextCallback : e'.trace.nextCallback = e.trace.nextCallback

theorem Endpoint.CallsOnly.of_connection {e e' : Endpoint α} (h : e'.connection = e.connection)
    (hnext : e'.trace.nextCallback = e.trace.nextCallback) : CallsOnly e e' := by
  refine ⟨congrArg _ h, congrArg _ h, congrArg _ h, congrArg _ h, ?_, hnext⟩
  rw [Endpoint.entries, h]
  exact List.Subset.refl _

theorem Deciding.callsOnly_step (d : Deciding α) (e : Endpoint α) : Endpoint.CallsOnly e (d.step e).2 := by
  cases d with
  | taking id outcome =>
    obtain ⟨call, calls, htaken, hrun⟩ | ⟨-, hrun⟩ := withdraw_cases id e
    · simp only [step, hrun]
      exact ⟨rfl, rfl, rfl, rfl, fun x hx => (htaken.mem_of_mem hx).1, rfl⟩
    · simp only [step, hrun]
      exact .of_connection rfl rfl
  | telling call outcome => exact .of_connection rfl rfl
  | done => exact .of_connection rfl rfl

section
variable {routes : Routes α} {m : Message α} {phase : DispatchPhase α} {e : Endpoint α}

theorem DispatchPhase.ofMessage_reply (h : m.kind.isReply) :
    ofMessage m = deciding (.taking m.callId m.outcome) := by
  unfold ofMessage
  cases hkind : m.kind with
  | response | error => rfl
  | request | oneWay =>
    rw [hkind] at h
    cases h

theorem DispatchPhase.Of.reply_cases (hof : phase.Of m) (hreply : m.kind.isReply)
    (hgoes : phase.finished = false) : phase = .starting ∨
      (∃ outcome, phase = .deciding (.taking m.callId outcome)) ∨
      ∃ call outcome, phase = .deciding (.telling call outcome) := by
  cases phase with
  | starting => exact .inl rfl
  | deciding d =>
    cases d with
    | taking id outcome =>
      obtain rfl := hof.2
      exact .inr (.inl ⟨outcome, rfl⟩)
    | telling call outcome => exact .inr (.inr ⟨call, outcome, rfl⟩)
    | done => cases hgoes
  | serving phase =>
    rw [show m.kind = .request from hof] at hreply
    cases hreply
  | noticing =>
    rw [show m.kind = .oneWay from hof] at hreply
    cases hreply

theorem step_taking (id : UInt64) (outcome : Except Failure (Payload α)) (e : Endpoint α) :
    let next := ((Deciding.taking id outcome).step e).1
    (DispatchPhase.deciding next).passed ∧
      ∀ m : Message α, m.kind ≠ .request → (DispatchPhase.deciding next).Of m := by
  obtain ⟨call, calls, -, hrun⟩ | ⟨-, hrun⟩ := withdraw_cases id e
  · simp only [Deciding.step, hrun]
    exact ⟨rfl, fun _ hkind => hkind⟩
  · simp only [Deciding.step, hrun]
    exact ⟨rfl, fun _ hkind => hkind⟩

theorem step_reply (hof : phase.Of m) (hreply : m.kind.isReply) (hgoes : phase.finished = false) :
    e.CallsOnly (phase.step routes m e).2 ∧ (phase.step routes m e).1.Of m := by
  have hkind : m.kind ≠ .request := by
    intro hkind
    rw [hkind] at hreply
    cases hreply
  obtain rfl | ⟨outcome, rfl⟩ | ⟨call, outcome, rfl⟩ := hof.reply_cases hreply hgoes
  · exact ⟨.of_connection rfl rfl, DispatchPhase.ofMessage_of m⟩
  · exact ⟨(Deciding.taking m.callId outcome).callsOnly_step e, (step_taking m.callId outcome e).2 m hkind⟩
  · exact ⟨(Deciding.telling call outcome).callsOnly_step e, hkind⟩

/-- The dispatch of the oldest reply lets its call have its turn. -/
theorem Endpoint.InTurn.reply {calls : List Callback} {way : List UInt64} (hof : phase.Of m)
    (hreply : m.kind.isReply) (hgoes : phase.finished = false)
    (h : e.InTurn phase.telling (if phase.passed then way else m.callId :: way) calls) :
    let next := phase.step routes m e
    next.2.InTurn next.1.telling (if next.1.passed then way else m.callId :: way) calls := by
  obtain rfl | ⟨outcome, rfl⟩ | ⟨call, outcome, rfl⟩ := hof.reply_cases hreply hgoes
  · simp only [DispatchPhase.step, DispatchPhase.ofMessage_reply hreply]
    exact h.still rfl rfl
  · obtain ⟨hpassed, -⟩ := step_taking m.callId outcome e
    simp only [DispatchPhase.step, hpassed, if_true]
    exact h.take outcome
  · exact h.tell outcome

end

/-- A reply that is dispatched lets its call have its turn. -/
theorem Station.Passes.dispatch_reply {x : Station α} {ahead behind : List UInt8} {t : Transit}
    {h : Handling α}
    (hx : x.Passes codec (fun kind => kind.isReply) (· = .request) ahead behind t)
    (hone : x.handlings = [h]) (hgoes : h.phase.finished = false) :
    let x' := x.dispatch h
    x'.Passes codec (fun kind => kind.isReply) (· = .request) ahead behind t ∧
      x.endpoint.CallsOnly x'.endpoint ∧
      ∀ way calls, x.endpoint.InTurn x.telling (x.line.map (·.callId) ++ way) calls →
        x'.endpoint.InTurn x'.telling (x'.line.map (·.callId) ++ way) calls := by
  obtain ⟨hbears, hcoming, hgone⟩ := hx
  obtain ⟨-, hof, hwaiting⟩ := hbears.waiting_eq hone
  have hreply : h.message.kind.isReply :=
    hbears.kinds h.message (by rw [hwaiting]; exact List.mem_cons_self)
  obtain ⟨honly, hof'⟩ : x.endpoint.CallsOnly (x.dispatch h).endpoint ∧ _ := step_reply hof hreply hgoes
  obtain ⟨hline, hline'⟩ := hbears.line_dispatch hone
  refine ⟨⟨hbears.dispatch hone honly.codec (congrArg _ honly.outbound) hof' ?_, hcoming, hgone⟩, honly,
    fun way calls hturn => ?_⟩
  · rw [Station.frames, honly.outbound]
    exact hbears.spells
  · have hway (passed : Bool) : (if passed then (x.desk.step h.hand).waiting
        else h.message :: (x.desk.step h.hand).waiting).map (·.callId) ++ way =
        if passed then (x.desk.step h.hand).waiting.map (·.callId) ++ way
        else h.message.callId :: ((x.desk.step h.hand).waiting.map (·.callId) ++ way) := by
      cases passed <;> rfl
    have htelling : x.telling = h.phase.telling := by
      rw [Station.telling, hone, List.flatMap_singleton]
    have htelling' : (x.dispatch h).telling = (h.phase.step x.routes h.message x.endpoint).1.telling :=
      List.flatMap_singleton ..
    rw [hline, hway, htelling] at hturn
    rw [hline', hway, htelling']
    exact hturn.reply hof hreply hgoes

end GraphRpc
