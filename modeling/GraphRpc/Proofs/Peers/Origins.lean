import Mathlib
import GraphRpc.Proofs.Calls.Moves
import GraphRpc.Proofs.Interleaving

/-!
# Where outcomes come from

Traffic makes nothing up. What is told to a callback was meant for the id of its call, unless the
connection itself failed that call, and what waits to be sent was either given to be sent or is the
request of a call that was issued.
-/

namespace GraphRpc

variable {α : Type}

def Failure.isRemote : Failure → Bool
  | call (.remote _) => true
  | _ => false

/-- What traffic may rely on: whose a callback is, by the id of its call, which bytes may be sent, and
what may be told to the call under an id. -/
structure Origins (α : Type) where
  codec : Codec α
  owner : UInt64 → Callback → Prop
  sendable : ByteArray → Prop
  justified : UInt64 → Except Failure (Payload α) → Prop
  /-- A failure that no answer brought needs no reason. -/
  unasked : ∀ id failure, failure.isRemote = false → justified id (.error failure)

structure Origins.Le (o o' : Origins α) : Prop where
  codec : o'.codec = o.codec
  owner : ∀ id callback, o.owner id callback → o'.owner id callback
  sendable : ∀ bytes, o.sendable bytes → o'.sendable bytes
  justified : ∀ id outcome, o.justified id outcome → o'.justified id outcome

-- ---------------------------------------------------------------------------
-- What is founded
-- ---------------------------------------------------------------------------

def Effect.outcome? : Effect α → Option (Callback × Except Failure (Payload α))
  | resolved callback outcome => some (callback, outcome)
  | _ => none

def Trace.outcomes (t : Trace α) : List (Callback × Except Failure (Payload α)) :=
  t.effects.filterMap Effect.outcome?

theorem Trace.outcomes_emit (t : Trace α) (effect : Effect α) :
    (t.emit effect).outcomes = t.outcomes ++ effect.outcome?.toList := by
  simp only [outcomes, emit, List.filterMap_append, List.filterMap_cons, List.filterMap_nil]
  cases effect.outcome? <;> rfl

theorem Trace.outcomes_finish (t : Trace α) (callback : Callback)
    (outcome : Except Failure (Payload α)) :
    (t.finish callback outcome).outcomes = t.outcomes ++ [(callback, outcome)] := by
  rw [finish, outcomes_emit]
  rfl

/-- The outcome may be told to the callback. -/
def Origins.Tells (o : Origins α) (callback : Callback) (outcome : Except Failure (Payload α)) : Prop :=
  ∃ id, o.owner id callback ∧ o.justified id outcome

structure Endpoint.Founded (o : Origins α) (e : Endpoint α) : Prop where
  codec : e.connection.codec = o.codec
  frames : ∀ f ∈ e.connection.outbound.frames, o.sendable f.bytes
  entries : ∀ x ∈ e.entries, o.owner x.1 x.2
  outcomes : ∀ x ∈ e.trace.outcomes, o.Tells x.1 x.2

def Deciding.Founded (o : Origins α) : Deciding α → Prop
  | taking id outcome => o.justified id outcome
  | telling call outcome => o.Tells call.callback outcome
  | done => True

def InvokePhase.Founded (o : Origins α) : InvokePhase α → Prop
  | entering _ bytes | pushing _ bytes => o.sendable bytes
  | evicting _ d => d.Founded o
  | _ => True

def ClosingPhase.Founded (o : Origins α) : ClosingPhase α → Prop
  | failing _ d => d.Founded o
  | _ => True

def SendPhase.Founded (o : Origins α) : SendPhase α → Prop
  | pushing bytes => o.sendable bytes
  | evicting d => d.Founded o

def Party.Founded (o : Origins α) : Party α → Prop
  | invoke call => call.phase.Founded o
  | answer d => d.Founded o
  | close failure phase => failure.isRemote = false ∧ phase.Founded o
  | send phase => phase.Founded o

/-- The operation is allowed what it does for itself: to own its callback and to send its request. -/
def Party.Backed (o : Origins α) : Party α → Prop
  | invoke call => ∀ id, call.phase.id? = some id → o.owner id call.callback ∧
      ∀ bytes, (Message.request id call.method call.payload).encode o.codec = .ok bytes → o.sendable bytes
  | _ => True

section
variable {o o' : Origins α} {e e' : Endpoint α}

theorem Origins.Tells.mono {callback : Callback} {outcome : Except Failure (Payload α)}
    (h : o.Tells callback outcome) (hle : o.Le o') : o'.Tells callback outcome := by
  obtain ⟨id, howner, hjust⟩ := h
  exact ⟨id, hle.owner _ _ howner, hle.justified _ _ hjust⟩

theorem Endpoint.Founded.mono (h : e.Founded o) (hle : o.Le o') : e.Founded o' where
  codec := h.codec.trans hle.codec.symm
  frames f hf := hle.sendable _ (h.frames f hf)
  entries x hx := hle.owner _ _ (h.entries x hx)
  outcomes x hx := (h.outcomes x hx).mono hle

theorem Deciding.Founded.mono {d : Deciding α} (h : d.Founded o) (hle : o.Le o') : d.Founded o' := by
  cases d with
  | taking id outcome => exact hle.justified _ _ h
  | telling call outcome => exact Origins.Tells.mono h hle
  | done => exact h

theorem Party.Founded.mono {p : Party α} (h : p.Founded o) (hle : o.Le o') : p.Founded o' := by
  cases p with
  | invoke call =>
    obtain ⟨method, payload, timeout, callback, phase⟩ := call
    cases phase with
    | entering id bytes | pushing id bytes => exact hle.sendable _ h
    | evicting id d => exact Deciding.Founded.mono h hle
    | _ => trivial
  | answer d => exact Deciding.Founded.mono h hle
  | close failure phase =>
    refine ⟨h.1, ?_⟩
    cases phase with
    | failing ids d => exact Deciding.Founded.mono h.2 hle
    | _ => trivial
  | send phase =>
    cases phase with
    | pushing bytes => exact hle.sendable _ h
    | evicting d => exact Deciding.Founded.mono h hle

theorem Endpoint.Founded.of_subset (h : e.Founded o) (hcodec : e'.connection.codec = e.connection.codec)
    (hframes : e'.connection.outbound.frames ⊆ e.connection.outbound.frames)
    (hentries : e'.entries ⊆ e.entries) (houtcomes : e'.trace.outcomes = e.trace.outcomes) :
    e'.Founded o where
  codec := hcodec.trans h.codec
  frames f hf := h.frames f (hframes hf)
  entries x hx := h.entries x (hentries hx)
  outcomes x hx := h.outcomes x (houtcomes ▸ hx)

end

-- ---------------------------------------------------------------------------
-- Deciding a call
-- ---------------------------------------------------------------------------

section
variable {o : Origins α} {e e' : Endpoint α}

theorem Calls.Taken.founded {id : UInt64} {call : PendingCall} {calls : Calls}
    (h : e.connection.calls.Taken id call calls) (he : e.Founded o) :
    o.owner id call.callback ∧
      Endpoint.Founded o { e with connection := { e.connection with calls } } := by
  refine ⟨he.entries _ h.mem, he.of_subset rfl (List.Subset.refl _) ?_ rfl⟩
  intro x hx
  exact (h.mem_of_mem hx).1

theorem Endpoint.Founded.finish {callback : Callback} {outcome : Except Failure (Payload α)}
    (he : e.Founded o) (ht : o.Tells callback outcome) :
    Endpoint.Founded o { e with trace := e.trace.finish callback outcome } where
  codec := he.codec
  frames := he.frames
  entries := he.entries
  outcomes x hx := by
    rw [Trace.outcomes_finish] at hx
    rcases List.mem_append.1 hx with hx | hx
    · exact he.outcomes x hx
    · obtain rfl := List.mem_singleton.1 hx
      exact ht

theorem Deciding.Founded.step {d : Deciding α} (hd : d.Founded o) (he : e.Founded o) :
    (d.step e).1.Founded o ∧ (d.step e).2.Founded o := by
  cases d with
  | taking id outcome =>
    obtain ⟨call, calls, htaken, hrun⟩ | ⟨-, hrun⟩ := withdraw_cases id e
    · simp only [Deciding.step, hrun]
      obtain ⟨howner, he'⟩ := htaken.founded he
      exact ⟨⟨id, howner, hd⟩, he'⟩
    · simp only [Deciding.step, hrun]
      exact ⟨trivial, he⟩
  | telling call outcome => exact ⟨trivial, he.finish hd⟩
  | done => exact ⟨trivial, he⟩

theorem Endpoint.Founded.withdraw (he : e.Founded o) (id : UInt64) :
    ((Endpoint.withdraw id).run e).2.Founded o := by
  obtain ⟨call, calls, htaken, hrun⟩ | ⟨-, hrun⟩ := withdraw_cases id e
  · rw [hrun]
    exact (htaken.founded he).2
  · rw [hrun]
    exact he

theorem Endpoint.Founded.count (he : e.Founded o) (f : Counters → Counters) :
    ((Endpoint.count f).run e).2.Founded o :=
  he.of_subset rfl (List.Subset.refl _) (List.Subset.refl _) rfl

theorem Endpoint.Founded.arm (he : e.Founded o) (id : UInt64) (after : Millis) :
    ((Endpoint.arm id after).run e).2.Founded o := by
  have hentries : (e.connection.calls.arm id (e.trace.now + after)).2.entries = e.entries :=
    Calls.entries_arm
  simp only [Endpoint.arm, StateT.run, modify, modifyGet, MonadStateOf.modifyGet, StateT.modifyGet]
  revert hentries
  generalize e.connection.calls.arm id (e.trace.now + after) = armed
  obtain ⟨timer, calls⟩ := armed
  intro hentries
  have hsub : calls.entries ⊆ e.entries := by
    rw [← hentries]
    exact List.Subset.refl _
  cases timer with
  | none => exact he.of_subset rfl (List.Subset.refl _) hsub rfl
  | some timer =>
    refine he.of_subset rfl (List.Subset.refl _) hsub ?_
    exact (Trace.outcomes_emit ..).trans (List.append_nil _)

theorem Outbound.mem_of_push {q q' : Outbound} {frame : OutboundFrame}
    {evicted : Option OutboundFrame} (h : q.push frame = .ok (evicted, q')) :
    ∀ f ∈ q'.frames, f ∈ q.frames ∨ f = frame := by
  intro f hf
  unfold push at h
  split at h
  · cases h
  split at h
  · cases h
    rcases List.mem_append.1 hf with hf | hf
    · exact .inl (List.mem_of_mem_tail hf)
    · exact .inr (List.mem_singleton.1 hf)
  · cases h
    rcases List.mem_append.1 hf with hf | hf
    · exact .inl hf
    · exact .inr (List.mem_singleton.1 hf)

theorem Endpoint.Founded.push {callId : Option UInt64} {bytes : ByteArray} {d : Deciding α}
    (he : e.Founded o) (hbytes : o.sendable bytes) (h : e.push ⟨callId, bytes⟩ = .ok (d, e')) :
    d.Founded o ∧ e'.Founded o := by
  unfold Endpoint.push at h
  split at h
  · cases h
  next evicted outbound hpush =>
  cases h
  refine ⟨?_, he.codec, ?_, he.entries, ?_⟩
  · unfold Deciding.ofEvicted
    split
    · exact o.unasked _ _ rfl
    · trivial
  · intro f hf
    rcases Outbound.mem_of_push hpush f hf with hf | rfl
    · exact he.frames f hf
    · exact hbytes
  · intro x hx
    rw [Trace.outcomes_emit] at hx
    exact he.outcomes x (by simpa [Effect.outcome?] using hx)

-- ---------------------------------------------------------------------------
-- Steps of one operation
-- ---------------------------------------------------------------------------

theorem Endpoint.Founded.enter {id : UInt64} {callback : Callback} {timeout : Option Millis}
    (he : e.Founded o) (howner : o.owner id callback) :
    ((Endpoint.enterCall id callback timeout).run e).2.Founded o where
  codec := he.codec
  frames := he.frames
  entries x hx := by
    have hentries : ((Endpoint.enterCall id callback timeout).run e).2.entries =
        e.connection.calls.without id ++ [(id, callback)] := Calls.entries_insert
    rw [hentries] at hx
    rcases List.mem_append.1 hx with hx | hx
    · exact he.entries x (Calls.mem_of_mem_without hx).1
    · obtain rfl := List.mem_singleton.1 hx
      exact howner
  outcomes := he.outcomes

theorem Invocation.step_founded {call : Invocation α} (he : e.Founded o) (hp : call.phase.Founded o)
    (hb : (Party.invoke { call with phase := (call.step e).1 }).Backed o) :
    (call.step e).1.Founded o ∧ (call.step e).2.Founded o := by
  obtain ⟨method, payload, timeout, callback, phase⟩ := call
  cases phase with
  | opening =>
    simp only [step]
    split <;> exact ⟨trivial, he⟩
  | numbering =>
    refine ⟨trivial, ?_⟩
    exact he.of_subset rfl (List.Subset.refl _) (List.Subset.refl _) rfl
  | encoding id =>
    simp only [step] at hb ⊢
    split at hb
    · next bytes hencode =>
      rw [he.codec] at hencode
      exact ⟨(hb id rfl).2 bytes hencode, he⟩
    · exact ⟨trivial, he⟩
  | entering id bytes => exact ⟨hp, he.enter (hb id rfl).1⟩
  | pushing id bytes =>
    simp only [step]
    split
    · next hpush => exact he.push hp hpush
    · exact ⟨trivial, he⟩
  | refused id failure => exact ⟨trivial, he.withdraw id⟩
  | evicting id d =>
    by_cases hd : d = .done
    · subst hd
      exact ⟨trivial, he⟩
    · rw [step_evicting rfl hd]
      exact Deciding.Founded.step hp he
  | rechecking id =>
    simp only [step]
    split <;> exact ⟨trivial, he⟩
  | withdrawing id =>
    have hwithdrawn := he.withdraw id
    simp only [step]
    split
    · next hrun =>
      rw [hrun] at hwithdrawn
      exact ⟨trivial, hwithdrawn⟩
    · next hrun =>
      rw [hrun] at hwithdrawn
      exact ⟨trivial, hwithdrawn⟩
  | arming id =>
    simp only [step]
    split
    · exact ⟨trivial, (he.arm _ _).count _⟩
    · exact ⟨trivial, he.count _⟩
  | returned id result => exact ⟨trivial, he⟩

theorem ClosingPhase.step_founded {phase : ClosingPhase α} {failure : Failure} {seen : List UInt64}
    (he : e.Founded o) (hfailure : failure.isRemote = false) (hp : phase.Founded o) :
    (phase.step failure seen e).1.Founded o ∧ (phase.step failure seen e).2.Founded o := by
  cases phase with
  | swapping =>
    simp only [step]
    split
    · exact ⟨trivial, he⟩
    · exact ⟨trivial, he.of_subset rfl (List.Subset.refl _) (List.Subset.refl _) rfl⟩
  | signalling =>
    refine ⟨trivial, he.of_subset rfl (List.Subset.refl _) (List.Subset.refl _) ?_⟩
    exact (Trace.outcomes_emit ..).trans (List.append_nil _)
  | clearing => exact ⟨trivial, he.of_subset rfl (List.nil_subset _) (List.Subset.refl _) rfl⟩
  | listing => exact ⟨trivial, he⟩
  | iterating present =>
    simp only [step]
    split <;> exact ⟨trivial, he⟩
  | failing ids d =>
    by_cases hd : d = .done
    · subst hd
      cases ids with
      | nil => exact ⟨trivial, he⟩
      | cons id ids => exact ⟨o.unasked _ _ hfailure, he⟩
    · rw [step_failing hd]
      exact Deciding.Founded.step hp he
  | returned => exact ⟨trivial, he⟩

theorem SendPhase.step_founded {phase : SendPhase α} (he : e.Founded o) (hp : phase.Founded o) :
    (phase.step e).1.Founded o ∧ (phase.step e).2.Founded o := by
  cases phase with
  | pushing bytes =>
    simp only [step]
    split
    · next hpush => exact he.push hp hpush
    · exact ⟨trivial, he⟩
  | evicting d => exact Deciding.Founded.step hp he

/-- An operation that is allowed what it does for itself does nothing that is unfounded. -/
theorem Party.step_founded {p : Party α} {seen : List UInt64} (he : e.Founded o) (hp : p.Founded o)
    (hb : (p.step seen e).1.Backed o) :
    (p.step seen e).1.Founded o ∧ (p.step seen e).2.Founded o := by
  cases p with
  | invoke call => exact Invocation.step_founded he hp hb
  | answer d => exact Deciding.Founded.step hp he
  | close failure phase =>
    obtain ⟨hphase, he'⟩ : (phase.step failure seen e).1.Founded o ∧
        (phase.step failure seen e).2.Founded o := ClosingPhase.step_founded he hp.1 hp.2
    exact ⟨⟨hp.1, hphase⟩, he'⟩
  | send phase => exact SendPhase.step_founded he hp

end

-- ---------------------------------------------------------------------------
-- Calls that were issued
-- ---------------------------------------------------------------------------

structure Issue (α : Type) where
  id : UInt64
  method : String
  payload : Payload α
  callback : Callback

def Issue.request (x : Issue α) : Message α := .request x.id x.method x.payload

def Party.issue? : Party α → Option (Issue α)
  | invoke call => call.phase.id?.map fun id => ⟨id, call.method, call.payload, call.callback⟩
  | _ => none

theorem Party.issue?_step {p : Party α} {seen : List UInt64} {e : Endpoint α} {x : Issue α}
    (h : p.issue? = some x) : (p.step seen e).1.issue? = some x := by
  cases p with
  | invoke call =>
    simp only [issue?, Option.map_eq_some_iff] at h
    obtain ⟨id, hid, rfl⟩ := h
    have hkept := ((Party.invoke call).move seen e).id? id hid
    exact Option.map_eq_some_iff.2 ⟨id, hkept, rfl⟩
  | answer | close | send => cases h

namespace Traffic

variable {s : Traffic α} {o : Origins α}

def issues (s : Traffic α) : List (Issue α) := s.parties.filterMap Party.issue?

theorem issues_act (a : TrafficAction α) : s.issues.Sublist (s.act a).issues := by
  have happend (p : Party α) : s.issues.Sublist ((s.parties ++ [p]).filterMap Party.issue?) := by
    rw [List.filterMap_append]
    exact List.sublist_append_left ..
  cases a with
  | invoke | answer | close | send => exact happend _
  | step i seen =>
    simp only [act]
    split
    · exact List.Sublist.refl _
    · next p hp =>
      obtain ⟨pre, post, hparties, hset⟩ := exists_split hp
      simp only [issues, hset]
      rw [hparties, List.filterMap_append, List.filterMap_append]
      refine (List.Sublist.refl _).append ?_
      cases hissue : p.issue? with
      | none =>
        rw [List.filterMap_cons_none hissue]
        exact (List.sublist_cons_self ..).filterMap _
      | some x =>
        rw [List.filterMap_cons_some hissue, List.filterMap_cons_some (Party.issue?_step hissue)]
  | fire | deliver | pop =>
    simp only [act]
    split <;> exact List.Sublist.refl _
  | pass ms => exact List.Sublist.refl _

structure Founded (o : Origins α) (s : Traffic α) : Prop where
  endpoint : s.endpoint.Founded o
  parties : ∀ p ∈ s.parties, p.Founded o
  claimed : ∀ callback ∈ s.claimed, ∃ id, o.owner id callback

theorem Founded.mono {o' : Origins α} (h : s.Founded o) (hle : o.Le o') : s.Founded o' where
  endpoint := h.endpoint.mono hle
  parties p hp := (h.parties p hp).mono hle
  claimed callback hmem := by
    obtain ⟨id, howner⟩ := h.claimed callback hmem
    exact ⟨id, hle.owner _ _ howner⟩

end Traffic

/-- What is done to traffic from outside has a reason. -/
def TrafficAction.Founded (o : Origins α) : TrafficAction α → Prop
  | answer message => o.justified message.callId message.outcome
  | close failure => failure.isRemote = false
  | send bytes => o.sendable bytes
  | _ => True

theorem TrafficAction.Founded.mono {o o' : Origins α} {a : TrafficAction α} (h : a.Founded o)
    (hle : o.Le o') : a.Founded o' := by
  cases a with
  | answer message => exact hle.justified _ _ h
  | send bytes => exact hle.sendable _ h
  | _ => exact h

namespace Traffic

variable {s : Traffic α} {o : Origins α}

theorem Founded.begin {p : Party α} {e : Endpoint α} (h : s.Founded o) (he : e.Founded o)
    (hp : p.Founded o) : Founded o { s with endpoint := e, parties := s.parties ++ [p] } where
  endpoint := he
  parties := List.forall_mem_append.2 ⟨h.parties, List.forall_mem_singleton.2 hp⟩
  claimed := h.claimed

theorem Founded.fire (h : s.Founded o) (timer : Timer) : (s.act (.fire timer)).Founded o := by
  simp only [act]
  split
  · cases hfire : s.endpoint.connection.calls.fire timer with
    | mk call calls =>
      rw [Endpoint.timeOut_run hfire]
      cases call with
      | none =>
        have hentries : calls.entries ⊆ s.endpoint.entries := by
          rw [Calls.fire_none hfire]
          exact List.Subset.refl _
        refine ⟨h.endpoint.of_subset rfl (List.Subset.refl _) hentries rfl, h.parties, ?_⟩
        simpa using h.claimed
      | some call =>
        obtain ⟨howner, he⟩ := (Calls.fire_some hfire).founded h.endpoint
        refine ⟨he, h.parties, ?_⟩
        exact List.forall_mem_append.2 ⟨h.claimed, List.forall_mem_singleton.2 ⟨_, howner⟩⟩
  · exact h

theorem Founded.deliver (h : s.Founded o) (i : Nat) : (s.act (.deliver i)).Founded o := by
  simp only [act]
  split
  · exact h
  · next callback hcallback =>
    obtain ⟨id, howner⟩ := h.claimed callback (List.mem_of_getElem? hcallback)
    refine ⟨h.endpoint.finish ⟨id, howner, o.unasked _ _ rfl⟩, h.parties, ?_⟩
    intro callback hmem
    exact h.claimed callback (List.mem_of_mem_eraseIdx hmem)

/-- With every operation allowed what it does for itself, an action with a reason leaves everything
founded. -/
theorem Founded.act {a : TrafficAction α} (h : s.Founded o) (ha : a.Founded o)
    (hb : ∀ p ∈ (s.act a).parties, p.Backed o) : (s.act a).Founded o := by
  cases a with
  | invoke method payload timeout awaited =>
    exact h.begin (h.endpoint.of_subset rfl (List.Subset.refl _) (List.Subset.refl _) rfl) trivial
  | answer message => exact h.begin h.endpoint ha
  | close failure => exact h.begin h.endpoint ⟨ha, trivial⟩
  | send bytes => exact h.begin h.endpoint ha
  | step i seen =>
    simp only [Traffic.act] at hb ⊢
    split
    · exact h
    next p hp =>
    rw [hp] at hb
    have hset {q : Party α} (hq : q ∈ s.parties.set i (p.step seen s.endpoint).1) :
        q ∈ s.parties ∨ q = (p.step seen s.endpoint).1 := List.mem_or_eq_of_mem_set hq
    have hnew : (p.step seen s.endpoint).1 ∈ s.parties.set i (p.step seen s.endpoint).1 :=
      List.mem_set (List.getElem?_eq_some_iff.1 hp).1 _
    obtain ⟨hp', he'⟩ := Party.step_founded h.endpoint (h.parties p (List.mem_of_getElem? hp))
      (hb _ hnew)
    refine ⟨he', ?_, h.claimed⟩
    intro q hq
    rcases hset hq with hq | rfl
    · exact h.parties q hq
    · exact hp'
  | fire timer => exact h.fire timer
  | deliver i => exact h.deliver i
  | pop =>
    simp only [Traffic.act, Outbound.pop?]
    split
    · exact h
    · next hpop =>
      split at hpop
      · cases hpop
      · next frame rest hframes =>
        cases hpop
        refine ⟨h.endpoint.of_subset rfl ?_ (List.Subset.refl _) rfl, h.parties, h.claimed⟩
        rw [hframes]
        exact List.subset_cons_self ..
  | pass ms =>
    exact ⟨h.endpoint.of_subset rfl (List.Subset.refl _) (List.Subset.refl _) rfl, h.parties, h.claimed⟩

end Traffic
end GraphRpc
