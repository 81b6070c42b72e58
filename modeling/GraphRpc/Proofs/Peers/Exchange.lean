import Mathlib
import GraphRpc.Proofs.Delivery
import GraphRpc.Proofs.Peers.Numbering
import GraphRpc.Proofs.Peers.Pair

/-!
# What peers say to each other

Each side says the requests of its calls and the replies to the requests that it served, and nothing
else gets to the other side. So all that a side queues, serves and tells its callbacks has a reason,
which is kept by whatever either side does.
-/

namespace GraphRpc

open Wire

variable {α : Type} {limits : Limits}

-- ---------------------------------------------------------------------------
-- What a side says
-- ---------------------------------------------------------------------------

namespace Peer

def issues (p : Peer α) : List (Issue α) := p.traffic.issues

/-- What a side has reason to send: the requests of its calls, and replies to the requests it served. -/
inductive Says (limits : Limits) (p : Peer α) : Message α → Prop
  | request {x : Issue α} (hx : x ∈ p.issues) : Says limits p x.request
  | reply {request : Message α} {outcome : Except Failure (Option (Payload α))}
    (hrequest : request ∈ p.served) (hgives : p.routes.Gives request outcome) :
    Says limits p (request.reply ⟨limits, .generic⟩ outcome)

def Sends (limits : Limits) (p : Peer α) (bytes : ByteArray) : Prop :=
  ∃ m, p.Says limits m ∧ m.EncodesTo limits bytes

/-- The message is something that this side said, as it arrives at the other one. -/
def Said (limits : Limits) (p : Peer α) (m : Message α) : Prop :=
  ∃ m', p.Says limits m' ∧ m'.Arrives m

/-- This side replied to a request with this id, and the reply brings this outcome. -/
def Replied (limits : Limits) (p : Peer α) (id : UInt64) (outcome : Except Failure (Payload α)) : Prop :=
  ∃ request ∈ p.served, ∃ given m, request.callId = id ∧ p.routes.Gives request given ∧
    (request.reply ⟨limits, .generic⟩ given).Arrives m ∧ m.outcome = outcome

/-- What is under way from `p` to `q` are frames that `p` sends. -/
def Carries (limits : Limits) (p q : Peer α) : Prop :=
  ∃ payloads : List ByteArray, q.received ++ p.sent = payloads.flatMap Frame.spell ∧
    ∀ bytes ∈ payloads, p.Sends limits bytes

structure Grows (p p' : Peer α) : Prop where
  routes : p'.routes = p.routes
  issues : p.issues ⊆ p'.issues
  served : p.served ⊆ p'.served

/-- The reasons that one side has, in view of the other side. -/
def origins (limits : Limits) (p q : Peer α) : Origins α where
  codec := ⟨limits, .generic⟩
  owner id callback := ∃ x ∈ p.issues, x.id = id ∧ x.callback = callback
  sendable := p.Sends limits
  justified id outcome :=
    (∃ failure, outcome = .error failure ∧ failure.isRemote = false) ∨ q.Replied limits id outcome
  unasked _ failure h := .inl ⟨failure, rfl, h⟩

variable {p p' p'' q q' : Peer α}

theorem Grows.refl (p : Peer α) : p.Grows p := ⟨rfl, List.Subset.refl _, List.Subset.refl _⟩

theorem Grows.trans (h : p.Grows p') (h' : p'.Grows p'') : p.Grows p'' :=
  ⟨h'.routes.trans h.routes, List.Subset.trans h.issues h'.issues, List.Subset.trans h.served h'.served⟩

theorem Grows.still (hroutes : p'.routes = p.routes) (hissues : p'.issues = p.issues)
    (hserved : p'.served = p.served) : p.Grows p' := by
  refine ⟨hroutes, ?_, ?_⟩
  · rw [hissues]
    exact List.Subset.refl _
  · rw [hserved]
    exact List.Subset.refl _

theorem Says.mono {m : Message α} (h : p.Says limits m) (hgrows : p.Grows p') : p'.Says limits m := by
  cases h with
  | request hx => exact .request (hgrows.issues hx)
  | reply hrequest hgives => exact .reply (hgrows.served hrequest) (hgrows.routes ▸ hgives)

theorem Sends.mono {bytes : ByteArray} (h : p.Sends limits bytes) (hgrows : p.Grows p') :
    p'.Sends limits bytes := by
  obtain ⟨m, hsays, hencodes⟩ := h
  exact ⟨m, hsays.mono hgrows, hencodes⟩

theorem Said.mono {m : Message α} (h : p.Said limits m) (hgrows : p.Grows p') : p'.Said limits m := by
  obtain ⟨m', hsays, harrives⟩ := h
  exact ⟨m', hsays.mono hgrows, harrives⟩

theorem Replied.mono {id : UInt64} {outcome : Except Failure (Payload α)}
    (h : p.Replied limits id outcome) (hgrows : p.Grows p') : p'.Replied limits id outcome := by
  obtain ⟨request, hserved, given, m, hid, hgives, hrest⟩ := h
  exact ⟨request, hgrows.served hserved, given, m, hid, hgrows.routes ▸ hgives, hrest⟩

theorem Carries.mono (h : p.Carries limits q) (hgrows : p.Grows p') (hsent : p'.sent = p.sent)
    (hreceived : q'.received = q.received) : p'.Carries limits q' := by
  obtain ⟨payloads, hstream, hsends⟩ := h
  refine ⟨payloads, ?_, fun bytes hmem => (hsends bytes hmem).mono hgrows⟩
  rw [hsent, hreceived, hstream]

theorem origins_mono (hp : p.Grows p') (hq : q.Grows q') :
    (p.origins limits q).Le (p'.origins limits q') where
  codec := rfl
  owner id callback := by
    rintro ⟨x, hx, hid, hcallback⟩
    exact ⟨x, hp.issues hx, hid, hcallback⟩
  sendable bytes h := h.mono hp
  justified id outcome h := h.imp_right fun h => h.mono hq

/-- A reply that was said is one to a request that was served. -/
theorem Said.replied {m : Message α} (h : p.Said limits m) (hreply : m.kind.isReply) :
    p.Replied limits m.callId m.outcome := by
  obtain ⟨m', hsays, harrives⟩ := h
  cases hsays with
  | request hx =>
    rw [harrives.kind] at hreply
    cases hreply
  | reply hrequest hgives =>
    obtain ⟨-, -, hid, -⟩ := Message.reply_for ⟨limits, .generic⟩ _ _
    exact ⟨_, hrequest, _, m, hid.symm.trans harrives.callId.symm, hgives, harrives, rfl⟩

/-- A request that was said is that of a call. -/
theorem Said.issued {m : Message α} (h : p.Said limits m) (hkind : m.kind = .request) :
    ∃ x ∈ p.issues, x.request.Arrives m := by
  obtain ⟨m', hsays, harrives⟩ := h
  cases hsays with
  | request hx => exact ⟨_, hx, harrives⟩
  | reply hrequest hgives =>
    obtain ⟨-, hreply, -⟩ := Message.reply_for ⟨limits, .generic⟩ _ _
    rw [← harrives.kind, hkind] at hreply
    cases hreply

-- ---------------------------------------------------------------------------
-- What keeps a side sound
-- ---------------------------------------------------------------------------

/-- All that one side does and is told has a reason, in view of the other side. -/
structure Sound (limits : Limits) (p q : Peer α) : Prop where
  plain : p.routes.Plain
  founded : p.traffic.Founded (p.origins limits q)
  numbered : p.traffic.Numbered
  queued : ∀ m ∈ p.queued, q.Said limits m
  served : ∀ m ∈ p.served, m.kind = .request ∧ q.Said limits m
  serving : ∀ x ∈ p.serving, x.request ∈ p.served ∧ x.Sound ⟨limits, .generic⟩ p.routes

theorem sound_start {outbound : Outbound} {callTimeout : Option Millis} {routes : Routes α}
    (hplain : routes.Plain) : (start ⟨limits, .generic⟩ outbound callTimeout routes).Sound limits q where
  plain := hplain
  founded := ⟨⟨rfl, List.forall_mem_nil _, List.forall_mem_nil _, List.forall_mem_nil _⟩,
    List.forall_mem_nil _, List.forall_mem_nil _⟩
  numbered := Traffic.numbered_start ..
  queued := List.forall_mem_nil _
  served := List.forall_mem_nil _
  serving := List.forall_mem_nil _

theorem Sound.mono (h : p.Sound limits q) (hgrows : q.Grows q') : p.Sound limits q' where
  plain := h.plain
  founded := h.founded.mono (origins_mono (.refl p) hgrows)
  numbered := h.numbered
  queued m hm := (h.queued m hm).mono hgrows
  served m hm := (h.served m hm).imp_right fun hsaid => hsaid.mono hgrows
  serving := h.serving

theorem Sound.codec_eq (h : p.Sound limits q) : p.codec = ⟨limits, .generic⟩ := h.founded.endpoint.codec

theorem Sound.transfer (h : p.Sound limits q) (htraffic : p'.traffic = p.traffic)
    (hroutes : p'.routes = p.routes) (hserved : p'.served = p.served)
    (hqueued : ∀ m ∈ p'.queued, q.Said limits m)
    (hserving : ∀ x ∈ p'.serving, x.request ∈ p.served ∧ x.Sound ⟨limits, .generic⟩ p.routes) :
    p'.Sound limits q := by
  have hgrows : p.Grows p' := .still hroutes (by rw [issues, issues, htraffic]) hserved
  refine ⟨hroutes ▸ h.plain, ?_, htraffic ▸ h.numbered, hqueued, hserved ▸ h.served, ?_⟩
  · rw [htraffic]
    exact h.founded.mono (origins_mono hgrows (.refl q))
  · rw [hserved, hroutes]
    exact hserving

theorem grows_on (p : Peer α) (a : TrafficAction α) : p.Grows (p.on a) :=
  ⟨rfl, (Traffic.issues_act a).subset, List.Subset.refl _⟩

theorem grows_put (p : Peer α) (e : Endpoint α) : p.Grows (p.put e) :=
  .still rfl rfl rfl

theorem grows_fail (p : Peer α) (failure : Failure) : p.Grows (p.fail failure) := by
  unfold Peer.fail
  split
  · exact .refl p
  · exact (p.grows_put _).trans (grows_on ..)

theorem grows_readFailed (p : Peer α) (why : Failure) : p.Grows (p.readFailed why) := by
  have hclosing := ((p.grows_put _).trans (grows_fail (p.count Counters.decodeFailed) why)).trans
    (grows_on _ (.close .closed))
  exact hclosing.trans (.still rfl rfl rfl)

theorem grows_write (p : Peer α) : p.Grows p.write := by
  unfold Peer.write
  split
  · exact .refl p
  split
  · exact ⟨rfl, (Traffic.issues_act .pop).subset, List.Subset.refl _⟩
  · next why _ =>
    have hfail := (p.grows_on .pop).trans (grows_fail _ (.frame why))
    exact hfail.trans (.still rfl rfl rfl)

theorem grows_read (p : Peer α) : p.Grows p.read := by
  unfold Peer.read
  split
  · exact .still rfl rfl rfl
  · exact (p.grows_put _).trans (grows_readFailed ..)
  · exact p.grows_readFailed _
  · exact .refl p

theorem grows_dispatch (p : Peer α) (m : Message α) : p.Grows (p.dispatch m) := by
  unfold Peer.dispatch
  split
  · exact p.grows_on _
  · exact p.grows_on _
  · exact ⟨rfl, List.Subset.refl _, List.subset_append_left ..⟩
  · exact p.grows_put _

theorem grows_serve (p : Peer α) (i : Nat) (x : Service α) : p.Grows (p.serve i x) := by
  unfold Peer.serve
  generalize x.step p.routes p.endpoint = r
  obtain ⟨phase, e, bytes⟩ := r
  have hput : p.Grows { p.put e with serving := p.serving.set i { x with phase } } := .still rfl rfl rfl
  cases bytes with
  | none => exact hput
  | some bytes => exact hput.trans (grows_on _ (.send bytes))

theorem grows_act (p : Peer α) (a : PeerAction α) : p.Grows (p.act a) := by
  cases a with
  | invoke | close | step | fire | deliver | pass => exact p.grows_on _
  | write =>
    simp only [act]
    split
    · exact p.grows_write
    · exact .refl p
  | read =>
    simp only [act]
    split
    · exact p.grows_read
    · exact .refl p
  | dispatch i =>
    simp only [act]
    split
    · exact .refl p
    · next m _ =>
      have hcount : p.Grows { p.count Counters.dispatched with queued := p.queued.eraseIdx i } :=
        .still rfl rfl rfl
      exact hcount.trans (grows_dispatch _ m)
  | serve i =>
    simp only [act]
    split
    · exact .refl p
    · exact p.grows_serve i _

theorem backed (p q : Peer α) : ∀ party ∈ p.traffic.parties, party.Backed (p.origins limits q) := by
  intro party hparty
  cases party with
  | invoke call =>
    intro id hid
    have hissue : (⟨id, call.method, call.payload, call.callback⟩ : Issue α) ∈ p.issues :=
      List.mem_filterMap.2 ⟨_, hparty, Option.map_eq_some_iff.2 ⟨id, hid, rfl⟩⟩
    refine ⟨⟨_, hissue, rfl, rfl⟩, fun bytes hencode => ?_⟩
    exact ⟨_, .request hissue, rfl, hencode⟩
  | answer | close | send => trivial

theorem Sound.on {a : TrafficAction α} (h : p.Sound limits q) (ha : a.Founded (p.origins limits q)) :
    (p.on a).Sound limits q where
  plain := h.plain
  founded := by
    -- If the action gives a call its id, then the request of that call is one more thing to say.
    have hle : (p.origins limits q).Le ((p.on a).origins limits q) := origins_mono (p.grows_on a) (.refl q)
    exact (h.founded.mono hle).act (ha.mono hle) (backed (p.on a) q)
  numbered := h.numbered.act a
  queued := h.queued
  served := h.served
  serving := h.serving

theorem Sound.put {e : Endpoint α} (h : p.Sound limits q) (he : Endpoint.Aside p.endpoint e) :
    (p.put e).Sound limits q where
  plain := h.plain
  founded := by
    obtain ⟨hconnection, houtcomes, -⟩ := he
    have hendpoint : e.Founded (p.origins limits q) := by
      refine h.founded.endpoint.of_subset ?_ ?_ ?_ houtcomes
      · rw [hconnection]
        rfl
      · rw [hconnection]
        exact List.Subset.refl _
      · rw [Endpoint.entries, hconnection]
        exact List.Subset.refl _
    have hfounded : Traffic.Founded (p.origins limits q) (p.put e).traffic :=
      ⟨hendpoint, h.founded.parties, h.founded.claimed⟩
    exact hfounded.mono (origins_mono (p.grows_put e) (.refl q))
  numbered := by
    refine h.numbered.still he.nextCallback ?_
    rw [he.connection]
    rfl
  queued := h.queued
  served := h.served
  serving := h.serving

theorem Sound.count (h : p.Sound limits q) (f : Counters → Counters) : (p.count f).Sound limits q :=
  h.put (.count ..)

theorem Sound.fail (h : p.Sound limits q) (failure : Failure) : (p.fail failure).Sound limits q := by
  have haside : Endpoint.Aside p.endpoint ((Endpoint.emit (.faulted failure)).run p.endpoint).2 :=
    ⟨rfl, (Trace.outcomes_emit ..).trans (List.append_nil _), rfl⟩
  unfold Peer.fail
  split
  · exact h
  · exact (h.put haside).on rfl

theorem Sound.dispatch {m : Message α} (h : p.Sound limits q) (hm : q.Said limits m) :
    (p.dispatch m).Sound limits q := by
  unfold Peer.dispatch
  split
  · next hkind => exact h.on (.inr (hm.replied (by rw [hkind]; rfl)))
  · next hkind => exact h.on (.inr (hm.replied (by rw [hkind]; rfl)))
  · next hkind =>
    -- Only what this side may say gets more: the replies to the request.
    have hgrows : p.Grows { p with
        served := p.served ++ [m]
        serving := p.serving ++ [⟨m, .invoking⟩] } :=
      ⟨rfl, List.Subset.refl _, List.subset_append_left ..⟩
    refine ⟨h.plain, h.founded.mono (origins_mono hgrows (.refl q)), h.numbered, h.queued, ?_, ?_⟩
    · exact List.forall_mem_append.2 ⟨h.served, List.forall_mem_singleton.2 ⟨hkind, hm⟩⟩
    · refine List.forall_mem_append.2 ⟨fun x hx => ?_, List.forall_mem_singleton.2 ⟨?_, trivial⟩⟩
      · exact ⟨hgrows.served (h.serving x hx).1, (h.serving x hx).2⟩
      · exact List.mem_append_right _ (List.mem_singleton_self m)
  · obtain ⟨outcome, hgives⟩ := h.plain.gives m
    exact h.put ((hgives p.endpoint).2.trans (.tally ..))

-- ---------------------------------------------------------------------------
-- What one side does
-- ---------------------------------------------------------------------------

/-- One side is sound, and so is what is under way from it and to it. -/
structure Joined (limits : Limits) (p q : Peer α) : Prop where
  sound : p.Sound limits q
  out : p.Carries limits q
  into : q.Carries limits p

theorem Joined.still (h : p.Joined limits q) (hsound : p'.Sound limits q) (hgrows : p.Grows p')
    (hsent : p'.sent = p.sent) (hreceived : p'.received = p.received) : p'.Joined limits q :=
  ⟨hsound, h.out.mono hgrows hsent rfl, h.into.mono (.refl q) rfl hreceived⟩

theorem Joined.on {a : TrafficAction α} (h : p.Joined limits q) (ha : a.Founded (p.origins limits q)) :
    (p.on a).Joined limits q :=
  h.still (h.sound.on ha) (p.grows_on a) rfl rfl

theorem Joined.write (h : p.Joined limits q) (hword : limits.maxFrameSize ≤ maxWord) :
    p.write.Joined limits q := by
  obtain ⟨hsound, hout, hin⟩ := h
  unfold Peer.write
  split
  · exact ⟨hsound, hout, hin⟩
  next frame outbound hpop =>
  have hframe : frame ∈ p.endpoint.connection.outbound.frames := by
    unfold Outbound.pop? at hpop
    split at hpop
    · cases hpop
    · next hframes =>
      cases hpop
      rw [hframes]
      exact List.mem_cons_self
  have hsends : p.Sends limits frame.bytes := hsound.founded.endpoint.frames frame hframe
  obtain ⟨m, hsays, hencodes⟩ := hsends
  -- What was encoded is short enough for a frame, so that writing does not fail.
  have hbuild := Frame.build_ok.2 ⟨hencodes.within hword, rfl⟩
  rw [hsound.codec_eq]
  dsimp only
  rw [hbuild]
  dsimp only
  have hnext := (hsound.on (a := .pop) trivial).count (Counters.frameSent frame.bytes.size)
  obtain ⟨payloads, hstream, hall⟩ := hout
  have hgrows : p.Grows { (p.on .pop).count (Counters.frameSent frame.bytes.size) with
      sent := p.sent ++ (Frame.spell frame.bytes).toByteArray.data.toList } :=
    ⟨rfl, (Traffic.issues_act .pop).subset, List.Subset.refl _⟩
  refine ⟨hnext.transfer rfl rfl rfl hnext.queued hnext.serving,
    ⟨payloads ++ [frame.bytes], ?_, fun bytes hmem => ?_⟩, hin⟩
  · rw [List.flatMap_append, List.flatMap_singleton, ← hstream, List.data_toByteArray, List.append_assoc]
  · rcases List.mem_append.1 hmem with hmem | hmem
    · exact (hall bytes hmem).mono hgrows
    · obtain rfl := List.mem_singleton.1 hmem
      exact Sends.mono ⟨m, hsays, hencodes⟩ hgrows

/-- What arrives are frames, and each of them holds something that the other side said. -/
theorem Joined.read (h : p.Joined limits q) (hword : limits.maxFrameSize ≤ maxWord) :
    p.read.Joined limits q := by
  obtain ⟨hsound, hout, payloads, hstream, hsends⟩ := h
  have hwithin : ∀ payload ∈ payloads, Within payload.size limits.maxFrameSize := by
    intro payload hmem
    obtain ⟨m, -, hencodes⟩ := hsends payload hmem
    exact hencodes.within hword
  unfold Peer.read
  rw [hsound.codec_eq, Arrival.next]
  -- Whatever has arrived is short of a frame or starts with one that the other side sent.
  obtain ⟨missing, hparse⟩ | ⟨payload, payloads, rest, rfl, hbuffer, hrest, hparse⟩ :=
    Frame.parse_stream hwithin hstream
  · rw [hparse]
    exact ⟨hsound, hout, payloads, hstream, hsends⟩
  · obtain ⟨⟨m, hsays, hencodes⟩, hsends⟩ := List.forall_mem_cons.1 hsends
    obtain ⟨m', hdecode, harrives⟩ := hencodes.arrivesIn hword
    rw [hparse]
    dsimp only at hdecode ⊢
    rw [hdecode, hbuffer, List.drop_left]
    have hnext := hsound.count (Counters.frameReceived payload.size)
    have hgrows : p.Grows { p.count (Counters.frameReceived payload.size) with
        received := rest
        queued := p.queued ++ [m'] } := .still rfl rfl rfl
    refine ⟨hnext.transfer rfl rfl rfl ?_ hnext.serving, hout.mono hgrows rfl rfl, payloads, hrest, hsends⟩
    exact List.forall_mem_append.2 ⟨hsound.queued, List.forall_mem_singleton.2 ⟨m, hsays, harrives⟩⟩

theorem Joined.serve {i : Nat} {x : Service α} (h : p.Joined limits q) (hx : p.serving[i]? = some x) :
    (p.serve i x).Joined limits q := by
  obtain ⟨hrequest, hserving⟩ := h.sound.serving x (List.mem_of_getElem? hx)
  have hstep := Service.step_sound hserving h.sound.plain h.sound.codec_eq
  unfold Peer.serve
  generalize x.step p.routes p.endpoint = r at hstep ⊢
  obtain ⟨phase, e, bytes⟩ := r
  obtain ⟨hphase, haside, hsends⟩ := hstep
  have hnext : Joined limits { p.put e with serving := p.serving.set i { x with phase } } q := by
    refine h.still ((h.sound.put haside).transfer rfl rfl rfl h.sound.queued ?_) (.still rfl rfl rfl) rfl rfl
    intro y hy
    rcases List.mem_or_eq_of_mem_set hy with hy | rfl
    · exact h.sound.serving y hy
    · exact ⟨hrequest, hphase⟩
  cases bytes with
  | none => exact hnext
  | some bytes =>
    obtain ⟨outcome, hgives, hencode⟩ := hsends bytes rfl
    obtain ⟨hversion, -⟩ := Message.reply_for ⟨limits, .generic⟩ x.request outcome
    exact hnext.on ⟨_, .reply hrequest hgives, hversion, hencode⟩

theorem Joined.dispatch {m : Message α} (h : p.Joined limits q) (hm : q.Said limits m) :
    (p.dispatch m).Joined limits q := by
  have hstill : (p.dispatch m).sent = p.sent ∧ (p.dispatch m).received = p.received := by
    unfold Peer.dispatch
    split <;> exact ⟨rfl, rfl⟩
  exact h.still (h.sound.dispatch hm) (p.grows_dispatch m) hstill.1 hstill.2

theorem Joined.act (h : p.Joined limits q) (hword : limits.maxFrameSize ≤ maxWord) (a : PeerAction α) :
    (p.act a).Joined limits q := by
  cases a with
  | invoke | step | fire | deliver | pass => exact h.on trivial
  | close => exact h.on rfl
  | write =>
    simp only [Peer.act]
    split
    · exact h.write hword
    · exact h
  | read =>
    simp only [Peer.act]
    split
    · exact h.read hword
    · exact h
  | dispatch i =>
    simp only [Peer.act]
    split
    · exact h
    next m hm =>
    have hcount := h.sound.count Counters.dispatched
    have hnext : Joined limits { p.count Counters.dispatched with queued := p.queued.eraseIdx i } q := by
      refine h.still (hcount.transfer rfl rfl rfl ?_ hcount.serving) ?_ rfl rfl
      · exact fun m hmem => h.sound.queued m (List.mem_of_mem_eraseIdx hmem)
      · exact .still rfl rfl rfl
    exact hnext.dispatch (h.sound.queued m (List.mem_of_getElem? hm))
  | serve i =>
    simp only [Peer.act]
    split
    · exact h
    next x hx =>
    exact h.serve hx

end Peer
end GraphRpc
