import Mathlib
import GraphRpc.Proofs.Accounts.Balance
import GraphRpc.Proofs.Delivery
import GraphRpc.Proofs.Inbound.Stopping
import GraphRpc.Proofs.Outbound.Sending

/-!
# Connections in use

Whatever is done to a new connection, one operation after another, the ids in its table and in its
buffer are ids that it has given, and once it is closed there are none. So the next id is nobody's,
which is what sending relies on. Main statement: sending that fails changes nothing, sending that
succeeds adds what it sends after making room for it and nothing else, and the ids go up.
-/

namespace GraphRpc

open Endpoint

variable {α : Type}

-- ---------------------------------------------------------------------------
-- Ids in use
-- ---------------------------------------------------------------------------

/-- The connection uses `codec` and has given `n` ids. The calls that are pending or wait to be sent
have some of them, and there are none if it is closed. -/
structure Connection.Kept (codec : Codec α) (c : Connection α) (n : Nat) : Prop where
  codec_eq : c.codec = codec
  numbered : c.Numbered n
  frames : ∀ frame ∈ c.outbound.frames, ∀ id, frame.callId = some id → id ∈ firstIds n
  shut : c.closed → c.calls.pending = [] ∧ c.outbound.frames = []

namespace Connection.Kept

variable {codec : Codec α} {e e' : Endpoint α} {n : Nat}

theorem notMem_firstIds (hn : n < 2 ^ 64) : UInt64.ofNat (n + 1) ∉ firstIds n := by
  have hnodup := nodup_firstIds (Nat.succ_le_of_lt hn)
  rw [firstIds_succ, List.nodup_append] at hnodup
  exact fun hmem => hnodup.2.2 _ hmem _ (List.mem_singleton_self _) rfl

theorem lacks (h : e.connection.Kept codec n) (hn : n < 2 ^ 64) :
    e.connection.calls.Lacks e.connection.nextCallId :=
  fun _ hcall => h.numbered.fresh hn _ (List.mem_map_of_mem hcall)

theorem frames_ne (h : e.connection.Kept codec n) (hn : n < 2 ^ 64) :
    ∀ frame ∈ e.connection.outbound.frames, frame.callId ≠ some e.connection.nextCallId :=
  fun frame hframe hid =>
    notMem_firstIds hn (h.numbered.nextCallId_eq ▸ h.frames frame hframe _ hid)

theorem new (codec : Codec α) (policy : OverflowPolicy) (capacity : Nat) (callTimeout : Option Millis) :
    Kept codec { codec, outbound := { policy, capacity }, callTimeout } 0 where
  codec_eq := rfl
  numbered := ⟨List.nodup_nil, rfl, nofun⟩
  frames := nofun
  shut := nofun

/-- Calls come to an outcome, frames leave or are added that issue no call, and what is closed stays
closed and empty. -/
theorem quiet (h : e.connection.Kept codec n) (hsettles : Settles e e')
    (hcodec : e'.connection.codec = e.connection.codec)
    (hframes : ∀ frame ∈ e'.connection.outbound.frames,
      frame ∈ e.connection.outbound.frames ∨ frame.callId = none)
    (hshut : e'.connection.closed →
      (e.connection.closed ∧ e'.connection.outbound.frames ⊆ e.connection.outbound.frames) ∨
        (e'.connection.calls.pending = [] ∧ e'.connection.outbound.frames = [])) :
    e'.connection.Kept codec n where
  codec_eq := hcodec.trans h.codec_eq
  numbered := h.numbered.settles hsettles
  frames frame hframe id hid := by
    obtain hold | hnone := hframes frame hframe
    · exact h.frames frame hold id hid
    · rw [hnone] at hid
      cases hid
  shut hclosed := by
    obtain ⟨hwas, hsubset⟩ | hempty := hshut hclosed
    · obtain ⟨hpending, hbuffer⟩ := h.shut hwas
      have hentries := hsettles.subset
      simp only [Calls.entries, hpending, List.map_nil, List.subset_nil, List.map_eq_nil_iff] at hentries
      rw [hbuffer, List.subset_nil] at hsubset
      exact ⟨hentries, hsubset⟩
    · exact hempty

end Connection.Kept

-- ---------------------------------------------------------------------------
-- Operations that issue nothing
-- ---------------------------------------------------------------------------

namespace Endpoint

variable {codec : Codec α} {e : Endpoint α} {n : Nat}

theorem mem_pushFrame {bytes : ByteArray} {frame : OutboundFrame}
    (h : frame ∈ ((pushFrame none bytes).exec e).2.connection.outbound.frames) :
    frame ∈ e.connection.outbound.frames ∨ frame.callId = none := by
  rw [exec_pushFrame] at h
  cases hpush : e.push ⟨none, bytes⟩ with
  | error fault =>
    rw [hpush] at h
    exact .inl h
  | ok pushed =>
    rw [hpush] at h
    dsimp only at h
    rw [(becomes_push hpush).connection] at h
    obtain hold | hnew := List.mem_append.1 h
    · exact .inl (Outbound.makeRoom_subset _ hold)
    · exact .inr (by rw [List.mem_singleton.1 hnew])

theorem kept_sending (h : e.connection.Kept codec n) (m : Message α) :
    (sending m e).connection.Kept codec n := by
  unfold sending
  cases hclosed : e.connection.closed with
  | true => exact h
  | false =>
    simp only [Bool.false_eq_true, if_false]
    cases m.encode e.connection.codec with
    | error failure => exact h
    | ok bytes =>
      have hharmless := harmless_pushFrame none bytes e
      have hsettles := settles_pushFrame h.numbered.distinct none bytes
      refine h.quiet hsettles hharmless.codec_eq (fun frame => mem_pushFrame) fun hnow => ?_
      rw [hharmless.closed_eq, hclosed] at hnow
      cases hnow

theorem kept_calls (h : e.connection.Kept codec n) {calls : Calls} {trace : Trace α}
    (hsettles : Settles e { connection := { e.connection with calls }, trace }) :
    Connection.Kept codec { e.connection with calls } n :=
  h.quiet hsettles rfl (fun _ => .inl) fun hclosed => .inl ⟨hclosed, fun _ hframe => hframe⟩

theorem kept_expire (h : e.connection.Kept codec n) (timer : Timer) :
    ((expire timer).run e).2.connection.Kept codec n := by
  have hsettles := settles_expire h.numbered.distinct timer
  simp only [expire, StateT.run_bind] at hsettles ⊢
  cases hfire : e.connection.calls.fire timer with
  | mk call calls =>
    rw [timeOut_run hfire] at hsettles ⊢
    cases call with
    | none => exact kept_calls h hsettles
    | some call => exact kept_calls h hsettles

theorem kept_closeWith (h : e.connection.Kept codec n) (failure : Failure) :
    ((closeWith failure).run e).2.connection.Kept codec n := by
  have hsettles := settles_closeWith h.numbered.distinct failure
  rw [closeWith_run] at hsettles ⊢
  cases hclosed : e.connection.closed with
  | true => exact h
  | false =>
    simp only [hclosed, Bool.false_eq_true, if_false] at hsettles ⊢
    have hnodup : (e.connection.calls.pending.map (·.callId)).Nodup := by
      have hd := h.numbered.distinct
      simpa [Calls.Distinct, Calls.entries, Function.comp_def] using hd
    obtain ⟨hnil, -⟩ :=
      @Calls.failEach_pending α failure _ e.connection.calls (e.trace.emit .closeSignalled) rfl hnodup
    exact h.quiet hsettles rfl (fun _ hframe => (List.not_mem_nil hframe).elim)
      fun _ => .inr ⟨hnil, rfl⟩

-- ---------------------------------------------------------------------------
-- Operations that issue something
-- ---------------------------------------------------------------------------

theorem mem_firstIds_succ {id : UInt64} (h : id ∈ firstIds n) : id ∈ firstIds (n + 1) := by
  rw [firstIds_succ]
  exact List.mem_append_left _ h

theorem kept_numbered (h : e.connection.Kept codec n) : e.numbered.connection.Kept codec (n + 1) where
  codec_eq := h.codec_eq
  numbered := numbered_numbered h.numbered
  frames frame hframe id hid := mem_firstIds_succ (h.frames frame hframe id hid)
  shut := h.shut

theorem kept_queue (h : e.connection.Kept codec n) (hopen : e.connection.closed = false)
    {callId : Option UInt64} (hid : ∀ id, callId = some id → id = e.connection.nextCallId)
    (bytes : ByteArray) {calls : Calls}
    (hdistinct : calls.Distinct) (hids : ∀ x ∈ calls.entries, x.1 ∈ firstIds (n + 1)) :
    Connection.Kept codec { e.connection with
      outbound := e.roomMade.connection.outbound.queue ⟨callId, bytes⟩
      calls, nextCallId := e.connection.nextCallId + 1 } (n + 1) where
  codec_eq := h.codec_eq
  numbered := ⟨hdistinct, (numbered_numbered h.numbered).nextCallId_eq, hids⟩
  frames frame hframe id hcall := by
    rw [connection_roomMade] at hframe
    obtain hold | hnew := List.mem_append.1 hframe
    · exact mem_firstIds_succ (h.frames frame (Outbound.makeRoom_subset _ hold) id hcall)
    · rw [List.mem_singleton.1 hnew] at hcall
      rw [hid id hcall, h.numbered.nextCallId_eq, firstIds_succ]
      exact List.mem_append_right _ (List.mem_singleton_self _)
  shut hclosed := by
    rw [hopen] at hclosed
    cases hclosed

theorem entries_roomMade (e : Endpoint α) :
    e.roomMade.connection.calls.entries.Sublist e.connection.calls.entries :=
  (sublist_roomMade e).map _

theorem distinct_roomMade (h : e.connection.calls.Distinct) :
    e.roomMade.connection.calls.Distinct := h.sublist ((entries_roomMade e).map _)

variable {e' : Endpoint α} {bytes : ByteArray}

theorem kept_sent (h : e.connection.Kept codec n) (hopen : e.connection.closed = false)
    (hsent : e.Sent e' e.connection.nextCallId bytes) : e'.connection.Kept codec (n + 1) := by
  have hnobody : ∀ id, (none : Option UInt64) = some id → id = e.connection.nextCallId := nofun
  rw [hsent.connection]
  refine kept_queue h hopen hnobody bytes (distinct_roomMade h.numbered.distinct) fun x hx => ?_
  exact mem_firstIds_succ (h.numbered.ids x ((entries_roomMade e).subset hx))

theorem kept_issued {callback : Callback} {timeout : Option Millis} (h : e.connection.Kept codec n)
    (hn : n < 2 ^ 64) (hopen : e.connection.closed = false)
    (hissued : e.Issued e' e.connection.nextCallId callback timeout bytes) :
    e'.connection.Kept codec (n + 1) := by
  have hentries (deadline : Option Millis) :
      (e.roomMade.connection.calls.issue e.connection.nextCallId callback deadline).entries =
        e.roomMade.connection.calls.entries ++ [(e.connection.nextCallId, callback)] := by
    simp [Calls.issue, Calls.entries]
  rw [hissued.connection]
  refine kept_queue h hopen (fun id hid => (Option.some.inj hid).symm) bytes ?_ fun x hx => ?_
  · rw [Calls.Distinct, hentries, List.map_append, List.map_singleton, ← List.concat_eq_append]
    refine (distinct_roomMade h.numbered.distinct).concat fun hmem => ?_
    obtain ⟨x, hx, hid⟩ := List.mem_map.1 hmem
    exact h.numbered.fresh hn x ((entries_roomMade e).subset hx) hid
  · rw [hentries] at hx
    obtain hold | hnew := List.mem_append.1 hx
    · exact mem_firstIds_succ (h.numbered.ids x ((entries_roomMade e).subset hold))
    · rw [List.mem_singleton.1 hnew, h.numbered.nextCallId_eq, firstIds_succ]
      exact List.mem_append_right _ (List.mem_singleton_self _)

theorem kept_unmoved (h : e.connection.Kept codec n) (hunmoved : e.Unmoved e') :
    ∃ k, n ≤ k ∧ k ≤ n + 1 ∧ e'.connection.Kept codec k := by
  obtain rfl | rfl := hunmoved
  · exact ⟨n, le_rfl, Nat.le_succ n, h⟩
  · exact ⟨n + 1, Nat.le_succ n, le_rfl, kept_numbered h⟩

end Endpoint

-- ---------------------------------------------------------------------------
-- Any operations
-- ---------------------------------------------------------------------------

/-- An operation that was done to a connection that had given `n` ids: whether it gave one more, and
which id is the answer, if one is. -/
structure Operation.Upheld (codec : Codec α) (operation : Operation α) (n : Nat)
    (r : Option (Except Failure UInt64) × Endpoint α) (k : Nat) : Prop where
  le : n ≤ k
  le_issues : k ≤ n + operation.issues.toNat
  kept : r.2.connection.Kept codec k
  answer : ∀ id, r.1 = some (.ok id) → id = UInt64.ofNat (n + 1) ∧ k = n + 1

namespace Operation

variable {codec : Codec α} {e : Endpoint α} {n : Nat}

theorem upheld_of_kept {operation : Operation α} {e' : Endpoint α}
    (h : e'.connection.Kept codec n) : operation.Upheld codec n (none, e') n :=
  ⟨le_rfl, Nat.le_add_right .., h, nofun⟩

theorem upheld_of_exec {operation : Operation α} {r : Except Failure UInt64 × Endpoint α}
    (called : Endpoint α)
    (hcalled : called.connection.Kept codec n) (hissues : operation.issues)
    (hr : (∃ failure e', r = (.error failure, e') ∧ called.Unmoved e') ∨
      ∃ e', r = (.ok called.connection.nextCallId, e') ∧ e'.connection.Kept codec (n + 1)) :
    ∃ k, operation.Upheld codec n (some r.1, r.2) k := by
  obtain ⟨failure, e', rfl, hunmoved⟩ | ⟨e', rfl, hkept⟩ := hr
  · obtain ⟨k, hle, hk, hkept⟩ := kept_unmoved hcalled hunmoved
    exact ⟨k, hle, by rwa [hissues], hkept, fun id hid => by cases hid⟩
  · refine ⟨n + 1, Nat.le_succ n, by rw [hissues]; exact le_rfl, hkept, fun id hid => ⟨?_, rfl⟩⟩
    cases hid
    exact hcalled.numbered.nextCallId_eq

theorem upheld (operation : Operation α) (h : e.connection.Kept codec n) (hn : n < 2 ^ 64) :
    ∃ k, operation.Upheld codec n (operation.perform e) k := by
  cases operation with
  | invoke method payload timeout awaited =>
    -- Giving out a callback leaves the connection alone.
    let called : Endpoint α := ((newCallback awaited).run e).2
    have hcalled : called.connection.Kept codec n := h
    refine upheld_of_exec called hcalled rfl ?_
    obtain hfailed | ⟨bytes, e', hrun, hopen, -, hissued⟩ :=
      invoke_cases method payload timeout ((newCallback awaited).run e).1 (hcalled.lacks hn)
        (hcalled.frames_ne hn)
    · exact .inl hfailed
    · exact .inr ⟨e', hrun, kept_issued hcalled hn hopen hissued⟩
  | notify method payload =>
    refine upheld_of_exec e h rfl ?_
    obtain hfailed | ⟨bytes, e', hrun, hopen, -, hsent⟩ := notify_cases method payload e
    · exact .inl hfailed
    · exact .inr ⟨e', hrun, kept_sent h hopen hsent⟩
  | respond request payload =>
    refine ⟨n, upheld_of_kept ?_⟩
    have hrun := exec_respond (e := e) request (some payload)
    rw [Option.getD_some] at hrun
    rw [hrun]
    exact kept_sending h _
  | complete message =>
    refine ⟨n, upheld_of_kept ?_⟩
    have hsettles := settles_completeCall h.numbered.distinct message
    rw [completeCall_eq_finish, ← resolve_eq_finish] at hsettles ⊢
    exact kept_calls h hsettles
  | expire timer =>
    refine ⟨n, upheld_of_kept ?_⟩
    split
    · exact kept_expire h timer
    · exact h
  | close failure => exact ⟨n, upheld_of_kept (kept_closeWith h failure)⟩
  | take =>
    cases hframes : e.connection.outbound.frames with
    | nil =>
      simp only [perform, Outbound.pop?_nil hframes]
      exact ⟨n, upheld_of_kept h⟩
    | cons frame rest =>
      simp only [perform, Outbound.pop?_cons hframes]
      have hsubset : rest ⊆ e.connection.outbound.frames := hframes ▸ List.subset_cons_self ..
      exact ⟨n, upheld_of_kept (h.quiet (.still h.numbered.distinct rfl rfl rfl) rfl
        (fun _ hframe => .inl (hsubset hframe)) fun hclosed => .inl ⟨hclosed, hsubset⟩)⟩

end Operation

-- ---------------------------------------------------------------------------
-- Runs
-- ---------------------------------------------------------------------------

namespace Endpoint

variable {codec : Codec α} {e : Endpoint α} {n : Nat}

def act (e : Endpoint α) (step : Millis × Operation α) :
    Option (Except Failure UInt64) × Endpoint α :=
  step.2.perform { e with trace := { e.trace with now := e.trace.now + step.1 } }

def run (e : Endpoint α) (steps : List (Millis × Operation α)) : Endpoint α :=
  steps.foldl (fun e step => (e.act step).2) e

def returned? : Option (Except Failure UInt64) → Option UInt64
  | some (.ok id) => some id
  | _ => none

theorem returned?_eq_some {answer : Option (Except Failure UInt64)} {id : UInt64}
    (h : returned? answer = some id) : answer = some (.ok id) := by
  unfold returned? at h
  split at h
  · rw [Option.some.inj h]
  · cases h

/-- The ids that the operations of a run return, in this order. -/
def ids (e : Endpoint α) : List (Millis × Operation α) → List UInt64
  | [] => []
  | step :: steps => (returned? (e.act step).1).toList ++ ids (e.act step).2 steps

def issues (steps : List (Millis × Operation α)) : Nat := steps.countP (·.2.issues)

theorem issues_cons (step : Millis × Operation α) (steps : List (Millis × Operation α)) :
    issues (step :: steps) = step.2.issues.toNat + issues steps := by
  have hone : (if step.2.issues then 1 else 0) = step.2.issues.toNat := by
    cases step.2.issues <;> rfl
  rw [issues, List.countP_cons, hone, Nat.add_comm]
  rfl

/-- What a run keeps: the ids it returns go up and are those that were given since it began. -/
theorem kept_run (h : e.connection.Kept codec n) (steps : List (Millis × Operation α))
    (hfew : n + issues steps < 2 ^ 64) :
    (∃ k ≤ n + issues steps, (e.run steps).connection.Kept codec k) ∧
      (∀ id ∈ e.ids steps, n < id.toNat) ∧ (e.ids steps).Pairwise (· < ·) := by
  induction steps generalizing e n with
  | nil => exact ⟨⟨n, le_rfl, h⟩, nofun, .nil⟩
  | cons step steps ih =>
    rw [issues_cons] at hfew ⊢
    have hlater : ({ e with trace := { e.trace with now := e.trace.now + step.1 } } :
      Endpoint α).connection.Kept codec n := h
    obtain ⟨k, hstep⟩ := step.2.upheld hlater (by omega)
    have hle := hstep.le
    have hissues := hstep.le_issues
    obtain ⟨⟨last, hlast, hkept⟩, hids, hpairs⟩ := ih hstep.kept (by omega)
    refine ⟨⟨last, by omega, hkept⟩, ?_⟩
    cases hanswer : returned? (e.act step).1 with
    | none =>
      simp only [ids, hanswer, Option.toList_none, List.nil_append]
      exact ⟨fun id hid => hle.trans_lt (hids id hid), hpairs⟩
    | some id =>
      obtain ⟨rfl, rfl⟩ := hstep.answer id (returned?_eq_some hanswer)
      have hid : (UInt64.ofNat (n + 1)).toNat = n + 1 := by
        rw [UInt64.toNat_ofNat', Nat.mod_eq_of_lt (by omega)]
      simp only [ids, hanswer, Option.toList_some, List.singleton_append, List.forall_mem_cons,
        List.pairwise_cons]
      refine ⟨⟨by omega, fun id hmem => ?_⟩, fun id hmem => ?_, hpairs⟩
      · have := hids id hmem
        omega
      · have := hids id hmem
        exact UInt64.lt_iff_toNat_lt.2 (by omega)

end Endpoint

-- ---------------------------------------------------------------------------
-- Sending at any time
-- ---------------------------------------------------------------------------

/-- The bytes are those of a message of this kind, under this id and for this method. -/
def Codec.Reads (codec : Codec α) (bytes : ByteArray) (kind : MessageKind) (id : UInt64)
    (method : String) : Prop :=
  ∃ m, Message.decode codec bytes.data.toList = .ok m ∧
    m.kind = kind ∧ m.callId = id ∧ m.method = method

theorem Codec.reads_of_encode {limits : Limits} (hlimits : limits.problems = []) {m : Message α}
    {bytes : ByteArray} (hversion : m.version = protocolVersion)
    (h : m.encode ⟨limits, .generic⟩ = .ok bytes) :
    Codec.Reads (α := α) ⟨limits, .generic⟩ bytes m.kind m.callId m.method := by
  have hencodes : m.EncodesTo limits bytes := ⟨hversion, h⟩
  obtain ⟨m', hdecode, harrives⟩ := hencodes.arrivesIn (Limits.maxFrameSize_le_maxWord hlimits)
  exact ⟨m', hdecode, harrives.kind, harrives.callId, harrives.method⟩

/-- Whatever was done to a new connection before, sending fails and changes nothing but the next id, or
it adds what it sends, under the next id, and nothing else, after the oldest frame made room for it if
that is the policy of a full buffer. The ids that are returned go up, and a closed connection has neither
calls nor frames. -/
theorem sending_all_or_nothing {limits : Limits} (hlimits : limits.problems = [])
    (policy : OverflowPolicy) (capacity : Nat) (callTimeout : Option Millis)
    (steps : List (Millis × Operation α)) (hfew : issues steps < 2 ^ 64) :
    let codec : Codec α := ⟨limits, .generic⟩
    let start : Endpoint α :=
      { connection := { codec, outbound := { policy, capacity }, callTimeout }, trace := {} }
    let e := start.run steps
    let id := e.connection.nextCallId
    (∀ method payload timeout callback,
      (∃ failure e', (invoke method payload timeout callback).exec e = (.error failure, e') ∧
        e.Unmoved e') ∨
      ∃ bytes e', (invoke method payload timeout callback).exec e = (.ok id, e') ∧
        e.Issued e' id callback (timeout <|> e.connection.callTimeout) bytes ∧
        codec.Reads bytes .request id method) ∧
    (∀ method payload,
      (∃ failure e', (notify method payload).exec e = (.error failure, e') ∧ e.Unmoved e') ∨
      ∃ bytes e', (notify method payload).exec e = (.ok id, e') ∧ e.Sent e' id bytes ∧
        codec.Reads bytes .oneWay id method) ∧
    (e.connection.outbound.policy ≠ .dropOldest ∨
      e.connection.outbound.size < e.connection.outbound.capacity → e.roomMade = e) ∧
    (start.ids steps).Pairwise (· < ·) ∧
    (e.connection.closed → e.connection.calls.pending = [] ∧ e.connection.outbound.frames = []) := by
  intro codec start e id
  have hstart : start.connection.Kept codec 0 := .new codec policy capacity callTimeout
  obtain ⟨⟨k, hk, hkept⟩, -, hpairs⟩ := kept_run hstart steps (by omega)
  have hcodec : e.connection.codec = codec := hkept.codec_eq
  -- There are more ids than were given, so the next one is nobody's.
  have hlacks := hkept.lacks (by omega)
  have hframes := hkept.frames_ne (by omega)
  refine ⟨fun method payload timeout callback => ?_, fun method payload => ?_, roomMade_of_room, hpairs,
    hkept.shut⟩
  · obtain hfailed | ⟨bytes, e', hrun, -, hencode, hissued⟩ :=
      invoke_cases method payload timeout callback hlacks hframes
    · exact .inl hfailed
    · rw [hcodec] at hencode
      exact .inr ⟨bytes, e', hrun, hissued, Codec.reads_of_encode hlimits rfl hencode⟩
  · obtain hfailed | ⟨bytes, e', hrun, -, hencode, hsent⟩ := notify_cases method payload e
    · exact .inl hfailed
    · rw [hcodec] at hencode
      exact .inr ⟨bytes, e', hrun, hsent, Codec.reads_of_encode hlimits rfl hencode⟩

def crowded : Endpoint Empty where
  connection := { codec := ⟨{}, .generic⟩, outbound := { policy := .dropOldest, capacity := 1 } }
  trace := {}

/-- A call, a notification for which its request makes room, and another call. -/
def pressed : List (Millis × Operation Empty) :=
  [(0, .invoke "first" .empty (some 5) true), (2, .notify "news" .empty),
    (1, .invoke "second" .empty none true)]

theorem sending_all_or_nothing_pressed :
    Limits.problems {} = [] ∧ issues pressed < 2 ^ 64 ∧
    (∃ bytes e',
      (invoke "third" .empty (some 9) ⟨2, false⟩).exec (crowded.run pressed) = (.ok 4, e') ∧
      (crowded.run pressed).Issued e' 4 ⟨2, false⟩ (some 9) bytes ∧
      Codec.Reads (α := Empty) ⟨{}, .generic⟩ bytes .request 4 "third") ∧
    crowded.ids pressed = [1, 2, 3] ∧ (crowded.ids pressed).Pairwise (· < ·) := by
  have hlimits : Limits.problems {} = [] := by decide
  have hfew : issues pressed < 2 ^ 64 := by decide
  have hid : (crowded.run pressed).connection.nextCallId = 4 := by cbv
  have hok : ((invoke "third" .empty (some 9) ⟨2, false⟩).exec (crowded.run pressed)).1.isOk := by cbv
  obtain ⟨hinvoke, -, -, hpairs, -⟩ :=
    sending_all_or_nothing (α := Empty) hlimits .dropOldest 1 none pressed hfew
  refine ⟨hlimits, hfew, ?_, by cbv, hpairs⟩
  obtain ⟨failure, e', hrun, -⟩ | ⟨bytes, e', hrun, hissued, hreads⟩ :=
    hinvoke "third" .empty (some 9) ⟨2, false⟩
  · have hfailed := congrArg (·.1.isOk) hrun
    have hfalse : false = true := hfailed.symm.trans hok
    cases hfalse
  · exact ⟨bytes, e', hid ▸ hrun, hid ▸ hissued, hid ▸ hreads⟩

end GraphRpc
