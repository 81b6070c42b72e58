import Mathlib
import GraphRpc.Proofs.Calls.Whole
import GraphRpc.Proofs.Outbound.Writing

/-!
# Wake-ups of the writer

A frame is pushed in two steps: it goes to the end of the outbound buffer, and then the writer is told. The
writer waits without looking into the buffer again. However many frames it is told of in the meantime, a
single permit is left for it. In whatever order all this happens, it never sleeps while a frame waits of
which it was told.
-/

namespace GraphRpc

variable {α : Type}

-- ---------------------------------------------------------------------------
-- Pushing and writing
-- ---------------------------------------------------------------------------

inductive PushPhase where
  | appending (frame : OutboundFrame)
  | notifying
  | returned

/-- The outbound buffer of a connection between those who push frames into it and the writer. -/
structure Outflow (α : Type) where
  endpoint : Endpoint α
  pushes : List PushPhase := []
  writer : Writer := {}
  pipe : Pipe
  /-- Whether the writer has found no permit when it waited, and was not woken since. -/
  asleep : Bool := false
  taken : List UInt8 := []
  appended : List OutboundFrame := []
  fed : List ByteArray := []

inductive OutflowAction where
  | push (frame : OutboundFrame)
  | step (i : Nat)
  | write
  | take (count : Nat)

namespace Outflow

def start (codec : Codec α) (capacity room : Nat) : Outflow α where
  endpoint := { connection := { codec, outbound := { policy := .unbounded, capacity } }, trace := {} }
  pipe := { capacity := room }

def frames (s : Outflow α) : List OutboundFrame := s.endpoint.connection.outbound.frames

/-- Tell the writer that there is a frame: it is woken if it is asleep, and finds a permit when it waits
otherwise. -/
def notify (s : Outflow α) : Outflow α :=
  if s.asleep then { s with writer := { s.writer with state := .feeding }, asleep := false }
  else { s with writer := { s.writer with permit := true } }

def step (s : Outflow α) (i : Nat) : Outflow α :=
  match s.pushes[i]? with
  | some (.appending frame) =>
    match s.endpoint.push frame with
    | .ok (_, endpoint) =>
      { s with endpoint, appended := s.appended ++ [frame], pushes := s.pushes.set i .notifying }
    | .error _ => { s with pushes := s.pushes.set i .returned }
  | some .notifying => { s.notify with pushes := s.pushes.set i .returned }
  | some .returned | none => s

/-- The writer takes its next step. To pop a frame and to feed it are two. -/
def write (s : Outflow α) : Outflow α :=
  match s.writer.state, s.writer.held, Endpoint.popFrame.run s.endpoint with
  | .feeding, none, (some bytes, endpoint) =>
    { s with endpoint, writer := { s.writer with held := some bytes } }
  | _, _, _ =>
    let ((writer, pipe), endpoint) := (Endpoint.transmit 1 s.writer s.pipe).run s.endpoint
    { s with
      endpoint, writer, pipe
      asleep := s.writer.state = .waiting && writer.state = .waiting
      fed := if writer.held.isNone then s.fed ++ s.writer.held.toList else s.fed }

def act (s : Outflow α) : OutflowAction → Outflow α
  | .push frame => { s with pushes := s.pushes ++ [.appending frame] }
  | .step i => s.step i
  | .write => s.write
  | .take count =>
    let (bytes, pipe) := s.pipe.read count
    { s with pipe, taken := s.taken ++ bytes }

def run (s : Outflow α) (actions : List OutflowAction) : Outflow α := actions.foldl act s

-- ---------------------------------------------------------------------------
-- What every step keeps
-- ---------------------------------------------------------------------------

/-- While the writer is at work, every frame is where it belongs, and the writer will look for those that
are in the buffer: it is about to, it finds a permit when it waits, or it is about to be told. -/
structure Working (s : Outflow α) : Prop where
  policy : s.endpoint.connection.outbound.policy = .unbounded
  appended : s.appended.map (·.bytes) = s.fed ++ s.writer.held.toList ++ s.frames.map (·.bytes)
  written : s.taken ++ s.pipe.bytes ++ s.writer.buffer = s.fed.flatMap Frame.spell
  held : s.writer.state ≠ .feeding → s.writer.held = none
  buffer : s.writer.state = .waiting ∨ s.writer.fed = false → s.writer.buffer = []
  told : s.writer.state ≠ .feeding → s.frames ≠ [] → s.writer.permit ∨ .notifying ∈ s.pushes

structure Sound (s : Outflow α) : Prop where
  fed : s.fed ++ s.writer.held.toList <+: s.appended.map (·.bytes)
  asleep : s.asleep → s.writer.state = .waiting ∧ s.writer.permit = false
  working : s.writer.state ≠ .over → s.Working

variable {s : Outflow α}

theorem write_popping {frame : OutboundFrame} {rest : List OutboundFrame}
    (hstate : s.writer.state = .feeding) (hheld : s.writer.held = none)
    (hframes : s.frames = frame :: rest) : s.write =
      { s with endpoint.connection.outbound.frames := rest, writer.held := some frame.bytes } := by
  rw [write, hstate, hheld, Endpoint.popFrame_run, Outbound.pop?_cons hframes]

theorem write_moving (hpop : s.writer.state = .feeding → s.writer.held = none → s.frames = []) :
    s.write =
      let ((writer, pipe), endpoint) := (Endpoint.transmit 1 s.writer s.pipe).run s.endpoint
      { s with
        endpoint, writer, pipe
        asleep := s.writer.state = .waiting && writer.state = .waiting
        fed := if writer.held.isNone then s.fed ++ s.writer.held.toList else s.fed } := by
  unfold write
  split
  · next hstate hheld hrun =>
    rw [Endpoint.popFrame_run, Outbound.pop?_nil (hpop hstate hheld)] at hrun
    cases hrun
  · rfl

theorem write_cases (s : Outflow α) :
    (∃ frame rest, s.writer.state = .feeding ∧ s.writer.held = none ∧ s.frames = frame :: rest ∧
      s.write = { s with
        endpoint.connection.outbound.frames := rest, writer.held := some frame.bytes }) ∨
    ∃ goesOn writer pipe endpoint, Writer.Step s.writer s.pipe s.endpoint goesOn writer pipe endpoint ∧
      s.write = { s with
        endpoint, writer, pipe
        asleep := s.writer.state = .waiting && writer.state = .waiting
        fed := if writer.held.isNone then s.fed ++ s.writer.held.toList else s.fed } := by
  by_cases hpop : s.writer.state = .feeding → s.writer.held = none → s.frames = []
  · obtain ⟨goesOn, writer, pipe, endpoint, hstep, hrun⟩ := Endpoint.transmit_succ hpop s.pipe
    have hone : (Endpoint.transmit 1 s.writer s.pipe).run s.endpoint = ((writer, pipe), endpoint) := by
      rw [hrun 0]
      cases goesOn <;> rfl
    refine .inr ⟨goesOn, writer, pipe, endpoint, hstep, ?_⟩
    rw [write_moving hpop, hone]
  · simp only [Classical.not_imp] at hpop
    obtain ⟨hstate, hheld, hframes⟩ := hpop
    obtain ⟨frame, rest, hcons⟩ := List.exists_cons_of_ne_nil hframes
    exact .inl ⟨frame, rest, hstate, hheld, hcons, write_popping hstate hheld hcons⟩

theorem Working.popped (hw : s.Working) {frame : OutboundFrame} {rest : List OutboundFrame}
    (hstate : s.writer.state = .feeding) (hheld : s.writer.held = none)
    (hframes : s.frames = frame :: rest) :
    Working { s with endpoint.connection.outbound.frames := rest, writer.held := some frame.bytes } where
  policy := hw.policy
  appended := by
    rw [hw.appended, hheld, hframes]
    simp [frames]
  written := hw.written
  held := fun hne => (hne hstate).elim
  buffer := hw.buffer
  told := fun hne => (hne hstate).elim

theorem Working.fed (hw : s.Working) {bytes : ByteArray} {rest : List UInt8} {pipe : Pipe}
    (hstate : s.writer.state = .feeding) (hheld : s.writer.held = some bytes)
    (hroom : s.writer.makeRoom s.pipe = some (rest, pipe)) (asleep : Bool) :
    Working { s with
      pipe, asleep
      endpoint := ((Endpoint.count (Counters.frameSent bytes.size)).run s.endpoint).2
      writer := { s.writer with buffer := rest ++ Frame.spell bytes, held := none, fed := true }
      fed := s.fed ++ [bytes] } where
  policy := hw.policy
  appended := by
    rw [hw.appended, hheld]
    exact congrArg (· ++ _) (List.append_nil _).symm
  written := by
    obtain ⟨written, hbuffer, hbytes⟩ := Writer.makeRoom_some hroom
    have := hw.written
    rw [hbuffer] at this
    simp only [hbytes, List.flatMap_append, ← this]
    simp
  held := fun hne => (hne hstate).elim
  buffer := by simp [hstate]
  told := fun hne => (hne hstate).elim

theorem Working.wrote (hw : s.Working) {pipe : Pipe} {rest written : List UInt8}
    (hbuffer : s.writer.buffer = written ++ rest) (hbytes : pipe.bytes = s.pipe.bytes ++ written)
    (asleep : Bool) : Working { s with pipe, writer := { s.writer with buffer := rest }, asleep } where
  policy := hw.policy
  appended := hw.appended
  written := by
    have := hw.written
    rw [hbuffer] at this
    simp [← this, hbytes]
  held := hw.held
  buffer := fun hbut => (List.append_eq_nil_iff.1 (hbuffer ▸ hw.buffer hbut)).2
  told := hw.told

theorem Working.step {goesOn : Bool} {writer : Writer} {pipe : Pipe} {endpoint : Endpoint α}
    (hw : s.Working) (hstep : Writer.Step s.writer s.pipe s.endpoint goesOn writer pipe endpoint)
    (hworks : writer.state ≠ .over) :
    Working { s with
      endpoint, writer, pipe
      asleep := s.writer.state = .waiting && writer.state = .waiting
      fed := if writer.held.isNone then s.fed ++ s.writer.held.toList else s.fed } := by
  have hkeep : (if s.writer.held.isNone then s.fed ++ s.writer.held.toList else s.fed) = s.fed := by
    cases s.writer.held <;> simp
  cases hstep with
  | failed | closed => exact (hworks rfl).elim
  | finished hstate => exact (hworks hstate).elim
  | woken hstate hpermit =>
    simp only [hkeep]
    exact ⟨hw.policy, hw.appended, hw.written, fun hne => (hne rfl).elim,
      fun _ => hw.buffer (.inl hstate), fun hne => (hne rfl).elim⟩
  | asleep hstate hpermit =>
    simp only [hkeep]
    exact ⟨hw.policy, hw.appended, hw.written, hw.held, hw.buffer, hw.told⟩
  | drained hstate hwrite =>
    simp only [hkeep]
    obtain ⟨written, hbuffer, hbytes⟩ := Pipe.write?_some hwrite
    exact hw.wrote hbuffer hbytes _
  | flushed hstate hwrite =>
    simp only [hkeep]
    obtain ⟨written, hbuffer, hbytes⟩ := Pipe.write?_some hwrite
    have hwrote := hw.wrote hbuffer hbytes false
    have hnot : s.writer.state ≠ .feeding := by rw [hstate]; decide
    exact ⟨hwrote.policy, hwrote.appended, hwrote.written, fun _ => hw.held hnot, fun _ => rfl,
      fun _ => hw.told hnot⟩
  | idle hstate hheld hframes =>
    simp only [hkeep]
    refine ⟨hw.policy, hw.appended, hw.written, fun _ => hheld, fun hbut => hw.buffer (.inr ?_),
      fun _ hne => (hne hframes).elim⟩
    rcases hbut with hwaits | hfed
    · by_contra hfed
      rw [Bool.not_eq_false] at hfed
      simp only [hfed, if_true, reduceCtorEq] at hwaits
    · exact hfed
  | blocked hstate hheld hroom =>
    simp only [hkeep]
    obtain ⟨written, hbuffer, hbytes⟩ := Writer.makeRoom_some hroom
    exact hw.wrote hbuffer hbytes _
  | fed hstate hheld hroom =>
    simp only [hheld, Option.isNone_none, if_true, Option.toList_some]
    exact hw.fed hstate hheld hroom _

theorem Sound.write (h : s.Sound) : s.write.Sound := by
  obtain ⟨frame, rest, hstate, hheld, hframes, hwrite⟩ |
    ⟨goesOn, writer, pipe, endpoint, hstep, hwrite⟩ := s.write_cases
  · have hw := (h.working (by rw [hstate]; decide)).popped hstate hheld hframes
    rw [hwrite]
    refine ⟨⟨_, hw.appended.symm⟩, fun hasleep => ?_, fun _ => hw⟩
    have := (h.asleep hasleep).1
    rw [hstate] at this
    cases this
  · rw [hwrite]
    refine ⟨?_, fun hasleep => ?_, fun hworks => ?_⟩
    · have hsame : (if writer.held.isNone then s.fed ++ s.writer.held.toList else s.fed) ++
          writer.held.toList = s.fed ++ s.writer.held.toList := by
        obtain hheld | hheld := hstep.held_cases <;> rw [hheld]
        · cases s.writer.held <;> simp
        · exact List.append_nil _
      exact (congrArg (· <+: s.appended.map (·.bytes)) hsame).mpr h.fed
    · simp only [Bool.and_eq_true, decide_eq_true_eq] at hasleep
      obtain ⟨hwas, his⟩ := hasleep
      refine ⟨his, ?_⟩
      cases hstep with
      | asleep hstate hpermit => exact hpermit
      | failed | closed | woken => cases his
      | finished hstate | drained hstate | flushed hstate | idle hstate | blocked hstate | fed hstate =>
        rw [hwas] at hstate
        cases hstate
    · refine (h.working fun hover => ?_).step hstep hworks
      cases hstep with
      | failed hstate => exact hstate hover
      | finished => exact hworks hover
      | closed hstate | woken hstate | asleep hstate | drained hstate | flushed hstate | idle hstate
      | blocked hstate | fed hstate =>
        rw [hover] at hstate
        cases hstate

theorem Sound.notify (h : s.Sound) (pushes : List PushPhase) : Sound { s.notify with pushes } := by
  unfold Outflow.notify
  split
  · next hasleep =>
    have hw := h.working (by rw [(h.asleep hasleep).1]; decide)
    refine ⟨h.fed, fun h => Bool.noConfusion h, fun _ => ?_⟩
    exact ⟨hw.policy, hw.appended, hw.written, fun hne => (hne rfl).elim,
      fun _ => hw.buffer (.inl (h.asleep hasleep).1), fun hne => (hne rfl).elim⟩
  · next hawake =>
    refine ⟨h.fed, fun hasleep => (hawake hasleep).elim, fun hworks => ?_⟩
    have hw := h.working hworks
    exact ⟨hw.policy, hw.appended, hw.written, hw.held, hw.buffer, fun _ _ => .inl rfl⟩

theorem push_of_unbounded {e : Endpoint α} (hpolicy : e.connection.outbound.policy = .unbounded)
    (frame : OutboundFrame) : e.push frame = .ok (.done,
      { e with
        connection.outbound.frames := e.connection.outbound.frames ++ [frame]
        trace := e.trace.emit .frameQueued }) := by
  rw [Endpoint.push, Outbound.push_of_room (.inl hpolicy)]
  rfl

theorem Sound.step (h : s.Sound) (i : Nat) : (s.step i).Sound := by
  unfold Outflow.step
  split
  · next frame hphase =>
    split
    · next d e hpush =>
      refine ⟨?_, h.asleep, fun hworks => ?_⟩
      · rw [List.map_append]
        exact h.fed.trans (List.prefix_append ..)
      · have hw := h.working hworks
        rw [push_of_unbounded hw.policy] at hpush
        cases hpush
        refine ⟨hw.policy, ?_, hw.written, hw.held, hw.buffer, fun _ _ => .inr ?_⟩
        · simp [hw.appended, frames]
        · exact List.mem_set (List.getElem?_eq_some_iff.1 hphase).1 _
    · next hpush =>
      refine ⟨h.fed, h.asleep, fun hworks => ?_⟩
      rw [push_of_unbounded (h.working hworks).policy] at hpush
      cases hpush
  · exact h.notify _
  · exact h
  · exact h

theorem Sound.act (h : s.Sound) (a : OutflowAction) : (s.act a).Sound := by
  cases a with
  | push frame =>
    refine ⟨h.fed, h.asleep, fun hworks => ?_⟩
    have hw := h.working hworks
    exact ⟨hw.policy, hw.appended, hw.written, hw.held, hw.buffer, fun hne hframes =>
      (hw.told hne hframes).imp id (List.mem_append_left _)⟩
  | step i => exact h.step i
  | write => exact h.write
  | take count =>
    refine ⟨h.fed, h.asleep, fun hworks => ?_⟩
    have hw := h.working hworks
    refine ⟨hw.policy, hw.appended, ?_, hw.held, hw.buffer, hw.told⟩
    refine Eq.trans ?_ hw.written
    simp [Outflow.act, Pipe.read]

theorem sound_start (codec : Codec α) (capacity room : Nat) : (start codec capacity room).Sound :=
  ⟨List.prefix_rfl, fun h => Bool.noConfusion h,
    fun _ => ⟨rfl, rfl, rfl, fun _ => rfl, fun _ => rfl, fun _ h => (h rfl).elim⟩⟩

theorem sound_run (codec : Codec α) (capacity room : Nat) (actions : List OutflowAction) :
    ((start codec capacity room).run actions).Sound := by
  unfold run
  induction actions using List.reverseRecOn with
  | nil => exact sound_start ..
  | append_singleton actions a ih =>
    rw [List.foldl_append]
    exact ih.act a

/-- Frames are fed in the order in which they came into the buffer. Whenever the writer waits, all that it
fed has left its buffer, and if there is a frame then there is a permit too, or somebody who pushed is
still to tell the writer. So with nobody left to tell it, a writer that is asleep has fed every frame. -/
theorem no_lost_wakeup (codec : Codec α) (capacity room : Nat) (actions : List OutflowAction) :
    let s := (start codec capacity room).run actions
    s.fed <+: s.appended.map (·.bytes) ∧
    (s.writer.state = .waiting →
      s.writer.buffer = [] ∧ s.taken ++ s.pipe.bytes = s.fed.flatMap Frame.spell ∧
      (s.frames ≠ [] → s.writer.permit ∨ .notifying ∈ s.pushes)) ∧
    (s.asleep → .notifying ∉ s.pushes → s.fed = s.appended.map (·.bytes)) := by
  intro s
  have hs : s.Sound := sound_run codec capacity room actions
  have hworking (hwaits : s.writer.state = .waiting) : s.Working :=
    hs.working (by rw [hwaits]; decide)
  have hnot (hwaits : s.writer.state = .waiting) : s.writer.state ≠ .feeding := by
    rw [hwaits]
    decide
  refine ⟨(List.prefix_append ..).trans hs.fed, fun hwaits => ?_, fun hasleep hquiet => ?_⟩
  · have hw := hworking hwaits
    have hbuffer := hw.buffer (.inl hwaits)
    have hwritten := hw.written
    rw [hbuffer, List.append_nil] at hwritten
    exact ⟨hbuffer, hwritten, hw.told (hnot hwaits)⟩
  · obtain ⟨hwaits, hpermit⟩ := hs.asleep hasleep
    have hw := hworking hwaits
    have hframes : s.frames = [] := by
      by_contra hframes
      rcases hw.told (hnot hwaits) hframes with h | h
      · rw [hpermit] at h
        cases h
      · exact hquiet h
    rw [hw.appended, hw.held (hnot hwaits), hframes]
    simp

/-- A frame comes into the buffer when the writer is already asleep. -/
example :
    let asleep := (start (⟨{}, .generic⟩ : Codec Empty) 1 64).run [.write, .write]
    let appended := asleep.run [.push ⟨none, ⟨#[7]⟩⟩, .step 0]
    let woken := appended.run (.step 0 :: .replicate 5 .write)
    (asleep.asleep, appended.asleep, appended.frames.length) = (true, true, 1) ∧
    (woken.asleep, woken.fed.length, woken.pipe.bytes) = (true, 1, Frame.spell ⟨#[7]⟩) := by
  exact ⟨rfl, rfl⟩

-- ---------------------------------------------------------------------------
-- Steps in a row
-- ---------------------------------------------------------------------------

/-- Both steps of a push in a row are the push of the connection, after which the writer is told. -/
theorem run_push (hpolicy : s.endpoint.connection.outbound.policy = .unbounded) (frame : OutboundFrame) :
    s.run [.push frame, .step s.pushes.length, .step s.pushes.length] =
      { s.notify with
        endpoint := ((Endpoint.pushFrame frame.callId frame.bytes).exec s.endpoint).2
        appended := s.appended ++ [frame]
        pushes := s.pushes ++ [.returned] } := by
  rw [exec_pushFrame, push_of_unbounded hpolicy]
  simp only [run, List.foldl_cons, List.foldl_nil, act, step, List.getElem?_concat_length,
    push_of_unbounded hpolicy, List.set_append_right _ _ le_rfl, Nat.sub_self, List.set_cons_zero]
  unfold notify
  dsimp only
  split <;> rfl

/-- To wake the writer is to leave it a permit and to let it wait once more. -/
theorem notify_asleep (h : s.Sound) (hasleep : s.asleep) (hopen : s.endpoint.connection.closed = false) :
    (Endpoint.transmit 1 { s.writer with permit := true } s.pipe).run s.endpoint =
      ((s.notify.writer, s.pipe), s.endpoint) := by
  obtain ⟨hwaits, hpermit⟩ := h.asleep hasleep
  have hisClosed : Endpoint.isClosed.run s.endpoint = (false, s.endpoint) := by rw [← hopen]; rfl
  simp only [Endpoint.transmit, hwaits, Endpoint.run_bind, hisClosed, notify, hasleep, hpermit]
  rfl

/-- Writing in one go comes to what the writer's steps come to in a row, if it does not give up. -/
theorem run_write (n : Nat) (s : Outflow α)
    (hworks : ((Endpoint.transmit n s.writer s.pipe).run s.endpoint).1.1.state ≠ .over) :
    ∃ k, let s' := s.run (List.replicate k .write)
      ((s'.writer, s'.pipe), s'.endpoint) = (Endpoint.transmit n s.writer s.pipe).run s.endpoint := by
  induction n generalizing s with
  | zero => exact ⟨0, rfl⟩
  | succ n ih =>
    have hmoving (s : Outflow α)
        (hworks : ((Endpoint.transmit (n + 1) s.writer s.pipe).run s.endpoint).1.1.state ≠ .over)
        (hpop : s.writer.state = .feeding → s.writer.held = none → s.frames = []) :
        ∃ k, let s' := s.run (List.replicate k .write)
          ((s'.writer, s'.pipe), s'.endpoint) =
            (Endpoint.transmit (n + 1) s.writer s.pipe).run s.endpoint := by
      obtain ⟨goesOn, writer, pipe, endpoint, -, hrun⟩ := Endpoint.transmit_succ hpop s.pipe
      have hone : (Endpoint.transmit 1 s.writer s.pipe).run s.endpoint = ((writer, pipe), endpoint) := by
        rw [hrun 0]
        cases goesOn <;> rfl
      have hwrite : ((s.write.writer, s.write.pipe), s.write.endpoint) = ((writer, pipe), endpoint) := by
        rw [write_moving hpop, hone]
      cases goesOn with
      | false => exact ⟨1, hwrite.trans (hrun n).symm⟩
      | true =>
        rw [hrun n, if_pos rfl] at hworks ⊢
        cases hwrite
        obtain ⟨k, hk⟩ := ih s.write hworks
        exact ⟨k + 1, hk⟩
    -- To pop a frame is a step of its own here, and the steps after it are as they are in one go.
    by_cases hpop : s.writer.state = .feeding → s.writer.held = none → s.frames = []
    · exact hmoving s hworks hpop
    · simp only [Classical.not_imp] at hpop
      obtain ⟨hstate, hheld, hframes⟩ := hpop
      obtain ⟨frame, rest, hcons⟩ := List.exists_cons_of_ne_nil hframes
      have hpopped : Endpoint.popFrame.run s.endpoint = (some frame.bytes, s.write.endpoint) := by
        rw [write_popping hstate hheld hcons, Endpoint.popFrame_run, Outbound.pop?_cons hcons]
      have hwriter : s.write.writer = { s.writer with held := some frame.bytes } := by
        rw [write_popping hstate hheld hcons]
      have hpipe : s.write.pipe = s.pipe := by rw [write_popping hstate hheld hcons]
      have hsame := Endpoint.transmit_popping hstate hheld hpopped hworks
      rw [← hwriter, ← hpipe] at hsame
      rw [hpipe.symm, hsame] at hworks ⊢
      obtain ⟨k, hk⟩ := hmoving s.write hworks (by rw [hwriter]; simp)
      exact ⟨k + 1, hk⟩

end Outflow
end GraphRpc
