import Mathlib
import GraphRpc.Connection
import GraphRpc.Proofs.Outbound.History
import GraphRpc.Proofs.Wire.Frames
import GraphRpc.Transport.Writer

/-!
# Steps of the writer

The writer pops one frame after another and feeds it, flushes when it finds no more, and then waits. What
it does in one go is taken apart here into steps that each leave something to others.
-/

namespace GraphRpc

variable {α : Type}

theorem Pipe.write?_some {pipe pipe' : Pipe} {data rest : List UInt8}
    (h : pipe.write? data = some (rest, pipe')) :
    ∃ written, data = written ++ rest ∧ pipe'.bytes = pipe.bytes ++ written := by
  unfold write? at h
  split at h
  · next hempty =>
    cases h
    exact ⟨[], List.isEmpty_iff.1 hempty, (List.append_nil _).symm⟩
  · split at h
    · cases h
    · cases h
      exact ⟨_, (List.take_append_drop ..).symm, rfl⟩

-- ---------------------------------------------------------------------------
-- One step of the writer
-- ---------------------------------------------------------------------------

namespace Writer

def makeRoom (w : Writer) (pipe : Pipe) : Option (List UInt8 × Pipe) :=
  if flushThreshold ≤ w.buffer.length then pipe.write? w.buffer else some (w.buffer, pipe)

theorem makeRoom_some {w : Writer} {pipe pipe' : Pipe} {rest : List UInt8}
    (h : w.makeRoom pipe = some (rest, pipe')) :
    ∃ written, w.buffer = written ++ rest ∧ pipe'.bytes = pipe.bytes ++ written := by
  unfold makeRoom at h
  split at h
  · exact Pipe.write?_some h
  · cases h
    exact ⟨[], rfl, (List.append_nil _).symm⟩

/-- What a writer does next that has no frame to pop, and whether it goes on without waiting for
anybody. -/
inductive Step (w : Writer) (pipe : Pipe) (e : Endpoint α) :
    (goesOn : Bool) → Writer → Pipe → Endpoint α → Prop
  | failed (hstate : w.state ≠ .over) (why : Failure) (pipe' : Pipe) :
    Step w pipe e false { w with state := .over } pipe' ((Endpoint.fail why).run e).2
  | finished (hstate : w.state = .over) : Step w pipe e false w pipe e
  | closed (hstate : w.state = .waiting) (hclosed : e.connection.closed) :
    Step w pipe e false { w with state := .over } pipe.close e
  | woken (hstate : w.state = .waiting) (hpermit : w.permit) :
    Step w pipe e true { w with state := .feeding, permit := false } pipe e
  | asleep (hstate : w.state = .waiting) (hpermit : w.permit = false) : Step w pipe e false w pipe e
  | drained {rest pipe'} (hstate : w.state = .flushing)
    (hwrite : pipe.write? w.buffer = some (rest, pipe')) :
    Step w pipe e false { w with buffer := rest } pipe' e
  | flushed {pipe'} (hstate : w.state = .flushing) (hwrite : pipe.write? w.buffer = some ([], pipe')) :
    Step w pipe e true { w with state := .waiting, buffer := [], fed := false } pipe' e
  | idle (hstate : w.state = .feeding) (hheld : w.held = none)
    (hframes : e.connection.outbound.frames = []) :
    Step w pipe e true { w with state := if w.fed then .flushing else .waiting } pipe e
  | blocked {bytes rest pipe'} (hstate : w.state = .feeding) (hheld : w.held = some bytes)
    (hroom : w.makeRoom pipe = some (rest, pipe')) : Step w pipe e false { w with buffer := rest } pipe' e
  | fed {bytes rest pipe'} (hstate : w.state = .feeding) (hheld : w.held = some bytes)
    (hroom : w.makeRoom pipe = some (rest, pipe')) :
    Step w pipe e true { w with buffer := rest ++ Frame.spell bytes, held := none, fed := true } pipe'
      ((Endpoint.count (Counters.frameSent bytes.size)).run e).2

theorem Step.held_cases {w w' : Writer} {pipe pipe' : Pipe} {e e' : Endpoint α} {goesOn : Bool}
    (h : Step w pipe e goesOn w' pipe' e') : w'.held = w.held ∨ w'.held = none := by
  cases h with
  | fed => exact .inr rfl
  | failed | finished | closed | woken | asleep | drained | flushed | idle | blocked => exact .inl rfl

end Writer

namespace Endpoint

variable {w : Writer} {pipe : Pipe} {e : Endpoint α}

theorem run_bind {β γ : Type} (x : StateM (Endpoint α) β) (f : β → StateM (Endpoint α) γ)
    (e : Endpoint α) : (x >>= f).run e = (f (x.run e).1).run (x.run e).2 := rfl

theorem popFrame_run (e : Endpoint α) : popFrame.run e =
    match e.connection.outbound.pop? with
    | some (frame, outbound) =>
      (some frame.bytes, { e with connection := { e.connection with outbound } })
    | none => (none, e) := rfl

/-- What the writer does with a frame in hand, if it may write on for `n` steps after it. -/
def feed (n : Nat) (w : Writer) (pipe : Pipe) (bytes : ByteArray) :
    StateM (Endpoint α) (Writer × Pipe) :=
  match w.makeRoom pipe with
  | none => writeFailed (.stream .brokenPipe) w pipe
  | some (rest, pipe) =>
    if Writer.flushThreshold ≤ w.buffer.length && !rest.isEmpty then
      return ({ w with buffer := rest, held := some bytes }, pipe)
    else do
      match Frame.build bytes (← get).connection.codec.limits.maxFrameSize with
      | .error why => writeFailed (.frame why) w pipe
      | .ok framed =>
        count (Counters.frameSent bytes.size)
        transmit n { w with buffer := rest ++ framed.data.toList, held := none, fed := true } pipe

theorem transmit_held {bytes : ByteArray} (hstate : w.state = .feeding) (hheld : w.held = some bytes)
    (n : Nat) (pipe : Pipe) (e : Endpoint α) :
    (transmit (n + 1) w pipe).run e = (feed n w pipe bytes).run e := by
  obtain ⟨state, buffer, held, fed, permit⟩ := w
  cases hstate
  cases hheld
  rfl

/-- What a frame in hand comes to, by the writer that has it. -/
theorem feed_run {bytes : ByteArray} (hstate : w.state = .feeding) (hheld : w.held = some bytes)
    (pipe : Pipe) (e : Endpoint α) : ∃ goesOn w' pipe' e', Writer.Step w pipe e goesOn w' pipe' e' ∧
      ∀ n, (feed n w pipe bytes).run e =
        if goesOn then (transmit n w' pipe').run e' else ((w', pipe'), e') := by
  have hworks : w.state ≠ .over := by rw [hstate]; decide
  unfold feed
  cases hroom : w.makeRoom pipe with
  | none => exact ⟨_, _, _, _, .failed hworks (.stream .brokenPipe) pipe, fun n => rfl⟩
  | some made =>
    obtain ⟨rest, pipe'⟩ := made
    dsimp only
    split
    · exact ⟨_, _, _, _, .blocked hstate hheld hroom, fun n => by rw [hheld]; rfl⟩
    · cases hbuild : Frame.build bytes e.connection.codec.limits.maxFrameSize with
      | error why =>
        refine ⟨_, _, _, _, .failed hworks (.frame why) pipe', fun n => ?_⟩
        rw [run_bind, StateT.run_get]
        simp only [pure, hbuild]
        rfl
      | ok framed =>
        refine ⟨_, _, _, _, .fed hstate hheld hroom, fun n => ?_⟩
        obtain ⟨-, rfl⟩ := Frame.build_ok.1 hbuild
        rw [run_bind, StateT.run_get]
        simp only [pure, hbuild, run_bind, List.data_toByteArray]
        rfl

/-- A writer that popped a frame goes on as if it had it in hand, unless it gives up. -/
theorem feed_popped (n : Nat) (w : Writer) (pipe : Pipe) (bytes : ByteArray) (e : Endpoint α) :
    ((feed n w pipe bytes).run e).1.1.state = .over ∨
      (feed n w pipe bytes).run e = (feed n { w with held := some bytes } pipe bytes).run e := by
  have hroom : ({ w with held := some bytes } : Writer).makeRoom pipe = w.makeRoom pipe := rfl
  unfold feed
  rw [hroom]
  cases w.makeRoom pipe with
  | none => exact .inl rfl
  | some made =>
    obtain ⟨rest, pipe⟩ := made
    dsimp only
    split
    · exact .inr rfl
    · rw [run_bind, run_bind, StateT.run_get]
      cases hbuild : Frame.build bytes e.connection.codec.limits.maxFrameSize with
      | error why => exact .inl rfl
      | ok framed => exact .inr rfl

theorem transmit_popping {bytes : ByteArray} {e' : Endpoint α} {n : Nat} (hstate : w.state = .feeding)
    (hheld : w.held = none) (hpop : popFrame.run e = (some bytes, e'))
    (hworks : ((transmit (n + 1) w pipe).run e).1.1.state ≠ .over) :
    (transmit (n + 1) w pipe).run e =
      (transmit (n + 1) { w with held := some bytes } pipe).run e' := by
  have hfeed : (transmit (n + 1) w pipe).run e = (feed n w pipe bytes).run e' := by
    obtain ⟨state, buffer, held, fed, permit⟩ := w
    cases hstate
    cases hheld
    simp only [transmit, Option.isSome_none, Bool.false_eq_true, if_false, run_bind, hpop]
    rfl
  have hstate' : ({ w with held := some bytes } : Writer).state = .feeding := hstate
  rw [transmit_held hstate' rfl, hfeed]
  exact (feed_popped ..).resolve_left (hfeed ▸ hworks)

theorem transmit_succ (hpop : w.state = .feeding → w.held = none → e.connection.outbound.frames = [])
    (pipe : Pipe) : ∃ goesOn w' pipe' e', Writer.Step w pipe e goesOn w' pipe' e' ∧
      ∀ n, (transmit (n + 1) w pipe).run e =
        if goesOn then (transmit n w' pipe').run e' else ((w', pipe'), e') := by
  have hisClosed : isClosed.run e = (e.connection.closed, e) := rfl
  match hstate : w.state with
  | .over =>
    refine ⟨_, _, _, _, .finished hstate, fun n => ?_⟩
    simp only [transmit, hstate]
    rfl
  | .waiting =>
    cases hclosed : e.connection.closed with
    | true =>
      refine ⟨_, _, _, _, .closed hstate hclosed, fun n => ?_⟩
      simp only [transmit, hstate, run_bind, hisClosed, hclosed]
      rfl
    | false =>
      cases hpermit : w.permit with
      | true =>
        refine ⟨_, _, _, _, .woken hstate hpermit, fun n => ?_⟩
        simp only [transmit, hstate, run_bind, hisClosed, hclosed, hpermit]
        rfl
      | false =>
        refine ⟨_, _, _, _, .asleep hstate hpermit, fun n => ?_⟩
        simp only [transmit, hstate, run_bind, hisClosed, hclosed, hpermit]
        rfl
  | .flushing =>
    cases hwrite : pipe.write? w.buffer with
    | none =>
      refine ⟨_, _, _, _, .failed (by rw [hstate]; decide) (.stream .brokenPipe) pipe, fun n => ?_⟩
      simp only [transmit, hstate, hwrite]
      rfl
    | some written =>
      obtain ⟨rest, pipe'⟩ := written
      cases rest with
      | nil =>
        refine ⟨_, _, _, _, .flushed hstate hwrite, fun n => ?_⟩
        simp only [transmit, hstate, hwrite]
        rfl
      | cons byte rest =>
        refine ⟨_, _, _, _, .drained hstate hwrite, fun n => ?_⟩
        simp only [transmit, hstate, hwrite]
        rfl
  | .feeding =>
    cases hheld : w.held with
    | none =>
      have hframes := hpop hstate hheld
      refine ⟨_, _, _, _, .idle hstate hheld hframes, fun n => ?_⟩
      simp only [transmit, hstate, hheld, Option.isSome_none, Bool.false_eq_true, if_false, run_bind,
        popFrame_run, Outbound.pop?_nil hframes]
      rfl
    | some bytes =>
      obtain ⟨goesOn, w', pipe', e', hstep, hrun⟩ := feed_run hstate hheld pipe e
      exact ⟨goesOn, w', pipe', e', hstep, fun n => (transmit_held hstate hheld n pipe e).trans (hrun n)⟩

end Endpoint

end GraphRpc
