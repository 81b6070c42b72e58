import Mathlib
import GraphRpc.Outbound

/-!
# The history of an outbound buffer

Frames come in at the end of a buffer, and go out at its front in one of three ways: the transport
takes them, they make room, or the buffer is cleared. So what was accepted is at any time what has
gone out, in the order in which it came in, followed by what is still there.
-/

namespace GraphRpc.Outbound

variable {o o' : Outbound} {frame : OutboundFrame} {evicted : Option OutboundFrame}

-- ---------------------------------------------------------------------------
-- One frame more
-- ---------------------------------------------------------------------------

theorem push_rejectNew (hpolicy : o.policy = .rejectNew) (hfull : o.capacity ≤ o.size)
    (frame : OutboundFrame) : o.push frame = .error (.bufferFull o.capacity) := by
  simp [push, isFull, hpolicy, hfull]

theorem push_dropOldest (hpolicy : o.policy = .dropOldest) (hfull : o.capacity ≤ o.size)
    (hframes : o.frames = oldest :: rest) (frame : OutboundFrame) :
    o.push frame = .ok (some oldest, { o with frames := rest ++ [frame] }) := by
  simp [push, isFull, hpolicy, hfull, hframes]

theorem push_of_room (hroom : o.policy = .unbounded ∨ o.size < o.capacity) (frame : OutboundFrame) :
    o.push frame = .ok (none, { o with frames := o.frames ++ [frame] }) := by
  rcases hroom with hpolicy | hlt
  · simp [push, hpolicy]
  · simp [push, isFull, Nat.not_le.2 hlt]

/-- A frame that is accepted goes to the end. What makes room for it, if anything has to, is the
oldest frame of a full buffer. -/
theorem push_cases (h : o.push frame = .ok (evicted, o')) :
    (o.policy = .dropOldest ∧ o.capacity ≤ o.size ∧ evicted = o.frames.head? ∧
      o' = { o with frames := o.frames.tail ++ [frame] }) ∨
    ((o.policy = .unbounded ∨ o.size < o.capacity) ∧ evicted = none ∧
      o' = { o with frames := o.frames ++ [frame] }) := by
  by_cases hfull : o.capacity ≤ o.size
  · obtain hpolicy | hpolicy | hpolicy :
        o.policy = .unbounded ∨ o.policy = .dropOldest ∨ o.policy = .rejectNew := by
      cases o.policy <;> simp
    · rw [push_of_room (.inl hpolicy)] at h
      cases h
      exact .inr ⟨.inl hpolicy, rfl, rfl⟩
    · simp only [push, hpolicy, isFull, hfull, decide_true] at h
      cases h
      exact .inl ⟨hpolicy, hfull, rfl, by rw [hpolicy]⟩
    · rw [push_rejectNew hpolicy hfull] at h
      cases h
  · rw [push_of_room (.inr (Nat.not_le.1 hfull))] at h
    cases h
    exact .inr ⟨.inr (Nat.not_le.1 hfull), rfl, rfl⟩

theorem pop?_cons (h : o.frames = frame :: rest) : o.pop? = some (frame, { o with frames := rest }) := by
  simp [pop?, h]

theorem pop?_nil (h : o.frames = []) : o.pop? = none := by
  simp [pop?, h]

-- ---------------------------------------------------------------------------
-- Histories
-- ---------------------------------------------------------------------------

inductive Op where
  | push (frame : OutboundFrame)
  | pop
  | clear

/-- A buffer, the frames it accepted, and what it gave back for them. -/
structure History where
  buffer : Outbound
  pushed : List OutboundFrame := []
  popped : List OutboundFrame := []
  evicted : List OutboundFrame := []
  cleared : Nat := 0

namespace History

def start (policy : OverflowPolicy) (capacity : Nat) : History := { buffer := { policy, capacity } }

def step (h : History) : Op → History
  | .push frame =>
    match h.buffer.push frame with
    | .error _ => h
    | .ok (evicted, buffer) =>
      { h with buffer, pushed := h.pushed ++ [frame], evicted := h.evicted ++ evicted.toList }
  | .pop =>
    match h.buffer.pop? with
    | none => h
    | some (frame, buffer) => { h with buffer, popped := h.popped ++ [frame] }
  | .clear =>
    let (dropped, buffer) := h.buffer.clear
    { h with buffer, cleared := h.cleared + dropped }

def run (h : History) (ops : List Op) : History := ops.foldl step h

end History

inductive Exit where
  | popped | evicted | cleared
deriving DecidableEq

def leavers (left : List (OutboundFrame × Exit)) (exit : Exit) : List OutboundFrame :=
  (left.filter (·.2 = exit)).map Prod.fst

@[simp] theorem leavers_nil (exit : Exit) : leavers [] exit = [] := rfl

@[simp] theorem leavers_cons (frame : OutboundFrame) (out : Exit) (left : List (OutboundFrame × Exit))
    (exit : Exit) : leavers ((frame, out) :: left) exit =
      if out = exit then frame :: leavers left exit else leavers left exit := by
  by_cases h : out = exit <;> simp [leavers, h]

@[simp] theorem leavers_append (a b : List (OutboundFrame × Exit)) (exit : Exit) :
    leavers (a ++ b) exit = leavers a exit ++ leavers b exit := by
  simp [leavers]

@[simp] theorem leavers_same (frames : List OutboundFrame) (exit : Exit) :
    leavers (frames.map (·, exit)) exit = frames := by
  simp [leavers, List.filter_map, Function.comp_def]

@[simp] theorem leavers_other (frames : List OutboundFrame) {exit other : Exit} (h : exit ≠ other) :
    leavers (frames.map (·, exit)) other = [] := by
  simp [leavers, List.filter_map, Function.comp_def, h]

/-- Each frame that was accepted, in the order in which it came, either left in one way, as `left`
says, or is still there; and what the buffer gave back are those that left. -/
structure History.Accounted (h : History) (left : List (OutboundFrame × Exit)) : Prop where
  pushed : h.pushed = left.map Prod.fst ++ h.buffer.frames
  popped : h.popped = leavers left .popped
  evicted : h.evicted = leavers left .evicted
  cleared : h.cleared = (leavers left .cleared).length

structure History.Bounded (h : History) (policy : OverflowPolicy) (capacity : Nat) : Prop where
  policy_eq : h.buffer.policy = policy
  capacity_eq : h.buffer.capacity = capacity
  size_le : policy ≠ .unbounded → h.buffer.size ≤ capacity

namespace History

variable {h : History} {left : List (OutboundFrame × Exit)} {policy : OverflowPolicy} {capacity : Nat}

theorem step_push_error (hpush : h.buffer.push frame = .error fault) : h.step (.push frame) = h := by
  simp [step, hpush]

theorem step_push_ok (hpush : h.buffer.push frame = .ok (evicted, o)) :
    h.step (.push frame) = { h with
      buffer := o, pushed := h.pushed ++ [frame], evicted := h.evicted ++ evicted.toList } := by
  simp [step, hpush]

theorem Accounted.leave (acc : h.Accounted left) {out rest : List OutboundFrame} (exit : Exit)
    (hframes : h.buffer.frames = out ++ rest) {h' : History} (hbuffer : h'.buffer.frames = rest)
    (hpushed : h'.pushed = h.pushed)
    (hpopped : h'.popped = h.popped ++ leavers (out.map (·, exit)) .popped)
    (hevicted : h'.evicted = h.evicted ++ leavers (out.map (·, exit)) .evicted)
    (hcleared : h'.cleared = h.cleared + (leavers (out.map (·, exit)) .cleared).length) :
    h'.Accounted (left ++ out.map (·, exit)) where
  pushed := by simp [hpushed, acc.pushed, hframes, hbuffer, Function.comp_def]
  popped := by simp [hpopped, acc.popped]
  evicted := by simp [hevicted, acc.evicted]
  cleared := by simp [hcleared, acc.cleared]

theorem Accounted.append (acc : h.Accounted left) {h' : History}
    (hbuffer : h'.buffer.frames = h.buffer.frames ++ [frame])
    (hpushed : h'.pushed = h.pushed ++ [frame]) (hpopped : h'.popped = h.popped)
    (hevicted : h'.evicted = h.evicted) (hcleared : h'.cleared = h.cleared) :
    h'.Accounted left where
  pushed := by simp [hpushed, acc.pushed, hbuffer]
  popped := hpopped.trans acc.popped
  evicted := hevicted.trans acc.evicted
  cleared := hcleared.trans acc.cleared

theorem Accounted.step (acc : h.Accounted left) (op : Op) : ∃ left, (h.step op).Accounted left := by
  cases op with
  | push frame =>
    cases hpush : h.buffer.push frame with
    | error fault => exact ⟨left, (step_push_error hpush).symm ▸ acc⟩
    | ok result =>
      obtain ⟨evicted, o⟩ := result
      rw [step_push_ok hpush]
      rcases push_cases hpush with ⟨-, -, rfl, rfl⟩ | ⟨-, rfl, rfl⟩
      · cases hframes : h.buffer.frames with
        | nil => exact ⟨left, acc.append (by simp [hframes]) rfl rfl (by simp) rfl⟩
        | cons oldest rest =>
          -- Making room is to let the oldest frame go and then to append.
          have hfront : h.buffer.frames = [oldest] ++ rest := hframes
          have gone : Accounted { h with
              buffer := { h.buffer with frames := rest }, evicted := h.evicted ++ [oldest] }
              (left ++ [(oldest, .evicted)]) :=
            acc.leave .evicted hfront rfl rfl (by simp) (by simp) (by simp)
          exact ⟨_, gone.append rfl rfl rfl rfl rfl⟩
      · exact ⟨left, acc.append rfl rfl rfl (by simp) rfl⟩
  | pop =>
    cases hframes : h.buffer.frames with
    | nil => exact ⟨left, by simpa [History.step, pop?_nil hframes] using acc⟩
    | cons frame rest =>
      have hfront : h.buffer.frames = [frame] ++ rest := hframes
      refine ⟨_, acc.leave .popped hfront ?_ ?_ ?_ ?_ ?_⟩ <;>
        simp [History.step, pop?_cons hframes]
  | clear =>
    refine ⟨_, acc.leave .cleared (List.append_nil _).symm ?_ ?_ ?_ ?_ ?_⟩ <;>
      simp [History.step, clear, size]

theorem Bounded.step (hb : h.Bounded policy capacity) (hcap : 1 ≤ capacity) (op : Op) :
    (h.step op).Bounded policy capacity := by
  cases op with
  | push frame =>
    cases hpush : h.buffer.push frame with
    | error fault => exact (step_push_error hpush).symm ▸ hb
    | ok result =>
      obtain ⟨evicted, o⟩ := result
      rw [step_push_ok hpush]
      have hsize := hb.size_le
      rcases push_cases hpush with ⟨-, hfull, -, rfl⟩ | ⟨hroom, -, rfl⟩
      · refine ⟨hb.policy_eq, hb.capacity_eq, fun hne => ?_⟩
        have hcapacity := hb.capacity_eq
        have := hsize hne
        simp only [size, List.length_append, List.length_tail, List.length_singleton] at *
        omega
      · refine ⟨hb.policy_eq, hb.capacity_eq, fun hne => ?_⟩
        have hlt := hroom.resolve_left (hb.policy_eq.symm ▸ hne)
        have hcapacity := hb.capacity_eq
        simp only [size, List.length_append, List.length_singleton] at *
        omega
  | pop =>
    cases hframes : h.buffer.frames with
    | nil => simpa [History.step, pop?_nil hframes] using hb
    | cons frame rest =>
      simp only [History.step, pop?_cons hframes]
      refine ⟨hb.policy_eq, hb.capacity_eq, fun hne => ?_⟩
      have := hb.size_le hne
      simp only [size, hframes, List.length_cons] at *
      omega
  | clear => exact ⟨hb.policy_eq, hb.capacity_eq, fun _ => Nat.zero_le _⟩

/-- What holds of a history and of its buffer after any operations. -/
theorem run_spec (policy : OverflowPolicy) {capacity : Nat} (hcap : 1 ≤ capacity) (ops : List Op) :
    (∃ left, ((start policy capacity).run ops).Accounted left) ∧
      ((start policy capacity).run ops).Bounded policy capacity := by
  have hstart : (∃ left, (start policy capacity).Accounted left) ∧
      (start policy capacity).Bounded policy capacity :=
    ⟨⟨[], rfl, rfl, rfl, rfl⟩, rfl, rfl, fun _ => Nat.zero_le _⟩
  unfold run
  induction ops using List.reverseRecOn with
  | nil => exact hstart
  | append_singleton ops op ih =>
    obtain ⟨⟨left, acc⟩, hb⟩ := ih
    simp only [List.foldl_append, List.foldl_cons, List.foldl_nil]
    exact ⟨acc.step op, hb.step hcap op⟩

end History
end GraphRpc.Outbound
