import Mathlib
import GraphRpc.Proofs.Calls.Withdrawal
import GraphRpc.Proofs.Link.Way
import GraphRpc.Proofs.Peers.Numbering
import GraphRpc.Proofs.Replies

/-!
# Completion

Calls complete in the order in which they were issued. Whatever the order in which the client, the
server and the streams between them take their steps, and however many lanes there are at either end:
the callbacks of the client are told in the order of the calls. That takes ids that tell the calls
apart, as the first `2 ^ 64` of them do.
-/

namespace GraphRpc

variable {α : Type} {codec : Codec α}

-- ---------------------------------------------------------------------------
-- Runs
-- ---------------------------------------------------------------------------

namespace Link

/-- It is so at all times of the run. -/
def Always (p : Link α → Prop) (s : Link α) : List (LinkAction α) → Prop
  | [] => p s
  | a :: actions => p s ∧ (s.act a).Always p actions

/-- The callbacks that were told are told in the order of their calls, and no two calls share one. -/
structure InOrder (s : Link α) : Prop where
  told_sublist : s.told.Sublist s.submitted
  nodup : s.submitted.Nodup

variable {s : Link α} {w : Way} {p : Link α → Prop} {actions : List (LinkAction α)}

theorem Always.now (h : s.Always p actions) : p s := by
  cases actions with
  | nil => exact h
  | cons a actions => exact h.1

theorem Sound.run (h : s.Sound codec w) (hs : s.Always Steady actions) :
    ∃ w', (s.run actions).Sound codec w' := by
  induction actions generalizing s w with
  | nil => exact ⟨w, h⟩
  | cons a actions ih =>
    obtain ⟨w', h'⟩ := h.act a hs.1 hs.2.now.opened
    exact ih h' hs.2

theorem Sound.inOrder (h : s.Sound codec w) : s.InOrder := by
  obtain ⟨before, hsubmitted, -, -, flow, -, -, hsublist⟩ := h.turn
  constructor
  case told_sublist =>
    rw [hsubmitted]
    rw [List.append_assoc] at hsublist
    exact ((List.sublist_append_left ..).trans hsublist).trans (List.sublist_append_left ..)
  case nodup => exact .of_map _ (h.numbered ▸ List.nodup_range)

end Link

-- ---------------------------------------------------------------------------
-- Fresh ids
-- ---------------------------------------------------------------------------

namespace Link

variable {s : Link α} {w : Way} {actions : List (LinkAction α)} {n : Nat}

/-- `n` calls got their ids. Who is in the table got an id before the call that was issued last, or is
that call. -/
structure Numbered (s : Link α) (n : Nat) : Prop where
  next : s.client.endpoint.connection.nextCallId = UInt64.ofNat (n + 1)
  older : ∃ older, firstIds n = older ++ s.current (·.phase.id?.toList) ∧
    ∀ x ∈ s.client.endpoint.entries,
      x.1 ∈ older ∨ ∃ call ∈ s.calling, (Party.invoke call).listed? = some x
  le : n ≤ s.submitted.length
  lt : ∀ call ∈ s.calling, call.phase.id? = none → n < s.submitted.length

theorem numbered_start (codec : Codec α) (kind : StrategyKind) (workers connection : Nat)
    (routes : Routes α) (server : Station α) :
    (start (.start codec kind workers connection routes) server).Numbered 0 where
  next := rfl
  older := ⟨[], rfl, List.forall_mem_nil _⟩
  le := Nat.le_refl 0
  lt call hcall := (Option.not_mem_none call hcall).elim

theorem Numbered.entries_mem (h : s.Numbered n) :
    ∀ x ∈ s.client.endpoint.entries, x.1 ∈ firstIds n := by
  obtain ⟨-, ⟨older, hids, holder⟩, -, -⟩ := h
  intro x hx
  rw [hids]
  rcases holder x hx with hx | ⟨call, hcall, hlisted⟩
  · exact List.mem_append_left _ hx
  · have hid : call.phase.id? = some x.1 := Party.id?_of_listed? hlisted
    rw [current_of_calling hcall, hid]
    exact List.mem_append_right _ (List.mem_singleton_self _)

theorem Numbered.submit (h : s.Numbered n) (method : String) (payload : Payload α) (awaited : Bool) :
    (s.submit method payload awaited).Numbered n := by
  have hlt : n < (s.submit method payload awaited).submitted.length := by
    have hlength : (s.submit method payload awaited).submitted.length = s.submitted.length + 1 :=
      List.length_append
    rw [hlength]
    exact Nat.lt_succ_of_le h.le
  refine ⟨h.next, ⟨firstIds n, (List.append_nil _).symm, fun x hx => .inl (h.entries_mem x hx)⟩, hlt.le,
    fun _ _ _ => hlt⟩

theorem Numbered.lose {s' : Link α} (h : s.Numbered n) (hcalling : s'.calling = s.calling)
    (hsubmitted : s'.submitted = s.submitted)
    (hnext : s'.client.endpoint.connection.nextCallId = s.client.endpoint.connection.nextCallId)
    (hentries : s'.client.endpoint.entries ⊆ s.client.endpoint.entries) : s'.Numbered n := by
  obtain ⟨hbefore, ⟨older, hids, holder⟩, hle, hlt⟩ := h
  refine ⟨hnext.trans hbefore, ⟨older, ?_, ?_⟩, ?_, ?_⟩
  · rw [current, hcalling]
    exact hids
  · rw [hcalling]
    exact fun x hx => holder x (hentries hx)
  · rw [hsubmitted]
    exact hle
  · rw [hcalling, hsubmitted]
    exact hlt

theorem id_issue? (call : Invocation α) : (Party.invoke call).issue?.map Issue.id = call.phase.id? := by
  rw [Party.issue?, Option.map_map]
  exact Option.map_id' ..

theorem Numbered.invoke {call : Invocation α} (h : s.Numbered n) (hcall : s.calling = some call) :
    ∃ n', (s.invoke call).Numbered n' := by
  obtain ⟨hnext, ⟨older, hids, holder⟩, hle, hlt⟩ := h
  rw [current_of_calling hcall] at hids
  have hlisting := call.listing s.client.endpoint
  have hentries : ∀ x ∈ (s.invoke call).client.endpoint.entries, x.1 ∈ older ∨
      ∃ call' ∈ (s.invoke call).calling, (Party.invoke call').listed? = some x := by
    intro x hx
    rcases hlisting x hx with hlisted | ⟨hmem, hother⟩
    · exact .inr ⟨_, rfl, hlisted⟩
    · refine .inl ((holder x hmem).resolve_right ?_)
      rintro ⟨call', hcall', hlisted⟩
      cases hcall.symm.trans hcall'
      exact hother hlisted
  cases call.step_takes s.client.endpoint with
  | nothing hissue hsame =>
    have hid : (call.step s.client.endpoint).1.id? = call.phase.id? := by
      have hmap := congrArg (Option.map Issue.id) hissue
      rw [id_issue?, id_issue?] at hmap
      exact hmap
    refine ⟨n, hsame.trans hnext, ⟨older, ?_, hentries⟩, hle, ?_⟩
    · rw [hids, ← hid]
      rfl
    · rintro _ ⟨⟩ hnone
      exact hlt call hcall (hid.symm.trans hnone)
  | next hnone x hissue hid hafter =>
    have hnone : call.phase.id? = none := by
      rw [← id_issue?, hnone]
      rfl
    have hsome : (call.step s.client.endpoint).1.id? = some x.id := by
      have hmap := congrArg (Option.map Issue.id) hissue
      rw [id_issue?] at hmap
      exact hmap
    rw [hnone, Option.toList_none, List.append_nil] at hids
    refine ⟨n + 1, ?_, ⟨older, ?_, hentries⟩, hlt call hcall hnone, ?_⟩
    · refine hafter.trans ?_
      rw [hnext]
      exact (UInt64.ofNat_add _ 1).symm
    · have hcurrent : (s.invoke call).current (·.phase.id?.toList) = [x.id] :=
        (current_of_calling rfl _).trans (congrArg Option.toList hsome)
      rw [hcurrent, firstIds_succ, hids, hid, hnext]
    · rintro _ ⟨⟩ hnone'
      cases hsome.symm.trans hnone'

theorem Sound.numbered_act (h : s.Sound codec w) (hn : s.Numbered n) (a : LinkAction α) (hopen : s.Open)
    (hopen' : (s.act a).Open) : ∃ n', (s.act a).Numbered n' := by
  cases a with
  | submit method payload awaited =>
    simp only [Link.act]
    split
    · exact ⟨n, hn.submit method payload awaited⟩
    · exact ⟨n, hn⟩
  | invoke =>
    simp only [Link.act]
    cases hcall : s.calling with
    | none => exact ⟨n, hn⟩
    | some call => exact hn.invoke hcall
  | client a =>
    obtain ⟨t, -, hmoved⟩ | ⟨handling, hone, hgoes, hact⟩ :=
      h.client.act_cases a hopen.1 hopen'.1
    · have hentries : (s.client.act a).endpoint.entries = s.client.endpoint.entries :=
        congrArg Calls.entries hmoved.kept.calls
      exact ⟨n, hn.lose rfl rfl hmoved.nextCallId (List.Perm.of_eq hentries).subset⟩
    · obtain ⟨-, honly, -⟩ := h.client.dispatch_reply hone hgoes
      rw [Link.act, hact]
      exact ⟨n, hn.lose rfl rfl honly.nextCallId honly.entries⟩
  | server a => exact ⟨n, hn.lose rfl rfl rfl (List.Subset.refl _)⟩
  | forth count => exact ⟨n, hn.lose rfl rfl rfl (List.Subset.refl _)⟩
  | back count => exact ⟨n, hn.lose rfl rfl rfl (List.Subset.refl _)⟩

/-- So long as no id was given twice, the one that is about to enter the table is new there. -/
theorem Numbered.steady (h : s.Numbered n) (hopen : s.Open) (hfew : s.submitted.length ≤ 2 ^ 64) :
    s.Steady := by
  refine ⟨hopen, fun id hentering => ?_⟩
  obtain ⟨-, ⟨older, hids, holder⟩, hle, -⟩ := h
  obtain ⟨call, hcall, henters⟩ := Option.bind_eq_some_iff.1 hentering
  have hphase : call.phase.id? = some id ∧ call.phase.listed? = none := by
    cases hphase : call.phase with
    | entering own bytes =>
      rw [hphase] at henters
      cases henters
      exact ⟨rfl, rfl⟩
    | _ =>
      rw [hphase] at henters
      cases henters
  have hnodup := nodup_firstIds (hle.trans hfew)
  rw [hids, current_of_calling hcall, hphase.1] at hnodup
  have hnew : id ∉ older := fun hmem =>
    (List.nodup_append.1 hnodup).2.2 id hmem id (List.mem_singleton_self id) rfl
  rw [← Bool.not_eq_true, Calls.contains_iff]
  rintro ⟨x, hx, rfl⟩
  rcases holder x hx with hmem | ⟨call', hcall', hlisted⟩
  · exact hnew hmem
  · cases hcall.symm.trans hcall'
    rw [Party.listed?, hphase.2] at hlisted
    cases hlisted

theorem submitted_length_le_act (s : Link α) (a : LinkAction α) :
    s.submitted.length ≤ (s.act a).submitted.length := by
  cases a with
  | submit method payload awaited =>
    simp only [Link.act]
    split
    · have hlength : (s.submit method payload awaited).submitted.length = s.submitted.length + 1 :=
        List.length_append
      rw [hlength]
      exact Nat.le_succ _
    · exact Nat.le_refl _
  | invoke =>
    simp only [Link.act]
    cases s.calling <;> exact Nat.le_refl _
  | client | server | forth | back => exact Nat.le_refl _

theorem submitted_length_le_run (s : Link α) (actions : List (LinkAction α)) :
    s.submitted.length ≤ (s.run actions).submitted.length := by
  induction actions generalizing s with
  | nil => exact Nat.le_refl _
  | cons a actions ih => exact (s.submitted_length_le_act a).trans (ih (s.act a))

theorem Sound.steadily (h : s.Sound codec w) (hn : s.Numbered n) (hopen : s.Always Open actions)
    (hfew : (s.run actions).submitted.length ≤ 2 ^ 64) : s.Always Steady actions := by
  have hsteady : s.Steady :=
    hn.steady hopen.now ((s.submitted_length_le_run actions).trans hfew)
  induction actions generalizing s w n with
  | nil => exact hsteady
  | cons a actions ih =>
    obtain ⟨w', h'⟩ := h.act a hsteady hopen.2.now
    obtain ⟨n', hn'⟩ := h.numbered_act hn a hopen.1 hopen.2.now
    have hfew' : ((s.act a).run actions).submitted.length ≤ 2 ^ 64 := hfew
    exact ⟨hsteady, ih h' hn' hopen.2 hfew'
      (hn'.steady hopen.2.now (((s.act a).submitted_length_le_run actions).trans hfew'))⟩

-- ---------------------------------------------------------------------------
-- Calls complete in order
-- ---------------------------------------------------------------------------

section
variable {clientKind serverKind : StrategyKind} {clientWorkers serverWorkers clientNumber serverNumber : Nat}
  {clientRoutes serverRoutes : Routes α}

theorem sound_start (hquiet : ∀ m, serverRoutes.Quiet m) :
    (start (.start codec clientKind clientWorkers clientNumber clientRoutes)
      (.start codec serverKind serverWorkers serverNumber serverRoutes)).Sound codec {} where
  client := ⟨Station.bears_start .., .nil, .nil⟩
  server := ⟨Station.bears_start .., .nil, .nil⟩
  quiet := hquiet
  untimed := rfl
  calling call hcall := (Option.not_mem_none call hcall).elim
  turn := by
    rw [path, start, Station.line_start, Station.line_start]
    exact ⟨[], rfl, List.nodup_nil, List.nodup_nil, [], rfl, List.nil_subset _, List.Sublist.refl _⟩
  numbered := rfl

/-- Up to `2 ^ 64` calls, all that it takes is that neither end is closed. -/
theorem steadily_start (hquiet : ∀ m, serverRoutes.Quiet m)
    (hopen : (start (.start codec clientKind clientWorkers clientNumber clientRoutes)
      (.start codec serverKind serverWorkers serverNumber serverRoutes)).Always Open actions)
    (hfew : ((start (.start codec clientKind clientWorkers clientNumber clientRoutes)
      (.start codec serverKind serverWorkers serverNumber serverRoutes)).run actions).submitted.length ≤
        2 ^ 64) :
    (start (.start codec clientKind clientWorkers clientNumber clientRoutes)
      (.start codec serverKind serverWorkers serverNumber serverRoutes)).Always Steady actions :=
  (sound_start hquiet).steadily (numbered_start ..) hopen hfew

/-- Whatever lanes there are at either end, and whatever the order in which everybody takes its steps:
a client whose server only answers tells its callbacks in the order of their calls. -/
theorem run_tellsInOrder (hquiet : ∀ m, serverRoutes.Quiet m) {actions : List (LinkAction α)}
    (hsteady : (start (.start codec clientKind clientWorkers clientNumber clientRoutes)
      (.start codec serverKind serverWorkers serverNumber serverRoutes)).Always Steady actions) :
    ((start (.start codec clientKind clientWorkers clientNumber clientRoutes)
      (.start codec serverKind serverWorkers serverNumber serverRoutes)).run actions).InOrder := by
  obtain ⟨w, hsound⟩ := (sound_start hquiet).run hsteady
  exact hsound.inOrder

end

def echoed : Link Empty :=
  start (.start ⟨{}, .generic⟩ .inline 1 7 {}) (.start ⟨{}, .generic⟩ .pooled 2 3 Routes.echo)

/-- Two calls are issued before there is a transport. The server hands both to its pool before the first
worker of the pool begins to serve them. -/
def earlyCalls : List (LinkAction Empty) :=
  let rounds : List (Nat × LinkAction Empty) := [
    (1, .submit "p" (.ofValues [.bool true]) false), (8, .invoke),
    (1, .submit "p" (.ofValues [.bool false]) false), (8, .invoke),
    (1, .client .attach), (2, .client .write), (1, .forth 64),
    (1, .server .attach), (1, .server .read), (3, .server (.work .reader)),
    (1, .server .read), (3, .server (.work .reader)),
    (15, .server (.work (.worker 0))), (2, .server .write), (1, .back 64),
    (1, .client .read), (5, .client (.work .reader)), (1, .client .read), (5, .client (.work .reader))]
  rounds.flatMap fun (count, a) => List.replicate count a

theorem run_tellsInOrder_earlyCalls : (∀ m, Routes.echo.Quiet m) ∧ echoed.Always Steady earlyCalls ∧
    (echoed.run earlyCalls).InOrder ∧
    (echoed.run earlyCalls).told = [⟨0, false⟩, ⟨1, false⟩] := by
  have hquiet (m : Message Empty) : Routes.echo.Quiet m := by
    intro handler hmem e
    obtain ⟨registered, hregistered, rfl⟩ := List.mem_map.1 hmem
    obtain rfl := List.mem_singleton.1 (List.mem_of_mem_filter hregistered)
    exact .refl e
  have hopen : echoed.Always Open earlyCalls := by cbv
  have hfew : (echoed.run earlyCalls).submitted.length ≤ 2 ^ 64 := by cbv
  have hsteady : echoed.Always Steady earlyCalls := steadily_start hquiet hopen hfew
  exact ⟨hquiet, hsteady, run_tellsInOrder hquiet hsteady, by cbv⟩

end Link
end GraphRpc
