import Mathlib
import GraphRpc.Proofs.Wire.Frames

/-!
# Streams in chunks

What frames a stream brings does not depend on the chunks in which it arrives, whether its bytes are
well formed or not: they are those that parsing the whole stream from the front gives, and reading
ends in the same way. What an encoder refused leaves no trace in a stream.
-/

namespace GraphRpc.Frame

variable {max used len bound missing : Nat} {a b bytes rest : List UInt8} {frame : Frame}
  {frames : List Frame} {fault : FrameFault}

-- ---------------------------------------------------------------------------
-- Bytes that follow
-- ---------------------------------------------------------------------------

theorem payloadLength_ok : payloadLength bytes max = .ok len ↔
    headerSize + len ≤ bytes.length ∧ Binary.value (bytes.take headerSize) = len ∧ len ≤ max := by
  rw [payloadLength]
  dsimp only
  split
  · next hshort =>
    rw [List.length_take] at hshort
    simp only [reduceCtorEq, false_iff]
    omega
  · next hheader =>
    rw [List.length_take] at hheader
    split
    · simp only [reduceCtorEq, false_iff]
      omega
    · rw [List.length_take, List.length_drop]
      split <;> simp only [reduceCtorEq, false_iff, Except.ok.injEq] <;> omega

theorem payloadLength_tooLarge : payloadLength bytes max = .error (.tooLarge len bound) ↔
    headerSize ≤ bytes.length ∧ Binary.value (bytes.take headerSize) = len ∧ max < len ∧
      bound = max := by
  rw [payloadLength]
  dsimp only
  split
  · next hshort =>
    rw [List.length_take] at hshort
    simp only [Except.error.injEq, reduceCtorEq, false_iff]
    omega
  · next hheader =>
    rw [List.length_take] at hheader
    split
    · simp only [Except.error.injEq, FrameFault.tooLarge.injEq]
      omega
    · split <;> simp only [Except.error.injEq, reduceCtorEq, false_iff] <;> omega

theorem parse_ok : parse bytes max = .ok (frame, used) ↔ ∃ len, payloadLength bytes max = .ok len ∧
    frame = ⟨((bytes.drop headerSize).take len).toByteArray⟩ ∧ used = headerSize + len := by
  rw [parse]
  cases payloadLength bytes max <;> simp [bind, Except.bind, pure, Except.pure, eq_comm]

theorem parse_error : parse bytes max = .error fault ↔ payloadLength bytes max = .error fault := by
  rw [parse]
  cases payloadLength bytes max <;> simp [bind, Except.bind, pure, Except.pure]

theorem used_le_of_parse (h : parse bytes max = .ok (frame, used)) :
    0 < used ∧ used ≤ bytes.length := by
  obtain ⟨len, hlen, -, rfl⟩ := parse_ok.1 h
  exact ⟨Nat.add_pos_left (by decide) len, (payloadLength_ok.1 hlen).1⟩

/-- A frame that is there stays the same, whatever follows. -/
theorem parse_append (h : parse a max = .ok (frame, used)) (b : List UInt8) :
    parse (a ++ b) max = .ok (frame, used) := by
  obtain ⟨len, hlen, rfl, rfl⟩ := parse_ok.1 h
  obtain ⟨hthere, hvalue, hmax⟩ := payloadLength_ok.1 hlen
  refine parse_ok.2 ⟨len, payloadLength_ok.2 ⟨?_, ?_, hmax⟩, ?_, rfl⟩
  · rw [List.length_append]
    omega
  · rw [List.take_append_of_le_length (by omega), hvalue]
  · rw [List.drop_append_of_le_length (by omega),
      List.take_append_of_le_length (by rw [List.length_drop]; omega)]

theorem parse_append_tooLarge (h : parse a max = .error (.tooLarge len bound)) (b : List UInt8) :
    parse (a ++ b) max = .error (.tooLarge len bound) := by
  obtain ⟨hheader, hvalue, hlarge⟩ := payloadLength_tooLarge.1 (parse_error.1 h)
  refine parse_error.2 (payloadLength_tooLarge.2 ⟨?_, ?_, hlarge⟩)
  · rw [List.length_append]
    omega
  · rw [List.take_append_of_le_length hheader, hvalue]

-- ---------------------------------------------------------------------------
-- A whole stream
-- ---------------------------------------------------------------------------

/-- Parse frame after frame from the front of some bytes, each time dropping as many as it took, up to
a fault or to bytes that are no complete frame. -/
def parseAll (max : Nat) (bytes : List UInt8) : List Frame × Except FrameFault (List UInt8) :=
  match h : parse bytes max with
  | .ok (frame, used) =>
    have := used_le_of_parse h
    let (frames, ending) := parseAll max (bytes.drop used)
    (frame :: frames, ending)
  | .error (.incomplete _) => ([], .ok bytes)
  | .error (.tooLarge len bound) => ([], .error (.tooLarge len bound))
termination_by bytes.length

theorem parseAll_ok (h : parse bytes max = .ok (frame, used)) : parseAll max bytes =
    (frame :: (parseAll max (bytes.drop used)).1, (parseAll max (bytes.drop used)).2) := by
  rw [parseAll]
  split
  · next hok =>
    cases h.symm.trans hok
    rfl
  · next herror => cases h.symm.trans herror
  · next herror => cases h.symm.trans herror

theorem parseAll_incomplete (h : parse bytes max = .error (.incomplete missing)) :
    parseAll max bytes = ([], .ok bytes) := by
  rw [parseAll]
  split
  · next hok => cases h.symm.trans hok
  · rfl
  · next herror => cases h.symm.trans herror

theorem parseAll_tooLarge (h : parse bytes max = .error (.tooLarge len bound)) :
    parseAll max bytes = ([], .error (.tooLarge len bound)) := by
  rw [parseAll]
  split
  · next hok => cases h.symm.trans hok
  · next herror => cases h.symm.trans herror
  · next herror =>
    cases h.symm.trans herror
    rfl

/-- Bytes that follow are parsed after what was left, unless there was a fault. -/
theorem parseAll_append (a b : List UInt8) : parseAll max (a ++ b) =
    match parseAll max a with
    | (frames, .ok rest) => (frames ++ (parseAll max (rest ++ b)).1, (parseAll max (rest ++ b)).2)
    | (frames, .error fault) => (frames, .error fault) := by
  fun_induction parseAll max a with
  | case1 a frame used h hused frames ending hrest ih =>
    have hdrop : (a ++ b).drop used = a.drop used ++ b := List.drop_append_of_le_length hused.2
    rw [parseAll_ok (parse_append h b), hdrop, ih, hrest]
    cases ending <;> rfl
  | case2 a missing h => rfl
  | case3 a len bound h => exact parseAll_tooLarge (parse_append_tooLarge h b)

theorem parseAll_rest (h : parseAll max bytes = (frames, .ok rest)) :
    parseAll max rest = ([], .ok rest) := by
  fun_induction parseAll max bytes generalizing frames with
  | case1 bytes frame used _ _ more ending hrest ih =>
    cases h
    exact ih hrest
  | case2 bytes missing hmissing =>
    cases h
    exact parseAll_incomplete hmissing
  | case3 bytes len bound _ => cases h

-- ---------------------------------------------------------------------------
-- A stream in chunks
-- ---------------------------------------------------------------------------

/-- How reading ended: after a fault, what is left means nothing. -/
def ending : List UInt8 × Option FrameFault → Except FrameFault (List UInt8)
  | (rest, none) => .ok rest
  | (_, some fault) => .error fault

/-- Read the frames of a stream that arrives in chunks. -/
def readChunks (max : Nat) (chunks : List (List UInt8)) : List Frame × Except FrameFault (List UInt8) :=
  (drainEach max [] chunks).map id ending

/-- Draining a receive buffer is parsing what is in it. -/
theorem drain_eq_parseAll (max : Nat) (buffer : List UInt8) :
    (drain max buffer).map id ending = parseAll max buffer := by
  fun_induction parseAll max buffer with
  | case1 buffer frame used h _ frames _ hrest ih =>
    obtain ⟨hframes, hending⟩ := Prod.mk.inj (ih.trans hrest)
    rw [drain_of_some (by rw [next_eq_parse, h]), ← hframes, ← hending]
    rfl
  | case2 buffer missing h =>
    rw [drain_of_none (by rw [next_eq_parse, h])]
    rfl
  | case3 buffer len bound h =>
    rw [drain_of_error (by rw [next_eq_parse, h])]
    rfl

theorem drainEach_eq_parseAll {buffer : List UInt8} {chunks : List (List UInt8)}
    (h : parseAll max buffer = ([], .ok buffer)) :
    (drainEach max buffer chunks).map id ending = parseAll max (buffer ++ chunks.flatten) := by
  induction chunks generalizing buffer with
  | nil =>
    rw [List.flatten_nil, List.append_nil, h]
    rfl
  | cons chunk chunks ih =>
    rw [List.flatten_cons, ← List.append_assoc, parseAll_append, ← drain_eq_parseAll, drainEach]
    have hdrain := drain_eq_parseAll max (buffer ++ chunk)
    generalize drain max (buffer ++ chunk) = drained at hdrain ⊢
    obtain ⟨frames, rest, _ | fault⟩ := drained
    · have hrest := ih (parseAll_rest hdrain.symm)
      dsimp only [Prod.map, ending]
      rw [← hrest]
      rfl
    · rfl

theorem parse_nil (max : Nat) : parse [] max = .error (.incomplete headerSize) := rfl

theorem readChunks_eq_parseAll (max : Nat) (chunks : List (List UInt8)) :
    readChunks max chunks = parseAll max chunks.flatten :=
  drainEach_eq_parseAll (parseAll_incomplete (parse_nil max))

-- ---------------------------------------------------------------------------
-- A stream that was sent
-- ---------------------------------------------------------------------------

/-- Add the frame around a payload to a send buffer. A payload that is refused leaves the buffer as it
was. -/
def buildInto (max : Nat) (buffer : List UInt8) (payload : ByteArray) : List UInt8 :=
  match build payload max with
  | .ok framed => buffer ++ framed.data.toList
  | .error _ => buffer

def accepted (max : Nat) (payloads : List ByteArray) : List ByteArray :=
  payloads.filter fun payload => (build payload max).isOk

theorem foldl_buildInto (max : Nat) (buffer : List UInt8) (payloads : List ByteArray) :
    payloads.foldl (buildInto max) buffer = buffer ++ (accepted max payloads).flatMap spell := by
  induction payloads generalizing buffer with
  | nil => exact (List.append_nil _).symm
  | cons payload payloads ih =>
    rw [List.foldl_cons, ih, buildInto]
    cases hbuild : build payload max with
    | error fault =>
      have hrefused : accepted max (payload :: payloads) = accepted max payloads :=
        List.filter_cons_of_neg (by simp [hbuild, Except.isOk, Except.toBool])
      rw [hrefused]
    | ok framed =>
      have haccepted : accepted max (payload :: payloads) = payload :: accepted max payloads :=
        List.filter_cons_of_pos (by simp [hbuild, Except.isOk, Except.toBool])
      obtain ⟨-, rfl⟩ := build_ok.1 hbuild
      dsimp only
      rw [haccepted, List.flatMap_cons, List.data_toByteArray, List.append_assoc]

/-- However a stream is cut into chunks, reading it gives the same frames and ends in the same way, and
this is what parsing the stream from the front gives. Of a stream that was sent, exactly the payloads
that were not refused come back. -/
structure ChunksIrrelevant (max : Nat) : Prop where
  same : ∀ chunks chunks' : List (List UInt8), chunks.flatten = chunks'.flatten →
    readChunks max chunks = readChunks max chunks'
  parsed : ∀ chunks : List (List UInt8), readChunks max chunks = parseAll max chunks.flatten
  sent : ∀ (payloads : List ByteArray) (chunks : List (List UInt8)),
    chunks.flatten = payloads.foldl (buildInto max) [] →
      readChunks max chunks = ((accepted max payloads).map mk, .ok [])

theorem chunksIrrelevant (max : Nat) : ChunksIrrelevant max where
  same chunks chunks' h := by rw [readChunks_eq_parseAll, readChunks_eq_parseAll, h]
  parsed := readChunks_eq_parseAll max
  sent payloads chunks h := by
    rw [foldl_buildInto, List.nil_append] at h
    have hwithin : ∀ payload ∈ accepted max payloads, Wire.Within payload.size max := by
      intro payload hmem
      have hok := (List.mem_filter.1 hmem).2
      cases hbuild : build payload max with
      | ok framed => exact (build_ok.1 hbuild).1
      | error fault =>
        rw [hbuild] at hok
        cases hok
    rw [readChunks, drainEach_stream hwithin h]
    rfl

end GraphRpc.Frame
