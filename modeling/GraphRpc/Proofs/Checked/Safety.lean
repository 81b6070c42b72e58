import Mathlib
import GraphRpc.Proofs.Checked.Decoding
import GraphRpc.Proofs.Wire.Chunks

/-!
# Decoding never traps

The decoder with checked steps follows the decoder of the library from related states. What relates
them is that the cursor shows the bytes that are left, that the heaps are equal, and that the table
of numbers names the slots of the heap in order. The relation also carries a number of slots that
are known to be there. A decoder never loses a slot, so the object whose fields are being read is
still there however deep the values of these fields are.
-/

namespace GraphRpc.Checked

open Wire

variable {α β : Type}

-- ---------------------------------------------------------------------------
-- Decoders side by side
-- ---------------------------------------------------------------------------

/-- The checked decoder is where the other one is, and at least `known` slots are filled. -/
structure Tracks (known : Nat) (d : Decoder α) (d' : GraphRpc.Decoder α) : Prop where
  shows : d.cursor.Shows d'.rest
  heap_eq : d.heap = d'.heap
  size_identity : d.identity.size = d'.heap.size
  identity_get : ∀ i < d'.heap.size, d.identity[i]? = some (.ofSlot i)
  size_le : d'.heap.size ≤ 256 ^ 4
  known_le : known ≤ d'.heap.size

variable {known : Nat} {d : Decoder α} {d' : GraphRpc.Decoder α}

theorem tracks_start {bytes : List UInt8} (h : bytes.length < UInt64.size) :
    Tracks (α := α) 0 ⟨⟨bytes, 0⟩, .empty, #[]⟩ ⟨bytes, .empty⟩ where
  shows := Cursor.shows_start h
  heap_eq := rfl
  size_identity := rfl
  identity_get i hi := absurd hi (Nat.not_lt_zero i)
  size_le := Nat.zero_le _
  known_le := le_rfl

theorem Tracks.weaken {fewer : Nat} (h : Tracks known d d') (hle : fewer ≤ known) :
    Tracks fewer d d' := { h with known_le := hle.trans h.known_le }

namespace DecoderM

theorem read_follows {reader : CursorM β} {reader' : ReadM β}
    (h : Follows Cursor.Shows reader reader') :
    Follows (Tracks (α := α) known) (read reader) (GraphRpc.DecodeM.read reader') := by
  intro d d' tracks
  have agree := h d.cursor d'.rest tracks.shows
  unfold read GraphRpc.DecodeM.read
  generalize reader d.cursor = r at agree ⊢
  generalize reader' d'.rest = r' at agree ⊢
  cases agree with
  | ok b related => exact .ok b { tracks with shows := related }
  | fault why c rest => exact .fault why _ _

/-- What is left of the input bounds nothing here: a count of 32 bits is small enough. -/
theorem reserve_run (h : Tracks known d d') (hcount : count ≤ maxWord) (hsize : size ≤ 2 ^ 31) :
    reserve count width size d = .ok () d := by
  have hfit : min count (d'.rest.length / width) * size < 2 ^ 63 := by
    calc min count (d'.rest.length / width) * size
        ≤ maxWord * 2 ^ 31 := Nat.mul_le_mul ((min_le_left ..).trans hcount) hsize
      _ < 2 ^ 63 := by decide
  unfold reserve
  rw [run_bind_of_ok (get_ok.2 ⟨rfl, rfl⟩), run_checked h.shows.remaining]
  exact lift_ok.2 ⟨by rw [allot_of_lt hfit]; rfl, rfl⟩

theorem repeated_follows {R : Decoder α → GraphRpc.Decoder α → Prop} {action : DecoderM α β}
    {action' : GraphRpc.DecodeM α β} (h : Follows R action action') (n : Nat) (done : List β) :
    Follows R (repeated action n done) (GraphRpc.DecodeM.repeated action' n done) := by
  induction n generalizing done with
  | zero => exact .pure _
  | succ n ih =>
    apply h.bind
    intro b
    exact ih (b :: done)

theorem insert_agree (h : Tracks known d d') (hroom : d'.heap.size < 256 ^ 4) (typeName : String)
    (o : Object α) :
    ∃ e e', insert typeName o d = .ok (.ofSlot d'.heap.size) e ∧
      GraphRpc.DecodeM.insert typeName o d' = .ok (.ofSlot d'.heap.size) e' ∧
      Tracks (d'.heap.size + 1) e e' := by
  obtain ⟨cursor, heap, identity⟩ := d
  obtain ⟨rest, heap'⟩ := d'
  obtain rfl : heap = heap' := h.heap_eq
  refine ⟨⟨cursor, (heap.insert typeName o).2, identity.push (.ofSlot heap.size)⟩, _, ?_, rfl,
    ⟨h.shows, rfl, ?_, ?_, ?_, ?_⟩⟩
  · unfold insert
    rw [run_bind_of_ok (get_ok.2 ⟨rfl, rfl⟩), run_checked (narrow_of_le (le_maxWord.2 hroom))]
    rfl
  · simpa [Heap.insert, Heap.size] using h.size_identity
  · intro i hi
    have hsize : identity.size = heap.size := h.size_identity
    simp only [Heap.size, Array.size_push] at hi
    rw [Array.getElem?_push]
    by_cases hlast : i = identity.size
    · simp [hlast, hsize]
    · rw [if_neg hlast]
      exact h.identity_get i (by simp only [Heap.size] at *; omega)
  · simp only [Heap.size, Array.size_push]
    exact hroom
  · simp [Heap.size]

theorem setField_follows (access : FieldAccess α) {n : Nat} (hn : n < known) (field : String)
    (v : Value) :
    Follows (Tracks known) (setField access (.ofSlot n) field v)
      (GraphRpc.DecodeM.setField access (.ofSlot n) field v) := by
  intro d d' tracks
  have hlt : n < d'.heap.size := hn.trans_le tracks.known_le
  have hslot : (Handle.ofSlot n).slot = n :=
    Handle.slot_ofSlot (hlt.trans_le tracks.size_le)
  obtain ⟨o, ho⟩ : ∃ o, d'.heap.object? (.ofSlot n) = some o := by
    simp [Heap.object?, Heap.slot?, hslot,
      Array.getElem?_eq_getElem (show n < d'.heap.slots.size from hlt)]
  unfold setField GraphRpc.DecodeM.setField
  rw [run_bind_of_ok (get_ok.2 ⟨rfl, rfl⟩), run_bind_of_ok (get_ok.2 ⟨rfl, rfl⟩), tracks.heap_eq, ho]
  refine (Follows.lift _ d d' tracks).bind fun o' e e' _ tracks' => ?_
  have hsize : (e'.heap.setObject (.ofSlot n) o').size = e'.heap.size := Heap.size_setObject ..
  refine .ok () ⟨tracks'.shows, congrArg (Heap.setObject · _ o') tracks'.heap_eq, ?_, ?_, ?_, ?_⟩
  · rw [hsize]
    exact tracks'.size_identity
  · rw [hsize]
    exact tracks'.identity_get
  · rw [hsize]
    exact tracks'.size_le
  · rw [hsize]
    exact tracks'.known_le

end DecoderM

open DecoderM

-- ---------------------------------------------------------------------------
-- Values
-- ---------------------------------------------------------------------------

theorem room_lt (codec : Codec α) : codec.room + 1 < UInt64.size := by
  have : codec.room ≤ maxWord := min_le_right ..
  simp only [maxWord, UInt32.size, UInt64.size] at *
  omega

theorem enter_of_lt {codec : Codec α} (h : depth < codec.room) :
    enter codec depth = .ok ⟨depth + 1, Nat.lt_succ_self depth, h⟩ := by
  have hadd : add depth 1 = .ok (depth + 1) := add_of_lt (by have := room_lt codec; omega)
  unfold enter
  split
  · next why hwhy =>
    rw [hadd] at hwhy
    cases hwhy
  · next inner hinner =>
    rw [hadd] at hinner
    cases hinner
    simp only [Codec.room, lt_min_iff] at h
    rw [dif_neg (by omega)]

theorem enter_room (codec : Codec α) : enter codec codec.room = .error (.fault codec.tooDeep) := by
  have hadd : add codec.room 1 = .ok (codec.room + 1) := add_of_lt (room_lt codec)
  have hdeep : codec.room + 1 > codec.limits.maxDepth ∨ codec.room + 1 > maxWord := by
    simp only [Codec.room]
    omega
  unfold enter
  split
  · next why hwhy =>
    rw [hadd] at hwhy
    cases hwhy
  · next inner hinner =>
    rw [hadd] at hinner
    cases hinner
    rw [dif_pos hdeep]
    rfl

theorem enter_room_follows {codec : Codec α} {R : Decoder α → GraphRpc.Decoder α → Prop}
    (hdepth : depth + 0 = codec.room)
    (f : { inner // depth < inner ∧ inner ≤ codec.room } → DecoderM α β) :
    Follows R ((liftM (enter codec depth) : DecoderM α _) >>= f) (throw codec.tooDeep) := by
  obtain rfl : depth = codec.room := hdepth
  intro d d' _
  rw [enter_room]
  exact .fault _ d d'

theorem enter_follows {codec : Codec α} {R : Decoder α → GraphRpc.Decoder α → Prop}
    (hdepth : depth + (room + 1) = codec.room)
    {f : { inner // depth < inner ∧ inner ≤ codec.room } → DecoderM α β}
    {g : GraphRpc.DecodeM α β}
    (h : ∀ inner, inner.1 + room = codec.room → Follows R (f inner) g) :
    Follows R ((liftM (enter codec depth) : DecoderM α _) >>= f) g := by
  intro d d' tracks
  rw [enter_of_lt (show depth < codec.room by omega)]
  exact h _ (by simp only; omega) d d' tracks

theorem reserved_follows (what : Measure) (bound width : Nat) (hsize : size ≤ 2 ^ 31)
    {f : Nat → DecoderM α β} {g : Nat → GraphRpc.DecodeM α β}
    (h : ∀ count, Follows (Tracks known) (f count) (g count)) :
    Follows (Tracks known)
      (read (.length what bound) >>= fun count => reserve count width size >>= fun _ => f count)
      (GraphRpc.DecodeM.read (.length what bound) >>= g) := by
  intro d d' tracks
  refine (read_follows (CursorM.length_follows what bound) d d' tracks).bind
    fun count e e' hcount tracks' => ?_
  have hword : count ≤ maxWord := (length_ok.1 (read_ok.1 hcount).1).2.2
  rw [run_bind_of_ok (reserve_run tracks' hword hsize)]
  exact h count e e' tracks'

theorem field_follows (codec : Codec α) (access : FieldAccess α) {item : DecoderM α Value}
    {item' : GraphRpc.DecodeM α Value} (h : Follows (Tracks known) item item') (hn : n < known) :
    Follows (Tracks known)
      (do
        let name ← read (.text .fieldName codec.limits.maxStringLen)
        let v ← item
        setField access (.ofSlot n) name v)
      (do
        let name ← GraphRpc.DecodeM.read (.text .fieldName codec.limits.maxStringLen)
        let v ← item'
        GraphRpc.DecodeM.setField access (.ofSlot n) name v) := by
  apply (read_follows (CursorM.text_follows _ _)).bind
  intro name
  apply h.bind
  intro v
  exact setField_follows access hn name v

theorem decodeAt_follows (codec : Codec α) {size : Nat} (hsize : size ≤ 2 ^ 30) (room : Nat) :
    ∀ depth known, depth + room = codec.room →
      Follows (Tracks known) (decodeAt codec size depth) (codec.decodeAt room) := by
  induction room using Nat.strong_induction_on with
  | _ room ih =>
    intro depth known hdepth
    rw [decodeAt.eq_def, Codec.decodeAt.eq_def]
    apply (read_follows CursorM.byte_follows).bind
    intro b
    apply (Follows.lift _).bind
    intro tag
    cases tag with
    | null => exact .pure _
    | bool =>
      apply (read_follows CursorM.byte_follows).bind
      intro b
      by_cases h0 : b = 0
      · subst h0
        exact .pure _
      · by_cases h1 : b = 1
        · subst h1
          exact .pure _
        · simp only
          exact .throw _
    | i8 | i16 | i32 | i64 | f32 | f64 =>
      exact (read_follows (CursorM.nat_follows _)).bind fun _ => .pure _
    | str => exact (read_follows (CursorM.text_follows _ _)).bind fun _ => .pure _
    | bytes =>
      apply (read_follows (CursorM.length_follows _ _)).bind
      intro len
      exact (read_follows (CursorM.take_follows len)).bind fun _ => .pure _
    | array =>
      cases room with
      | zero => exact enter_room_follows hdepth _
      | succ room =>
        apply enter_follows hdepth
        intro inner hinner
        apply reserved_follows _ _ _ (by omega)
        intro count
        have item := ih room (by omega) inner known hinner
        exact (repeated_follows item count []).bind fun _ => .pure _
    | map =>
      cases room with
      | zero => exact enter_room_follows hdepth _
      | succ room =>
        apply enter_follows hdepth
        intro inner hinner
        apply reserved_follows _ _ _ (by omega)
        intro count
        have item := ih room (by omega) inner known hinner
        apply (repeated_follows _ count []).bind fun _ => .pure _
        exact item.bind fun _ => item.bind fun _ => .pure _
    | objectRef =>
      apply (read_follows (CursorM.nat_follows 4)).bind
      intro number d d' tracks
      rw [run_bind_of_ok (get_ok.2 ⟨rfl, rfl⟩), run_bind_of_ok (get_ok.2 ⟨rfl, rfl⟩)]
      by_cases hmet : number < d'.heap.size
      · rw [tracks.identity_get number hmet, if_pos hmet]
        exact .ok _ tracks
      · rw [Array.getElem?_eq_none (by rw [tracks.size_identity]; omega), if_neg hmet]
        exact .fault _ _ _
    | object =>
      cases room with
      | zero => exact enter_room_follows hdepth _
      | succ room =>
        apply enter_follows hdepth
        intro inner hinner
        apply (read_follows (CursorM.text_follows _ _)).bind
        intro typeName d d' tracks
        refine (read_follows (CursorM.nat_follows 4) d d' tracks).bind
          fun number e e' hnumber tracks => ?_
        have hword : number < 256 ^ 4 := (nat_ok.1 (read_ok.1 hnumber).1).2
        rw [run_bind_of_ok (get_ok.2 ⟨rfl, rfl⟩), run_bind_of_ok (get_ok.2 ⟨rfl, rfl⟩),
          tracks.size_identity]
        by_cases hseq : number = e'.heap.size
        · rw [if_neg (not_not.2 hseq), if_neg (not_not.2 hseq)]
          refine (Follows.lift _ e e' tracks).bind fun access m m' hm tracks => ?_
          obtain rfl := (lift_ok.1 hm).2
          refine (Follows.lift _ m e' tracks).bind fun o m m' hm tracks => ?_
          obtain rfl := (lift_ok.1 hm).2
          obtain ⟨f, f', hf, hf', filled⟩ := insert_agree tracks (hseq ▸ hword) typeName o
          rw [run_bind_of_ok hf, run_bind_of_ok hf']
          -- While the fields are read, the slot of the object counts as known.
          have fields : Follows (Tracks (e'.heap.size + 1)) _ _ :=
            (read_follows (CursorM.length_follows .fieldCount codec.limits.maxFields)).bind
              fun count => (repeated_follows (field_follows codec access
                (ih room (by omega) inner _ hinner) (Nat.lt_succ_self _)) count []).bind
                fun _ => .pure (Value.object (.ofSlot e'.heap.size))
          exact (fields f f' filled).weaken fun _ _ t =>
            t.weaken (tracks.known_le.trans (Nat.le_succ _))
        · rw [if_pos hseq, if_pos hseq]
          exact .fault _ _ _

-- ---------------------------------------------------------------------------
-- Whole inputs
-- ---------------------------------------------------------------------------

/-- The outcome of a run without checks, as one with checks that all passed. -/
def untrapped {ε : Type} (outcome : Except ε β) : Except (Stop ε) β := outcome.mapError .fault

theorem untrapped_ne {ε : Type} (outcome : Except ε β) (why : Trap) :
    untrapped outcome ≠ .error (.trap why) := by
  cases outcome <;> simp [untrapped, Except.mapError]

theorem bind_checked {ε : Type} {x : Except Trap β} (h : x = .ok b)
    (f : β → Except (Stop ε) γ) : ((liftM x : Except (Stop ε) β) >>= f) = f b := by
  cases h
  rfl

theorem finish_eq (h : Tracks known d d') : finish d = untrapped (Codec.finish d') := by
  rw [finish, bind_checked h.shows.remaining, Codec.finish, h.heap_eq]
  cases d'.rest <;> rfl

theorem decodeAll_eq {action : DecoderM α β} {action' : GraphRpc.DecodeM α β}
    (h : Follows (Tracks 0) action action') {bytes : List UInt8} (hlen : bytes.length < UInt64.size) :
    decodeAll action bytes = untrapped (Codec.decodeAll action' bytes) := by
  have agree := h _ _ (tracks_start hlen)
  unfold decodeAll Codec.decodeAll
  generalize action _ = r at agree ⊢
  generalize action' _ = r' at agree ⊢
  cases agree with
  | ok b tracks =>
    simp only [finish_eq tracks]
    cases Codec.finish _ <;> rfl
  | fault why _ _ => rfl

theorem decode_follows (codec : Codec α) (hsize : size ≤ 2 ^ 30) :
    Follows (Tracks 0) (decode codec size) codec.decode :=
  decodeAt_follows codec hsize codec.room 0 0 (Nat.zero_add _)

theorem decodeValue_eq (codec : Codec α) (hsize : size ≤ 2 ^ 30) {bytes : List UInt8}
    (hlen : bytes.length < UInt64.size) :
    decodeValue codec size bytes = untrapped (codec.decodeValue bytes) :=
  decodeAll_eq (decode_follows codec hsize) hlen

theorem decodeParams_eq (codec : Codec α) (hsize : size ≤ 2 ^ 30) {bytes : List UInt8}
    (hlen : bytes.length < UInt64.size) :
    decodeParams codec size bytes = untrapped (codec.decodeParams bytes) := by
  refine decodeAll_eq ?_ hlen
  apply reserved_follows _ _ _ (by omega)
  intro count
  exact repeated_follows (decode_follows codec hsize) count []

theorem header_follows (codec : Codec α) :
    Follows Cursor.Shows (header codec) (Message.header codec) := by
  apply CursorM.byte_follows.bind
  intro b
  apply (Follows.lift _).bind
  intro kind
  apply (CursorM.nat_follows 8).bind
  intro callId
  apply (CursorM.text_follows _ _).bind
  intro method
  dsimp only
  split
  · exact (Follows.throw _).bind fun _ => .pure _
  · exact .pure _

theorem decodeMessage_eq (codec : Codec α) (hsize : size ≤ 2 ^ 30) {bytes : List UInt8}
    (hlen : bytes.length < UInt64.size) :
    decodeMessage codec size bytes = untrapped (Message.decode codec bytes) := by
  have first := CursorM.byte_follows _ _ (Cursor.shows_start hlen)
  unfold decodeMessage Message.decode
  generalize CursorM.byte _ = r at first ⊢
  generalize ReadM.byte _ = r' at first ⊢
  cases first with
  | fault why _ _ => rfl
  | @ok version c rest shows =>
    dsimp only
    split
    · rfl
    have second := header_follows codec c rest shows
    generalize header codec c = r at second ⊢
    generalize Message.header codec rest = r' at second ⊢
    cases second with
    | fault why _ _ => rfl
    | @ok found c' rest' shows' =>
      have hrest : rest'.length < UInt64.size :=
        (shows'.length_eq ▸ Nat.sub_le ..).trans_lt shows'.length_lt
      simp only [bind_checked shows'.rest, decodeParams_eq codec hsize hrest]
      cases codec.decodeParams rest' <;> rfl

-- ---------------------------------------------------------------------------
-- Frames
-- ---------------------------------------------------------------------------

theorem value_header_lt {header : List UInt8} (h : header.length = Frame.headerSize) :
    Frame.headerSize + Binary.value header < UInt64.size := by
  have := value_lt header
  rw [h] at this
  simp only [Frame.headerSize, UInt64.size] at *
  omega

theorem payloadLength_eq (bytes : List UInt8) (bound : Nat) :
    payloadLength bytes bound = untrapped (Frame.payloadLength bytes bound) := by
  unfold payloadLength Frame.payloadLength
  simp only [List.length_take, List.length_drop]
  by_cases short : bytes.length < Frame.headerSize
  · rw [if_pos short, if_pos (by omega), bind_checked (sub_of_le (by omega)),
      min_eq_right (by omega)]
    rfl
  have hheader : (bytes.take Frame.headerSize).length = Frame.headerSize := by
    rw [List.length_take]
    omega
  have hend := value_header_lt hheader
  rw [if_neg short, if_neg (by omega), bind_checked (slice_of_le (Nat.zero_le _) (by omega)),
    List.drop_zero, Nat.sub_zero, bind_checked (copy_of_length hheader)]
  by_cases large : Binary.value (bytes.take Frame.headerSize) > bound
  · rw [if_pos large, if_pos large]
    rfl
  rw [if_neg large, if_neg large, bind_checked (add_of_lt hend)]
  by_cases missing : bytes.length < Frame.headerSize + Binary.value (bytes.take Frame.headerSize)
  · have hneeded : Frame.headerSize + Binary.value (bytes.take Frame.headerSize) - bytes.length =
        Binary.value (bytes.take Frame.headerSize) -
          min (Binary.value (bytes.take Frame.headerSize)) (bytes.length - Frame.headerSize) := by
      omega
    rw [if_pos missing, if_pos (by omega), bind_checked (sub_of_le missing.le), hneeded]
    rfl
  · rw [if_neg missing, if_neg (by omega)]
    rfl

theorem add_needed_le {bytes : List UInt8}
    (h : Frame.payloadLength bytes bound = .error (.incomplete needed)) :
    bytes.length + needed ≤ Frame.headerSize + maxWord := by
  unfold Frame.payloadLength at h
  dsimp only at h
  split at h
  · next short =>
    simp only [List.length_take, Except.error.injEq, FrameFault.incomplete.injEq] at *
    omega
  · next hheader =>
    have hlen : (bytes.take Frame.headerSize).length = Frame.headerSize := by
      rw [List.length_take] at hheader ⊢
      omega
    have hword := value_lt (bytes.take Frame.headerSize)
    rw [hlen] at hword
    split at h
    · cases h
    split at h
    · simp only [Except.error.injEq, FrameFault.incomplete.injEq, List.length_take,
        List.length_drop, maxWord, UInt32.size, Frame.headerSize] at *
      omega
    · cases h

theorem parse_eq {bytes : List UInt8} (hlen : bytes.length < UInt64.size) (bound : Nat) :
    parse bytes bound = untrapped (Frame.parse bytes bound) := by
  unfold parse Frame.parse
  rw [payloadLength_eq]
  cases hpay : Frame.payloadLength bytes bound with
  | error why => rfl
  | ok len =>
    have hend := (Frame.payloadLength_ok.1 hpay).1
    change (liftM (add Frame.headerSize len) >>= _ : Except (Stop FrameFault) _) = _
    rw [bind_checked (add_of_lt (by omega)), bind_checked (slice_of_le (Nat.le_add_right ..) hend),
      Nat.add_sub_cancel_left]
    rfl

theorem splitTo_of_le {buffer : List UInt8} (h : n ≤ buffer.length) :
    splitTo buffer n = .ok (buffer.take n, buffer.drop n) := if_pos h

theorem advance_of_le {buffer : List UInt8} (h : n ≤ buffer.length) :
    advance buffer n = .ok (buffer.drop n) := by
  rw [advance, splitTo_of_le h]
  rfl

theorem next_eq (buffer : List UInt8) (bound : Nat) :
    next bound buffer = untrapped (Frame.next bound buffer) := by
  unfold next Frame.next
  rw [payloadLength_eq]
  cases hpay : Frame.payloadLength buffer bound with
  | ok len =>
    have hend := (Frame.payloadLength_ok.1 hpay).1
    have hrest : len ≤ (buffer.drop Frame.headerSize).length := by
      rw [List.length_drop]
      omega
    change (liftM (advance buffer Frame.headerSize) >>= _ : Except (Stop FrameFault) _) = _
    rw [bind_checked (advance_of_le (by omega)), bind_checked (splitTo_of_le hrest)]
    rfl
  | error why =>
    cases why with
    | tooLarge len max => rfl
    | incomplete needed =>
      have hword := add_needed_le hpay
      have hsum : buffer.length + needed < UInt64.size := by
        simp only [maxWord, UInt32.size, UInt64.size, Frame.headerSize] at *
        omega
      have hfit : (buffer.length + needed) * 1 < 2 ^ 63 := by
        simp only [maxWord, UInt32.size, Frame.headerSize] at *
        omega
      change (liftM (add buffer.length needed) >>= _ : Except (Stop FrameFault) _) = _
      rw [bind_checked (add_of_lt hsum), bind_checked (allot_of_lt hfit)]
      rfl

-- ---------------------------------------------------------------------------
-- Everything that reads foreign bytes
-- ---------------------------------------------------------------------------

/-- A checked run that never traps and has the outcome of the library. -/
structure Untrapped {ε : Type} (checked : Except (Stop ε) β) (outcome : Except ε β) : Prop where
  no_trap : ∀ why, checked ≠ .error (.trap why)
  same : checked = untrapped outcome

theorem Untrapped.of_eq {ε : Type} {checked : Except (Stop ε) β} {outcome : Except ε β}
    (h : checked = untrapped outcome) : Untrapped checked outcome :=
  ⟨fun why => h ▸ untrapped_ne outcome why, h⟩

/-- What bytes from a peer are read with, for any limits and any registry. The values that `size`
stands for take at most a gigabyte of memory each. -/
theorem decoding_never_traps (codec : Codec α) (size bound : Nat) (bytes : List UInt8)
    (hlen : bytes.length < UInt64.size) (hsize : size ≤ 2 ^ 30) :
    Untrapped (payloadLength bytes bound) (Frame.payloadLength bytes bound) ∧
    Untrapped (parse bytes bound) (Frame.parse bytes bound) ∧
    Untrapped (next bound bytes) (Frame.next bound bytes) ∧
    Untrapped (decodeValue codec size bytes) (codec.decodeValue bytes) ∧
    Untrapped (decodeParams codec size bytes) (codec.decodeParams bytes) ∧
    Untrapped (decodeMessage codec size bytes) (Message.decode codec bytes) :=
  ⟨.of_eq (payloadLength_eq bytes bound), .of_eq (parse_eq hlen bound),
    .of_eq (next_eq bytes bound), .of_eq (decodeValue_eq codec hsize hlen),
    .of_eq (decodeParams_eq codec hsize hlen), .of_eq (decodeMessage_eq codec hsize hlen)⟩

def ownMember : List UInt8 :=
  [0x0D, 0, 0, 0, 1, 0x41, 0, 0, 0, 0, 0, 0, 0, 1, 0, 0, 0, 1, 0x66, 0x0A, 0, 0, 0, 1, 0x0C, 0, 0, 0, 0]

theorem decoding_never_traps_ownMember :
    (ownMember.length < UInt64.size ∧ 40 ≤ 2 ^ 30) ∧
    Untrapped (payloadLength ownMember 64) (Frame.payloadLength ownMember 64) ∧
    Untrapped (parse ownMember 64) (Frame.parse ownMember 64) ∧
    Untrapped (next 64 ownMember) (Frame.next 64 ownMember) ∧
    Untrapped (decodeValue (α := Empty) ⟨{}, .generic⟩ 40 ownMember)
      (Codec.decodeValue ⟨{}, .generic⟩ ownMember) ∧
    Untrapped (decodeParams (α := Empty) ⟨{}, .generic⟩ 40 ownMember)
      (Codec.decodeParams ⟨{}, .generic⟩ ownMember) ∧
    Untrapped (decodeMessage (α := Empty) ⟨{}, .generic⟩ 40 ownMember)
      (Message.decode ⟨{}, .generic⟩ ownMember) :=
  ⟨by decide, decoding_never_traps ⟨{}, .generic⟩ 40 64 ownMember (by decide) (by decide)⟩

end GraphRpc.Checked
