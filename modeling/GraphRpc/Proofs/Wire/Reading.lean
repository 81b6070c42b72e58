import Mathlib
import GraphRpc.Proofs.Heap
import GraphRpc.Proofs.Wire.Tree

/-!
# Reading trees

`decodeAt_ok`: reading a value succeeds just when the bytes start with a tree that keeps the limits,
is numbered on from the objects already there, and whose objects the registry can build. The
value read is the value of the tree, and the heap grows by its objects in wire order.
-/

namespace GraphRpc

open Wire

/-- The slot with the object that the writer of its type builds from a blueprint. -/
def Registry.build {α : Type} (registry : Registry α) (b : Blueprint) :
    Except CodecFault (Slot α) := do
  let access ← registry.resolveWriter b.typeName
  let object ← b.fields.foldlM (fun o f => access.set o f.1 f.2) (← access.construct b.typeName)
  return ⟨b.typeName, object⟩

namespace Wire

open Binary DecodeM

variable {α β : Type}

theorem forall₂_append_left {γ : Type} {R : β → γ → Prop} {a b : List β} {l : List γ} :
    List.Forall₂ R (a ++ b) l ↔
      ∃ la lb, l = la ++ lb ∧ List.Forall₂ R a la ∧ List.Forall₂ R b lb := by
  constructor
  · intro h
    refine ⟨_, _, (List.take_append_drop a.length l).symm, ?_, ?_⟩
    · simpa using List.forall₂_take a.length h
    · simpa using List.forall₂_drop a.length h
  · rintro ⟨la, lb, rfl, ha, hb⟩
    exact List.rel_append ha hb

-- ---------------------------------------------------------------------------
-- What reading does
-- ---------------------------------------------------------------------------

/-- The heap grows by the objects of some trees, which are numbered on from those already there. -/
structure Grows (registry : Registry α) (ts : List Tree) (heap heap' : Heap α) : Prop where
  numbered : NumberedFrom heap.size ts
  built : ∃ slots, List.Forall₂ (fun b slot => registry.build b = .ok slot) (objects ts) slots ∧
    heap' = heap.extend slots

theorem Grows.size {registry : Registry α} (h : Grows registry ts heap heap') :
    heap'.size = heap.size + (objects ts).length := by
  obtain ⟨slots, hs, rfl⟩ := h.built
  rw [Heap.size_extend, hs.length_eq]

theorem grows_nil {registry : Registry α} : Grows registry [] heap heap' ↔ heap' = heap := by
  constructor
  · rintro ⟨-, slots, hs, rfl⟩
    cases hs
    exact Heap.extend_nil
  · rintro rfl
    exact ⟨numberedFrom_nil, [], .nil, Heap.extend_nil.symm⟩

theorem grows_append {registry : Registry α} : Grows registry (ts ++ us) heap heap' ↔
    ∃ mid, Grows registry ts heap mid ∧ Grows registry us mid heap' := by
  constructor
  · rintro ⟨hn, slots, hs, rfl⟩
    rw [numberedFrom_append] at hn
    rw [objects_append, forall₂_append_left] at hs
    obtain ⟨a, b, rfl, ha, hb⟩ := hs
    refine ⟨heap.extend a, ⟨hn.1, a, ha, rfl⟩, ?_, b, hb, Heap.extend_extend b |>.symm⟩
    rw [Heap.size_extend, ← ha.length_eq]
    exact hn.2
  · rintro ⟨mid, ht, hu⟩
    have hsize := ht.size
    obtain ⟨hn, a, ha, rfl⟩ := ht
    obtain ⟨hn', b, hb, rfl⟩ := hu
    refine ⟨numberedFrom_append.2 ⟨hn, hsize ▸ hn'⟩, a ++ b, ?_, Heap.extend_extend b⟩
    rw [objects_append, forall₂_append_left]
    exact ⟨a, b, rfl, ha, hb⟩

theorem Grows.object? {registry : Registry α} (hg : Grows registry ts heap heap')
    (hs : h.slot < heap.size) : heap'.object? h = heap.object? h := by
  obtain ⟨slots, -, rfl⟩ := hg.built
  exact Heap.object?_extend hs

/-- What is put into a slot does not matter to the slots that come after. -/
theorem grows_setObject {registry : Registry α} (hs : h.slot < heap.size) :
    Grows registry ts (heap.setObject h o) heap' ↔
      ∃ mid, Grows registry ts heap mid ∧ heap' = mid.setObject h o := by
  constructor
  · rintro ⟨hn, slots, hb, rfl⟩
    rw [Heap.size_setObject] at hn
    exact ⟨heap.extend slots, ⟨hn, slots, hb, rfl⟩, (Heap.setObject_extend hs).symm⟩
  · rintro ⟨_, ⟨hn, slots, hb, rfl⟩, rfl⟩
    exact ⟨by rwa [Heap.size_setObject], slots, hb, Heap.setObject_extend hs⟩

/-- Reading consumes the bytes of some trees and builds their objects. -/
structure Reads (codec : Codec α) (room : Nat) (ts : List Tree) (d d' : Decoder α) : Prop where
  fits : ∀ t ∈ ts, t.Fits codec.limits room
  bytes : d.rest = ts.flatMap Tree.spell ++ d'.rest
  grows : Grows codec.registry ts d.heap d'.heap

theorem reads_nil {codec : Codec α} : Reads codec room [] d d' ↔ d' = d := by
  obtain ⟨rest, heap⟩ := d
  obtain ⟨rest', heap'⟩ := d'
  rw [Decoder.mk.injEq]
  constructor
  · rintro ⟨-, hb, hg⟩
    exact ⟨hb.symm, grows_nil.1 hg⟩
  · rintro ⟨rfl, rfl⟩
    exact ⟨by simp, rfl, grows_nil.2 rfl⟩

theorem reads_append {codec : Codec α} : Reads codec room (ts ++ us) d d' ↔
    ∃ m, Reads codec room ts d m ∧ Reads codec room us m d' := by
  constructor
  · rintro ⟨hf, hb, hg⟩
    obtain ⟨mid, ht, hu⟩ := grows_append.1 hg
    rw [List.flatMap_append, List.append_assoc] at hb
    exact ⟨⟨_, mid⟩, ⟨fun t h => hf t (List.mem_append_left _ h), hb, ht⟩,
      ⟨fun t h => hf t (List.mem_append_right _ h), rfl, hu⟩⟩
  · rintro ⟨m, ⟨hf, hb, hg⟩, hf', hb', hg'⟩
    refine ⟨fun t h => ?_, ?_, grows_append.2 ⟨_, hg, hg'⟩⟩
    · exact (List.mem_append.1 h).elim (hf t) (hf' t)
    · rw [hb, hb', List.flatMap_append, List.append_assoc]

theorem reads_cons {codec : Codec α} : Reads codec room (t :: ts) d d' ↔
    ∃ m, Reads codec room [t] d m ∧ Reads codec room ts m d' := by
  rw [← List.singleton_append, reads_append]

-- ---------------------------------------------------------------------------
-- Repetition
-- ---------------------------------------------------------------------------

theorem repeated_done_ok {action : DecodeM α β} {done bs : List β} :
    repeated action n done d = .ok bs d' ↔
      ∃ cs, repeated action n [] d = .ok cs d' ∧ bs = done.reverse ++ cs := by
  induction n generalizing done d bs with
  | zero =>
    simp only [repeated, pure_ok]
    constructor
    · rintro ⟨rfl, rfl⟩
      exact ⟨[], ⟨rfl, rfl⟩, (List.append_nil _).symm⟩
    · rintro ⟨_, ⟨rfl, rfl⟩, rfl⟩
      exact ⟨(List.append_nil _).symm, rfl⟩
  | succ n ih =>
    simp only [repeated, bind_ok]
    constructor
    · rintro ⟨b, m, hb, h⟩
      obtain ⟨cs, hcs, rfl⟩ := ih.1 h
      exact ⟨b :: cs, ⟨b, m, hb, ih.2 ⟨cs, hcs, rfl⟩⟩, by simp⟩
    · rintro ⟨_, ⟨b, m, hb, h⟩, rfl⟩
      obtain ⟨cs, hcs, rfl⟩ := ih.1 h
      exact ⟨b, m, hb, ih.2 ⟨cs, hcs, by simp⟩⟩

theorem repeated_zero_ok {action : DecodeM α β} {bs : List β} :
    repeated action 0 [] d = .ok bs d' ↔ bs = [] ∧ d' = d := by
  rw [repeated, pure_ok, List.reverse_nil, eq_comm, @eq_comm _ d]

theorem repeated_succ_ok {action : DecodeM α β} {bs : List β} :
    repeated action (n + 1) [] d = .ok bs d' ↔
      ∃ b m cs, action d = .ok b m ∧ repeated action n [] m = .ok cs d' ∧ bs = b :: cs := by
  rw [repeated, bind_ok]
  constructor
  · rintro ⟨b, m, hb, h⟩
    obtain ⟨cs, hcs, rfl⟩ := repeated_done_ok.1 h
    exact ⟨b, m, cs, hb, hcs, rfl⟩
  · rintro ⟨b, m, cs, hb, hcs, rfl⟩
    exact ⟨b, m, hb, repeated_done_ok.2 ⟨cs, hcs, rfl⟩⟩

/-- What `decodeAt_ok` says of one amount of room, from which it follows for one more. -/
def ReadsTrees (codec : Codec α) (room : Nat) : Prop :=
  ∀ {d v d'}, codec.decodeAt room d = .ok v d' ↔ ∃ t, Reads codec room [t] d d' ∧ t.value = v

theorem items_ok {codec : Codec α} (ih : ReadsTrees codec room) {vs : List Value} :
    repeated (codec.decodeAt room) n [] d = .ok vs d' ↔
      ∃ ts, ts.length = n ∧ Reads codec room ts d d' ∧ ts.map Tree.value = vs := by
  induction n generalizing d vs with
  | zero =>
    rw [repeated_zero_ok]
    constructor
    · rintro ⟨rfl, rfl⟩
      exact ⟨[], rfl, reads_nil.2 rfl, rfl⟩
    · rintro ⟨ts, hlen, hr, rfl⟩
      obtain rfl := List.length_eq_zero_iff.1 hlen
      exact ⟨rfl, reads_nil.1 hr⟩
  | succ n ihn =>
    rw [repeated_succ_ok]
    constructor
    · rintro ⟨v, m, ws, hv, hws, rfl⟩
      obtain ⟨t, ht, rfl⟩ := ih.1 hv
      obtain ⟨ts, rfl, hts, rfl⟩ := ihn.1 hws
      exact ⟨t :: ts, rfl, reads_cons.2 ⟨m, ht, hts⟩, rfl⟩
    · rintro ⟨_ | ⟨t, ts⟩, hlen, hr, rfl⟩
      · cases hlen
      · obtain ⟨m, ht, hts⟩ := reads_cons.1 hr
        exact ⟨_, m, _, ih.2 ⟨t, ht, rfl⟩, ihn.2 ⟨ts, Nat.succ.inj hlen, hts, rfl⟩, rfl⟩

def entry (codec : Codec α) (room : Nat) : DecodeM α (Value × Value) := do
  let k ← codec.decodeAt room
  let v ← codec.decodeAt room
  return (k, v)

theorem entries_ok {codec : Codec α} (ih : ReadsTrees codec room) {vs : List (Value × Value)} :
    repeated (entry codec room) n [] d = .ok vs d' ↔ ∃ es : List (Tree × Tree), es.length = n ∧
      Reads codec room (flat es) d d' ∧ (es.map fun e => (e.1.value, e.2.value)) = vs := by
  induction n generalizing d vs with
  | zero =>
    rw [repeated_zero_ok]
    constructor
    · rintro ⟨rfl, rfl⟩
      exact ⟨[], rfl, reads_nil.2 rfl, rfl⟩
    · rintro ⟨es, hlen, hr, rfl⟩
      obtain rfl := List.length_eq_zero_iff.1 hlen
      exact ⟨rfl, reads_nil.1 hr⟩
  | succ n ihn =>
    simp only [repeated_succ_ok, entry, bind_ok, pure_ok]
    constructor
    · rintro ⟨_, _, ws, ⟨k, m, hk, v, m', hv, rfl, rfl⟩, hws, rfl⟩
      obtain ⟨tk, htk, rfl⟩ := ih.1 hk
      obtain ⟨tv, htv, rfl⟩ := ih.1 hv
      obtain ⟨es, rfl, hes, rfl⟩ := ihn.1 hws
      exact ⟨(tk, tv) :: es, rfl, reads_cons.2 ⟨m, htk, reads_cons.2 ⟨m', htv, hes⟩⟩, rfl⟩
    · rintro ⟨_ | ⟨⟨tk, tv⟩, es⟩, hlen, hr, rfl⟩
      · cases hlen
      · obtain ⟨m, htk, hr⟩ := reads_cons.1 hr
        obtain ⟨m', htv, hes⟩ := reads_cons.1 hr
        exact ⟨_, m', _, ⟨_, m, ih.2 ⟨tk, htk, rfl⟩, _, m', ih.2 ⟨tv, htv, rfl⟩, rfl, rfl⟩,
          ihn.2 ⟨es, Nat.succ.inj hlen, hes, rfl⟩, rfl⟩

-- ---------------------------------------------------------------------------
-- Fields
-- ---------------------------------------------------------------------------

theorem setField_ok {access : FieldAccess α} : setField access h name v d = .ok u d' ↔
    ∃ o o', d.heap.object? h = some o ∧ access.set o name v = .ok o' ∧
      d' = { d with heap := d.heap.setObject h o' } := by
  simp only [setField, bind_ok, get_ok]
  constructor
  · rintro ⟨_, _, ⟨rfl, rfl⟩, hset⟩
    cases ho : d.heap.object? h with
    | none =>
      rw [ho] at hset
      exact (throw_ok.1 hset).elim
    | some o =>
      rw [ho] at hset
      obtain ⟨o', m, hl, hm⟩ := bind_ok.1 hset
      obtain ⟨ho', rfl⟩ := lift_ok.1 hl
      cases hm
      exact ⟨o, o', rfl, ho', rfl⟩
  · rintro ⟨o, o', ho, ho', rfl⟩
    refine ⟨d, d, ⟨rfl, rfl⟩, ?_⟩
    rw [ho]
    exact bind_ok.2 ⟨o', d, lift_ok.2 ⟨ho', rfl⟩, rfl⟩

def field (codec : Codec α) (room : Nat) (access : FieldAccess α) (h : Handle) : DecodeM α Unit := do
  let name ← read (.text .fieldName codec.limits.maxStringLen)
  let v ← codec.decodeAt room
  setField access h name v

/-- Reading fields consumes their bytes, builds the objects among their values and fills `o`, the
object at `h`, with the values. -/
structure ReadsFields (codec : Codec α) (room : Nat) (access : FieldAccess α) (h : Handle)
    (o : Object α) (fields : List (String × Tree)) (d d' : Decoder α) : Prop where
  names : ∀ f ∈ fields, Within f.1.utf8ByteSize codec.limits.maxStringLen
  fits : ∀ t ∈ fields.map Prod.snd, t.Fits codec.limits room
  bytes : d.rest = (fields.flatMap fun f => spellText f.1 ++ f.2.spell) ++ d'.rest
  filled : ∃ mid o', Grows codec.registry (fields.map Prod.snd) d.heap mid ∧
    fields.foldlM (fun o f => access.set o f.1 f.2.value) o = .ok o' ∧ d'.heap = mid.setObject h o'

theorem readsFields_nil {codec : Codec α} (ho : d.heap.object? h = some o) :
    ReadsFields codec room access h o [] d d' ↔ d' = d := by
  obtain ⟨rest, heap⟩ := d
  obtain ⟨rest', heap'⟩ := d'
  rw [Decoder.mk.injEq]
  constructor
  · rintro ⟨-, -, hb, mid, o', hg, ho', hd⟩
    obtain rfl := grows_nil.1 hg
    obtain rfl := except_pure_ok.1 ho'
    exact ⟨hb.symm, hd.trans (Heap.setObject_self ho)⟩
  · rintro ⟨rfl, rfl⟩
    exact ⟨by simp, by simp, rfl, _, o, grows_nil.2 rfl, rfl, (Heap.setObject_self ho).symm⟩

theorem readsFields_cons {codec : Codec α} (hs : h.slot < d.heap.size) :
    ReadsFields codec room access h o (f :: fields) d d' ↔
      Within f.1.utf8ByteSize codec.limits.maxStringLen ∧ ∃ rest m o',
        d.rest = spellText f.1 ++ rest ∧ Reads codec room [f.2] { d with rest } m ∧
        access.set o f.1 f.2.value = .ok o' ∧
        ReadsFields codec room access h o' fields { m with heap := m.heap.setObject h o' } d' := by
  constructor
  · rintro ⟨hn, hf, hb, mid, o'', hg, ho, hd⟩
    rw [List.map_cons, ← List.singleton_append] at hg
    obtain ⟨heap, hg, hg'⟩ := grows_append.1 hg
    rw [List.foldlM_cons, except_bind_ok] at ho
    obtain ⟨o', ho, ho'⟩ := ho
    rw [List.flatMap_cons, List.append_assoc, List.append_assoc] at hb
    refine ⟨hn f (by simp), _, ⟨_, heap⟩, o', hb, ⟨by simpa using hf f.2 (by simp), by simp; rfl, hg⟩,
      ho, ?_⟩
    have hs' : h.slot < heap.size := by
      rw [hg.size]
      exact Nat.lt_add_right _ hs
    refine ⟨fun g hg => hn g (by simp [hg]), fun t ht => hf t (by simp_all), rfl, _, o'',
      (grows_setObject hs').2 ⟨mid, hg', rfl⟩, ho', ?_⟩
    rw [hd, Heap.setObject_setObject]
  · rintro ⟨hn, rest, m, o', hr, ⟨hf, hb, hg⟩, ho, hn', hf', hb', mid', o'', hgs, ho', hd⟩
    have hs' : h.slot < m.heap.size := by
      rw [hg.size]
      exact Nat.lt_add_right _ hs
    obtain ⟨mid, hg', rfl⟩ := (grows_setObject hs').1 hgs
    refine ⟨List.forall_mem_cons.2 ⟨hn, hn'⟩, ?_, ?_, mid, o'', ?_, ?_, ?_⟩
    · exact List.forall_mem_cons.2 ⟨List.forall_mem_singleton.1 hf, hf'⟩
    · change rest = _ at hb
      change m.rest = _ at hb'
      rw [hr, hb, hb']
      simp
    · rw [List.map_cons, ← List.singleton_append]
      exact grows_append.2 ⟨_, hg, hg'⟩
    · rw [List.foldlM_cons]
      exact except_bind_ok.2 ⟨o', ho, ho'⟩
    · rw [hd, Heap.setObject_setObject]

theorem fields_ok {codec : Codec α} (ih : ReadsTrees codec room) (hs : h.slot < d.heap.size)
    (ho : d.heap.object? h = some o) : repeated (field codec room access h) n [] d = .ok us d' ↔
      us = List.replicate n () ∧ ∃ fields, fields.length = n ∧
        ReadsFields codec room access h o fields d d' := by
  induction n generalizing d us o with
  | zero =>
    rw [repeated_zero_ok]
    constructor
    · rintro ⟨rfl, rfl⟩
      exact ⟨rfl, [], rfl, (readsFields_nil ho).2 rfl⟩
    · rintro ⟨rfl, fields, hlen, hr⟩
      obtain rfl := List.length_eq_zero_iff.1 hlen
      exact ⟨rfl, (readsFields_nil ho).1 hr⟩
  | succ n ihn =>
    simp only [repeated_succ_ok, field, bind_ok, read_ok, text_ok, setField_ok]
    constructor
    · rintro ⟨_, _, ws, ⟨name, m, ⟨⟨hr, hn⟩, hheap⟩, v, m', hv, o₁, o', ho₁, hset, rfl⟩, hws, rfl⟩
      obtain ⟨t, ht, rfl⟩ := ih.1 hv
      have hs' : h.slot < m'.heap.size := by
        rw [ht.grows.size, ← hheap]
        exact Nat.lt_add_right _ hs
      rw [ht.grows.object? (hheap ▸ hs), ← hheap, ho] at ho₁
      cases ho₁
      obtain ⟨rfl, fields, hlen, hf⟩ := (ihn (by simpa) (Heap.object?_setObject hs')).1 hws
      refine ⟨rfl, (name, t) :: fields, congrArg (· + 1) hlen, (readsFields_cons hs).2 ?_⟩
      refine ⟨hn, m.rest, m', o', hr, ?_, hset, hf⟩
      rw [hheap]
      exact ht
    · rintro ⟨rfl, _ | ⟨⟨name, t⟩, fields⟩, hlen, hr⟩
      · cases hlen
      obtain ⟨hn, rest, m, o', hrest, ht, hset, hf⟩ := (readsFields_cons hs).1 hr
      have hs' : h.slot < m.heap.size := by
        rw [ht.grows.size]
        exact Nat.lt_add_right _ hs
      refine ⟨(), _, _,
        ⟨name, ⟨rest, d.heap⟩, ⟨⟨hrest, hn⟩, rfl⟩, _, m, ih.2 ⟨t, ht, rfl⟩, o, o', ?_, hset, rfl⟩,
        (ihn (by simpa) (Heap.object?_setObject hs')).2 ⟨rfl, fields, Nat.succ.inj hlen, hf⟩, rfl⟩
      rw [ht.grows.object? hs]
      exact ho

-- ---------------------------------------------------------------------------
-- Values
-- ---------------------------------------------------------------------------

theorem ofByte_ok : Tag.ofByte b = .ok tag ↔ b = tag.byte := by
  constructor
  · intro h
    unfold Tag.ofByte at h
    split at h
    · next t ht =>
      cases h
      unfold Tag.ofByte? at ht
      split at ht <;> cases ht <;> rfl
    · cases h
  · rintro rfl
    rw [Tag.ofByte, Tag.ofByte?_byte]

theorem reads_singleton {codec : Codec α} : Reads codec room [t] d d' ↔
    t.Fits codec.limits room ∧ d.rest = t.spell ++ d'.rest ∧
      Grows codec.registry [t] d.heap d'.heap := by
  constructor
  · rintro ⟨hf, hb, hg⟩
    rw [List.flatMap_singleton] at hb
    exact ⟨List.forall_mem_singleton.1 hf, hb, hg⟩
  · rintro ⟨hf, hb, hg⟩
    exact ⟨List.forall_mem_singleton.2 hf, by rwa [List.flatMap_singleton], hg⟩

theorem grows_parts {registry : Registry α} (hr : ∀ h, t ≠ .ref h) (ho : t.blueprint? = none) :
    Grows registry [t] heap heap' ↔ Grows registry t.parts heap heap' := by
  constructor
  · rintro ⟨hn, slots, hb, rfl⟩
    exact ⟨(numberedFrom_parts hr ho).1 hn, slots, objects_parts ho ▸ hb, rfl⟩
  · rintro ⟨hn, slots, hb, rfl⟩
    exact ⟨(numberedFrom_parts hr ho).2 hn, slots, objects_parts ho ▸ hb, rfl⟩

theorem reads_scalar {codec : Codec α} {s : Scalar} : Reads codec room [.scalar s] d d' ↔
    s.Bounded codec.limits ∧ d.rest = s.tag.byte :: (s.content ++ d'.rest) ∧ d.heap = d'.heap := by
  rw [reads_singleton, Tree.fits_scalar, Tree.spell, grows_parts (by simp) rfl, Tree.parts, grows_nil,
    @eq_comm _ d.heap]
  rfl

theorem reads_array {codec : Codec α} {items : List Tree} :
    Reads codec (room + 1) [.array items] d d' ↔
      Within items.length codec.limits.maxCollectionLen ∧ ∃ rest,
        d.rest = Tag.array.byte :: (bigEndian 4 items.length ++ rest) ∧
        Reads codec room items { d with rest } d' := by
  rw [reads_singleton, Tree.fits_array, Tree.spell, grows_parts (by simp) rfl, Tree.parts]
  constructor
  · rintro ⟨⟨hlen, hf⟩, hb, hg⟩
    exact ⟨hlen, _, by simpa using hb, hf, rfl, hg⟩
  · rintro ⟨hlen, rest, hb, hf, rfl, hg⟩
    exact ⟨⟨hlen, hf⟩, by simpa using hb, hg⟩

theorem reads_map {codec : Codec α} {entries : List (Tree × Tree)} :
    Reads codec (room + 1) [.map entries] d d' ↔
      Within entries.length codec.limits.maxCollectionLen ∧ ∃ rest,
        d.rest = Tag.map.byte :: (bigEndian 4 entries.length ++ rest) ∧
        Reads codec room (flat entries) { d with rest } d' := by
  rw [reads_singleton, Tree.fits_map, Tree.spell, grows_parts (by simp) rfl, Tree.parts]
  rw [← flatMap_flat Tree.spell]
  constructor
  · rintro ⟨⟨hlen, hf⟩, hb, hg⟩
    exact ⟨hlen, _, by simpa using hb, hf, rfl, hg⟩
  · rintro ⟨hlen, rest, hb, hf, rfl, hg⟩
    exact ⟨⟨hlen, hf⟩, by simpa using hb, hg⟩

theorem grows_ref {registry : Registry α} :
    Grows registry [.ref h] heap heap' ↔ h.slot < heap.size ∧ heap' = heap := by
  have hobj : objects [.ref h] = [] := objects_parts rfl
  constructor
  · rintro ⟨hn, slots, hb, rfl⟩
    rw [hobj] at hb
    cases hb
    exact ⟨numberedFrom_ref.1 hn, Heap.extend_nil⟩
  · rintro ⟨hn, rfl⟩
    exact ⟨numberedFrom_ref.2 hn, [], hobj ▸ .nil, Heap.extend_nil.symm⟩

/-- Growing by an object: the writer of its type constructs it in the next slot, the objects among its
fields come after it, and it is filled with the fields. -/
theorem grows_object {registry : Registry α} {fields : List (String × Tree)} :
    Grows registry [.object typeName h fields] heap heap' ↔ h.slot = heap.size ∧
      ∃ access o mid o', registry.resolveWriter typeName = .ok access ∧
        access.construct typeName = .ok o ∧
        Grows registry (fields.map Prod.snd) (heap.extend [⟨typeName, o⟩]) mid ∧
        fields.foldlM (fun o f => access.set o f.1 f.2.value) o = .ok o' ∧
        heap' = mid.setObject h o' := by
  constructor
  · rintro ⟨hn, slots, hb, rfl⟩
    rw [objects_object, List.forall₂_cons_left_iff] at hb
    obtain ⟨slot, slots, hslot, hb, rfl⟩ := hb
    obtain ⟨hh, hn⟩ := numberedFrom_object.1 hn
    simp only [Registry.build, except_bind_ok, except_pure_ok, List.foldlM_map] at hslot
    obtain ⟨access, hw, o, hc, o', hset, rfl⟩ := hslot
    refine ⟨hh, access, o, _, o', hw, hc, ⟨by simpa using hn, slots, hb, rfl⟩, hset, ?_⟩
    rw [Heap.setObject_extend (by simp [hh]), Heap.setObject_last hh, Heap.extend_extend]
    rfl
  · rintro ⟨hh, access, o, _, o', hw, hc, ⟨hn, slots, hb, rfl⟩, hset, rfl⟩
    rw [Heap.size_extend] at hn
    refine ⟨numberedFrom_object.2 ⟨hh, hn⟩, ⟨typeName, o'⟩ :: slots, ?_, ?_⟩
    · rw [objects_object]
      refine .cons ?_ hb
      simp only [Registry.build, except_bind_ok, except_pure_ok, List.foldlM_map]
      exact ⟨access, hw, o, hc, o', hset, rfl⟩
    · rw [Heap.setObject_extend (by simp [hh]), Heap.setObject_last hh, Heap.extend_extend]
      rfl

theorem reads_object {codec : Codec α} {fields : List (String × Tree)} :
    Reads codec (room + 1) [.object typeName h fields] d d' ↔
      Within typeName.utf8ByteSize codec.limits.maxStringLen ∧ h.slot = d.heap.size ∧
      ∃ access o rest, codec.registry.resolveWriter typeName = .ok access ∧
        access.construct typeName = .ok o ∧ Within fields.length codec.limits.maxFields ∧
        d.rest = Tag.object.byte ::
          (spellText typeName ++ (bigEndian 4 h.slot ++ (bigEndian 4 fields.length ++ rest))) ∧
        ReadsFields codec room access h o fields ⟨rest, d.heap.extend [⟨typeName, o⟩]⟩ d' := by
  rw [reads_singleton, Tree.fits_object, Tree.spell, grows_object]
  constructor
  · rintro ⟨⟨hlen, htype, hnames, hf⟩, hb, hh, access, o, mid, o', hw, hc, hg, hset, hd⟩
    exact ⟨htype, hh, access, o, _, hw, hc, hlen, by simpa using hb, hnames, hf, rfl, mid, o', hg,
      hset, hd⟩
  · rintro ⟨htype, hh, access, o, rest, hw, hc, hlen, hb, hnames, hf, hr, mid, o', hg, hset, hd⟩
    change rest = _ at hr
    exact ⟨⟨hlen, htype, hnames, hf⟩, by rw [hb, hr]; simp, hh, access, o, mid, o', hw, hc, hg, hset,
      hd⟩

theorem insert_ok {o : Object α} : insert typeName o d = .ok h d' ↔
    h = .ofSlot d.heap.size ∧ d' = { d with heap := d.heap.extend [⟨typeName, o⟩] } := by
  have hi : insert typeName o d =
      .ok (.ofSlot d.heap.size) { d with heap := d.heap.extend [⟨typeName, o⟩] } := by
    simp only [Heap.extend, ← Array.push_eq_append]
    rfl
  rw [hi, EStateM.Result.ok.injEq, eq_comm, @eq_comm _ d']

theorem scalar_ok {codec : Codec α} (s : Scalar) (hs : s.Bounded codec.limits)
    (hb : d.rest = s.tag.byte :: rest) (hc : rest = s.content ++ d'.rest) (hd : d.heap = d'.heap) :
    ∃ t, Reads codec room [t] d d' ∧ t.value = s.value :=
  ⟨.scalar s, reads_scalar.2 ⟨hs, hc ▸ hb, hd⟩, Tree.value.eq_1 s⟩

theorem number_ok {codec : Codec α} {width : Nat} (s : Nat → Scalar)
    (hs : ∀ n, (s n).Bounded codec.limits)
    (hcontent : ∀ n < 256 ^ width, (s n).content = bigEndian width n)
    (hb : ∀ n, d.rest = (s n).tag.byte :: m.rest) (hheap : d.heap = m.heap)
    (h : (do let n ← read (.nat width); return (s n).value : DecodeM α Value) m = .ok v d') :
    ∃ t, Reads codec room [t] d d' ∧ t.value = v := by
  simp only [bind_ok, read_ok, nat_ok, pure_ok] at h
  obtain ⟨n, m', ⟨⟨hc, hn⟩, hheap'⟩, rfl, rfl⟩ := h
  refine scalar_ok (s n) (hs n) (hb n) ?_ (hheap.trans hheap')
  rw [hcontent n hn]
  exact hc

theorem reads_of_decodeAt {codec : Codec α} (ih : ∀ r, room = r + 1 → ReadsTrees codec r)
    (h : codec.decodeAt room d = .ok v d') : ∃ t, Reads codec room [t] d d' ∧ t.value = v := by
  rw [Codec.decodeAt.eq_def] at h
  simp only [bind_ok, read_ok, byte_ok, lift_ok, ofByte_ok] at h
  obtain ⟨_, m, ⟨hb, hheap⟩, tag, _, ⟨rfl, rfl⟩, h⟩ := h
  cases tag with
  | null =>
    obtain ⟨rfl, rfl⟩ := pure_ok.1 h
    exact scalar_ok .null trivial hb rfl hheap
  | bool =>
    simp only [bind_ok, read_ok, byte_ok] at h
    obtain ⟨b, m', ⟨hc, hheap'⟩, h⟩ := h
    split at h
    · obtain ⟨rfl, rfl⟩ := pure_ok.1 h
      exact scalar_ok (.bool false) trivial hb hc (hheap.trans hheap')
    · obtain ⟨rfl, rfl⟩ := pure_ok.1 h
      exact scalar_ok (.bool true) trivial hb hc (hheap.trans hheap')
    · exact (throw_ok.1 h).elim
  | i8 =>
    refine number_ok (fun n => .i8 (UInt8.ofNat n).toInt8) (fun _ => trivial) (fun n hn => ?_)
      (fun _ => hb) hheap h
    rw [Scalar.content, UInt8.toUInt8_toInt8, UInt8.toNat_ofNat_of_lt' hn]
  | i16 =>
    refine number_ok (fun n => .i16 (UInt16.ofNat n).toInt16) (fun _ => trivial) (fun n hn => ?_)
      (fun _ => hb) hheap h
    rw [Scalar.content, UInt16.toUInt16_toInt16, UInt16.toNat_ofNat_of_lt' hn]
  | i32 =>
    refine number_ok (fun n => .i32 (UInt32.ofNat n).toInt32) (fun _ => trivial) (fun n hn => ?_)
      (fun _ => hb) hheap h
    rw [Scalar.content, UInt32.toUInt32_toInt32, UInt32.toNat_ofNat_of_lt' hn]
  | i64 =>
    refine number_ok (fun n => .i64 (UInt64.ofNat n).toInt64) (fun _ => trivial) (fun n hn => ?_)
      (fun _ => hb) hheap h
    rw [Scalar.content, UInt64.toUInt64_toInt64, UInt64.toNat_ofNat_of_lt' hn]
  | f32 =>
    refine number_ok (fun n => .f32 ⟨UInt32.ofNat n⟩) (fun _ => trivial) (fun n hn => ?_)
      (fun _ => hb) hheap h
    rw [Scalar.content, UInt32.toNat_ofNat_of_lt' hn]
  | f64 =>
    refine number_ok (fun n => .f64 ⟨UInt64.ofNat n⟩) (fun _ => trivial) (fun n hn => ?_)
      (fun _ => hb) hheap h
    rw [Scalar.content, UInt64.toNat_ofNat_of_lt' hn]
  | str =>
    simp only [bind_ok, read_ok, text_ok, pure_ok] at h
    obtain ⟨s, m', ⟨⟨hc, hs⟩, hheap'⟩, rfl, rfl⟩ := h
    exact scalar_ok (.str s) hs hb hc (hheap.trans hheap')
  | bytes =>
    simp only [bind_ok, read_ok, length_ok, take_ok, pure_ok] at h
    obtain ⟨len, m₁, ⟨⟨hc, hlen⟩, h₁⟩, raw, m₂, ⟨⟨hr, rfl⟩, h₂⟩, rfl, rfl⟩ := h
    refine scalar_ok (.bytes raw.toByteArray) ?_ hb ?_ (hheap.trans (h₁.trans h₂))
    · rwa [Scalar.Bounded, List.size_toByteArray]
    · rw [Scalar.content, List.size_toByteArray, List.data_toByteArray, hc, hr, List.append_assoc]
  | array =>
    cases room with
    | zero => exact (throw_ok.1 h).elim
    | succ r =>
      simp only [bind_ok, read_ok, length_ok, pure_ok] at h
      obtain ⟨n, m', ⟨⟨hc, hn⟩, hheap'⟩, vs, _, hvs, rfl, rfl⟩ := h
      obtain ⟨ts, rfl, hts, rfl⟩ := (items_ok (ih r rfl)).1 hvs
      refine ⟨.array ts, reads_array.2 ⟨hn, m'.rest, hc ▸ hb, ?_⟩, Tree.value.eq_2 ts⟩
      rw [hheap, hheap']
      exact hts
  | map =>
    cases room with
    | zero => exact (throw_ok.1 h).elim
    | succ r =>
      simp only [bind_ok, read_ok, length_ok, pure_ok] at h
      obtain ⟨n, m', ⟨⟨hc, hn⟩, hheap'⟩, vs, _, hvs, rfl, rfl⟩ := h
      obtain ⟨es, rfl, hes, rfl⟩ := (entries_ok (ih r rfl)).1 hvs
      refine ⟨.map es, reads_map.2 ⟨hn, m'.rest, hc ▸ hb, ?_⟩, Tree.value.eq_3 es⟩
      rw [hheap, hheap']
      exact hes
  | objectRef =>
    simp only [bind_ok, read_ok, nat_ok, get_ok] at h
    obtain ⟨n, m', ⟨⟨hc, hn⟩, hheap'⟩, _, _, ⟨rfl, rfl⟩, h⟩ := h
    split at h
    · next hlt =>
      obtain ⟨rfl, rfl⟩ := pure_ok.1 h
      refine ⟨.ref (.ofSlot n), reads_singleton.2 ⟨Tree.fits_ref, ?_, grows_ref.2 ?_⟩, Tree.value.eq_4 _⟩
      · rw [Tree.spell, Handle.slot_ofSlot hn, hb, hc]
        rfl
      · rw [Handle.slot_ofSlot hn, hheap, hheap']
        exact ⟨hlt, rfl⟩
    · exact (throw_ok.1 h).elim
  | object =>
    cases room with
    | zero => exact (throw_ok.1 h).elim
    | succ r =>
      simp only [bind_ok, read_ok, text_ok, nat_ok, get_ok] at h
      obtain ⟨typeName, m₁, ⟨⟨hc₁, htype⟩, h₁⟩, n, m₂, ⟨⟨hc₂, hn⟩, h₂⟩, _, _, ⟨rfl, rfl⟩, h⟩ := h
      split at h
      · obtain ⟨_, _, hthrow, -⟩ := bind_ok.1 h
        exact (throw_ok.1 hthrow).elim
      next hn' =>
      replace hn' : n = m₂.heap.size := Decidable.of_not_not hn'
      simp only [bind_ok, lift_ok, insert_ok, read_ok, length_ok, pure_ok] at h
      obtain ⟨access, _, ⟨hw, rfl⟩, o, _, ⟨hcon, rfl⟩, number, _, ⟨rfl, rfl⟩, count, m₃,
        ⟨⟨hc₃, hcount⟩, h₃⟩, us, _, hus, rfl, rfl⟩ := h
      -- The object stands in its slot while its fields are read, so they may refer to it.
      have hh : (Handle.ofSlot m₂.heap.size).slot = m₂.heap.size := Handle.slot_ofSlot (hn' ▸ hn)
      have hs : (Handle.ofSlot m₂.heap.size).slot < m₃.heap.size := by
        rw [← h₃, hh, Heap.size_extend]
        exact Nat.lt_succ_self _
      have ho : m₃.heap.object? (.ofSlot m₂.heap.size) = some o := h₃ ▸ Heap.object?_last hh
      obtain ⟨-, fields, rfl, hfields⟩ := (fields_ok (ih r rfl) hs ho).1 hus
      refine ⟨.object typeName (.ofSlot m₂.heap.size) fields, reads_object.2 ?_, Tree.value.eq_5 ..⟩
      rw [hheap, h₁, h₂]
      refine ⟨htype, hh, access, o, m₃.rest, hw, hcon, hcount, ?_, ?_⟩
      · rw [hb, hc₁, hc₂, hc₃, hh, hn']
      · rw [show m₂.heap.extend [⟨typeName, o⟩] = m₃.heap from h₃]
        exact hfields

theorem decodeAt_scalar {codec : Codec α} {s : Scalar} (hs : s.Bounded codec.limits)
    (hb : d.rest = s.tag.byte :: (s.content ++ d'.rest)) (hd : d.heap = d'.heap) :
    codec.decodeAt room d = .ok s.value d' := by
  rw [Codec.decodeAt.eq_def]
  refine bind_ok.2 ⟨_, ⟨_, d.heap⟩, read_ok.2 ⟨byte_ok.2 hb, rfl⟩,
    bind_ok.2 ⟨s.tag, _, lift_ok.2 ⟨ofByte_ok.2 rfl, rfl⟩, ?_⟩⟩
  obtain ⟨rest, heap⟩ := d'
  obtain rfl : d.heap = heap := hd
  cases s with
  | null => rfl
  | bool b =>
    refine bind_ok.2 ⟨_, _, read_ok.2 ⟨byte_ok.2 rfl, rfl⟩, ?_⟩
    cases b <;> rfl
  | i8 n =>
    refine bind_ok.2 ⟨_, _, read_ok.2 ⟨nat_ok.2 ⟨rfl, n.toUInt8.toNat_lt⟩, rfl⟩, pure_ok.2 ⟨?_, rfl⟩⟩
    simp [Scalar.value]
  | i16 n =>
    refine bind_ok.2 ⟨_, _, read_ok.2 ⟨nat_ok.2 ⟨rfl, n.toUInt16.toNat_lt⟩, rfl⟩, pure_ok.2 ⟨?_, rfl⟩⟩
    simp [Scalar.value]
  | i32 n =>
    refine bind_ok.2 ⟨_, _, read_ok.2 ⟨nat_ok.2 ⟨rfl, n.toUInt32.toNat_lt⟩, rfl⟩, pure_ok.2 ⟨?_, rfl⟩⟩
    simp [Scalar.value]
  | i64 n =>
    refine bind_ok.2 ⟨_, _, read_ok.2 ⟨nat_ok.2 ⟨rfl, n.toUInt64.toNat_lt⟩, rfl⟩, pure_ok.2 ⟨?_, rfl⟩⟩
    simp [Scalar.value]
  | f32 x =>
    refine bind_ok.2 ⟨_, _, read_ok.2 ⟨nat_ok.2 ⟨rfl, x.bits.toNat_lt⟩, rfl⟩, pure_ok.2 ⟨?_, rfl⟩⟩
    simp [Scalar.value]
  | f64 x =>
    refine bind_ok.2 ⟨_, _, read_ok.2 ⟨nat_ok.2 ⟨rfl, x.bits.toNat_lt⟩, rfl⟩, pure_ok.2 ⟨?_, rfl⟩⟩
    simp [Scalar.value]
  | str s =>
    exact bind_ok.2 ⟨s, _, read_ok.2 ⟨text_ok.2 ⟨rfl, hs⟩, rfl⟩, rfl⟩
  | bytes data =>
    refine bind_ok.2 ⟨data.size, ⟨_, d.heap⟩, read_ok.2 ⟨length_ok.2 ⟨List.append_assoc .., hs⟩, rfl⟩,
      bind_ok.2 ⟨data.data.toList, _, read_ok.2 ⟨take_ok.2 ⟨rfl, Array.length_toList⟩, rfl⟩, ?_⟩⟩
    rw [toByteArray_toList]
    rfl

theorem decodeAt_of_reads {codec : Codec α} (ih : ∀ r, room = r + 1 → ReadsTrees codec r)
    (h : Reads codec room [t] d d') : codec.decodeAt room d = .ok t.value d' := by
  cases t with
  | scalar s =>
    obtain ⟨hs, hb, hd⟩ := reads_scalar.1 h
    rw [Tree.value]
    exact decodeAt_scalar hs hb hd
  | ref number =>
    obtain ⟨-, hb, hg⟩ := reads_singleton.1 h
    obtain ⟨hlt, hd⟩ := grows_ref.1 hg
    rw [Tree.spell, List.cons_append] at hb
    rw [Codec.decodeAt.eq_def, Tree.value]
    refine bind_ok.2 ⟨_, ⟨_, d.heap⟩, read_ok.2 ⟨byte_ok.2 hb, rfl⟩,
      bind_ok.2 ⟨.objectRef, _, lift_ok.2 ⟨ofByte_ok.2 rfl, rfl⟩, ?_⟩⟩
    refine bind_ok.2 ⟨_, ⟨_, d.heap⟩, read_ok.2 ⟨nat_ok.2 ⟨rfl, number.slot_lt⟩, rfl⟩,
      bind_ok.2 ⟨_, _, get_ok.2 ⟨rfl, rfl⟩, ?_⟩⟩
    rw [if_pos hlt, Handle.ofSlot_slot, ← hd]
    rfl
  | array items =>
    cases room with
    | zero => exact (Tree.not_fits_zero (by simp) (by simp) (reads_singleton.1 h).1).elim
    | succ r =>
      obtain ⟨hlen, rest, hb, hts⟩ := reads_array.1 h
      rw [Codec.decodeAt.eq_def, Tree.value]
      refine bind_ok.2 ⟨_, ⟨_, d.heap⟩, read_ok.2 ⟨byte_ok.2 hb, rfl⟩,
        bind_ok.2 ⟨.array, _, lift_ok.2 ⟨ofByte_ok.2 rfl, rfl⟩, ?_⟩⟩
      exact bind_ok.2 ⟨_, ⟨rest, d.heap⟩, read_ok.2 ⟨length_ok.2 ⟨rfl, hlen⟩, rfl⟩,
        bind_ok.2 ⟨_, d', (items_ok (ih r rfl)).2 ⟨items, rfl, hts, rfl⟩, rfl⟩⟩
  | map entries =>
    cases room with
    | zero => exact (Tree.not_fits_zero (by simp) (by simp) (reads_singleton.1 h).1).elim
    | succ r =>
      obtain ⟨hlen, rest, hb, hes⟩ := reads_map.1 h
      rw [Codec.decodeAt.eq_def, Tree.value]
      refine bind_ok.2 ⟨_, ⟨_, d.heap⟩, read_ok.2 ⟨byte_ok.2 hb, rfl⟩,
        bind_ok.2 ⟨.map, _, lift_ok.2 ⟨ofByte_ok.2 rfl, rfl⟩, ?_⟩⟩
      exact bind_ok.2 ⟨_, ⟨rest, d.heap⟩, read_ok.2 ⟨length_ok.2 ⟨rfl, hlen⟩, rfl⟩,
        bind_ok.2 ⟨_, d', (entries_ok (ih r rfl)).2 ⟨entries, rfl, hes, rfl⟩, rfl⟩⟩
  | object typeName number fields =>
    cases room with
    | zero => exact (Tree.not_fits_zero (by simp) (by simp) (reads_singleton.1 h).1).elim
    | succ r =>
      obtain ⟨htype, hh, access, o, rest, hw, hcon, hlen, hb, hfields⟩ := reads_object.1 h
      have hnumber : Handle.ofSlot d.heap.size = number := hh ▸ number.ofSlot_slot
      rw [Codec.decodeAt.eq_def, Tree.value]
      refine bind_ok.2 ⟨_, ⟨_, d.heap⟩, read_ok.2 ⟨byte_ok.2 hb, rfl⟩,
        bind_ok.2 ⟨.object, _, lift_ok.2 ⟨ofByte_ok.2 rfl, rfl⟩, ?_⟩⟩
      refine bind_ok.2 ⟨typeName, ⟨_, d.heap⟩, read_ok.2 ⟨text_ok.2 ⟨rfl, htype⟩, rfl⟩,
        bind_ok.2 ⟨_, ⟨_, d.heap⟩, read_ok.2 ⟨nat_ok.2 ⟨rfl, number.slot_lt⟩, rfl⟩,
        bind_ok.2 ⟨_, _, get_ok.2 ⟨rfl, rfl⟩, ?_⟩⟩⟩
      rw [if_neg (by simpa using hh)]
      refine bind_ok.2 ⟨access, _, lift_ok.2 ⟨hw, rfl⟩, bind_ok.2 ⟨o, _, lift_ok.2 ⟨hcon, rfl⟩,
        bind_ok.2 ⟨number, _, insert_ok.2 ⟨hnumber.symm, rfl⟩,
        bind_ok.2 ⟨_, ⟨rest, _⟩, read_ok.2 ⟨length_ok.2 ⟨rfl, hlen⟩, rfl⟩,
        bind_ok.2 ⟨_, d', (fields_ok (ih r rfl) ?_ ?_).2 ⟨rfl, fields, rfl, hfields⟩, rfl⟩⟩⟩⟩⟩
      · rw [hh, Heap.size_extend]
        exact Nat.lt_succ_self _
      · exact Heap.object?_last hh

/-- Reading a value succeeds just on a tree, as its value. -/
theorem decodeAt_ok (codec : Codec α) (room : Nat) : ReadsTrees codec room := by
  have hstep : ∀ room, (∀ r, room = r + 1 → ReadsTrees codec r) → ReadsTrees codec room := by
    intro room ih d v d'
    constructor
    · exact reads_of_decodeAt ih
    · rintro ⟨t, ht, rfl⟩
      exact decodeAt_of_reads ih ht
  induction room with
  | zero => exact hstep 0 fun r hr => (Nat.succ_ne_zero r hr.symm).elim
  | succ room ih =>
    exact hstep (room + 1) fun r hr => Nat.succ.inj hr ▸ ih

-- ---------------------------------------------------------------------------
-- Whole inputs
-- ---------------------------------------------------------------------------

theorem decodeAll_ok {action : DecodeM α β} {heap : Heap α} :
    Codec.decodeAll action input = .ok (b, heap) ↔ action ⟨input, .empty⟩ = .ok b ⟨[], heap⟩ := by
  unfold Codec.decodeAll
  cases action ⟨input, .empty⟩ with
  | ok c d =>
    obtain ⟨rest, heap'⟩ := d
    cases rest <;> simp [Codec.finish, Except.map]
  | error fault d => simp

theorem decodeValue_ok {codec : Codec α} {heap : Heap α} :
    codec.decodeValue input = .ok (v, heap) ↔ ∃ t, t.Fits codec.limits codec.room ∧
      input = t.spell ∧ Grows codec.registry [t] .empty heap ∧ t.value = v := by
  rw [Codec.decodeValue, decodeAll_ok, Codec.decode, decodeAt_ok]
  simp only [reads_singleton, List.append_nil, and_assoc]

theorem decodeParams_ok {codec : Codec α} {heap : Heap α} :
    codec.decodeParams input = .ok (values, heap) ↔ ∃ ts,
      Within ts.length codec.limits.maxCollectionLen ∧ (∀ t ∈ ts, t.Fits codec.limits codec.room) ∧
      input = spellParams ts ∧ Grows codec.registry ts .empty heap ∧ ts.map Tree.value = values := by
  simp only [Codec.decodeParams, decodeAll_ok, bind_ok, read_ok, length_ok]
  constructor
  · rintro ⟨n, m, ⟨⟨hb, hlen⟩, hm⟩, hvs⟩
    obtain ⟨ts, rfl, hr, rfl⟩ := (items_ok (decodeAt_ok codec _)).1 hvs
    refine ⟨ts, hlen, hr.fits, ?_, hm ▸ hr.grows, rfl⟩
    rw [hb, hr.bytes, List.append_nil, spellParams]
  · rintro ⟨ts, hlen, hf, rfl, hg, rfl⟩
    exact ⟨ts.length, ⟨ts.flatMap Tree.spell, .empty⟩, ⟨⟨rfl, hlen⟩, rfl⟩,
      (items_ok (decodeAt_ok codec _)).2 ⟨ts, rfl, ⟨hf, (List.append_nil _).symm, hg⟩, rfl⟩⟩

end Wire
end GraphRpc
