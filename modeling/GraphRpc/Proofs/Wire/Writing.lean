import Mathlib
import GraphRpc.Proofs.Wire.Unfolding

/-!
# Writing trees

`encodeAt_ok`: writing a value succeeds just when the value unfolds to a tree that keeps the limits.
What is written are the bytes of the tree, and the objects numbered are those the walk meets.
-/

namespace GraphRpc

open Wire

section
variable {α : Type}

/-- What the reader of its type sees of the object in a slot. -/
def Registry.seen (registry : Registry α) (slot : Slot α) : Except CodecFault Blueprint := do
  let access ← registry.resolveReader slot.typeName slot.object
  let names ← access.fields slot.typeName slot.object
  let fields ← names.mapM fun name => do return (name, ← access.get slot.object name)
  return ⟨slot.typeName, fields⟩

/-- What the readers see behind the handles of a heap. -/
def Registry.view (registry : Registry α) (heap : Heap α) : View := fun h =>
  (heap.slot? h).bind fun slot => (registry.seen slot).toOption

end

namespace Wire

open Binary EncodeM

variable {α β : Type}

theorem view_eq_some {registry : Registry α} {heap : Heap α} :
    registry.view heap h = some b ↔ ∃ slot, heap.slot? h = some slot ∧ registry.seen slot = .ok b := by
  rw [Registry.view, Option.bind_eq_some_iff]
  refine exists_congr fun slot => and_congr_right fun _ => ?_
  cases registry.seen slot <;> simp [Except.toOption]

theorem seen_ok {registry : Registry α} {slot : Slot α} : registry.seen slot = .ok b ↔
    ∃ access, registry.resolveReader slot.typeName slot.object = .ok access ∧
      ∃ names, access.fields slot.typeName slot.object = .ok names ∧
        ∃ fields, (names.mapM fun name => do return (name, ← access.get slot.object name)) = .ok fields ∧
          ⟨slot.typeName, fields⟩ = b := by
  simp only [Registry.seen, except_bind_ok, except_pure_ok]

theorem names_of_mapM {get : String → Except CodecFault Value} {names : List String}
    {fields : List (String × Value)}
    (h : (names.mapM fun name => do return (name, ← get name)) = .ok fields) :
    fields.map Prod.fst = names := by
  induction names generalizing fields with
  | nil =>
    cases h
    rfl
  | cons name names ih =>
    simp only [List.mapM_cons, except_bind_ok, except_pure_ok] at h
    obtain ⟨_, ⟨v, -, rfl⟩, fields, hfields, rfl⟩ := h
    rw [List.map_cons, ih hfields]

theorem forM_nil_ok {f : β → EncodeM Unit} : [].forM f e = .ok u e' ↔ e' = e := by
  change EStateM.Result.ok () e = _ ↔ _
  simp [eq_comm]

theorem forM_cons_ok {f : β → EncodeM Unit} {bs : List β} :
    (b :: bs).forM f e = .ok u e' ↔ ∃ m, f b e = .ok () m ∧ bs.forM f m = .ok () e' := by
  change (f b >>= fun _ => bs.forM f) e = _ ↔ _
  rw [bind_ok]
  exact ⟨fun ⟨_, m, hb, hbs⟩ => ⟨m, hb, hbs⟩, fun ⟨m, hb, hbs⟩ => ⟨(), m, hb, hbs⟩⟩

-- ---------------------------------------------------------------------------
-- What writing does
-- ---------------------------------------------------------------------------

/-- Writing appends the bytes of the trees of some values and numbers the objects met. -/
structure Writes (codec : Codec α) (heap : Heap α) (room : Nat) (vs : List Value) (ts : List Tree)
    (e e' : Encoder) : Prop where
  unfolds : Unfolds (codec.registry.view heap) e.met.toList vs ts e'.met.toList
  fits : ∀ t ∈ ts, t.Fits codec.limits room
  out : e'.out = (append e (ts.flatMap Tree.spell)).out

theorem writes_nil {codec : Codec α} : Writes codec heap room [] [] e e' ↔ e' = e := by
  obtain ⟨out, met⟩ := e
  obtain ⟨out', met'⟩ := e'
  rw [Encoder.mk.injEq]
  constructor
  · rintro ⟨hu, -, hout⟩
    rw [List.flatMap_nil, append_nil] at hout
    exact ⟨hout, Array.toList_inj.1 (unfolds_nil.1 hu).2⟩
  · rintro ⟨rfl, rfl⟩
    exact ⟨.nil, by simp, by simp⟩

theorem writes_cons {codec : Codec α} : Writes codec heap room (v :: vs) (t :: ts) e e' ↔
    ∃ m, Writes codec heap room [v] [t] e m ∧ Writes codec heap room vs ts m e' := by
  constructor
  · rintro ⟨hu, hf, hout⟩
    obtain ⟨t', ts', mid, hts, hv, hvs⟩ := unfolds_cons.1 hu
    cases hts
    refine ⟨⟨(append e t.spell).out, mid.toArray⟩, ⟨hv, ?_, by simp⟩, ⟨hvs, ?_, ?_⟩⟩
    · exact List.forall_mem_singleton.2 (hf t (by simp))
    · exact fun t' ht' => hf t' (by simp [ht'])
    · rw [hout, List.flatMap_cons, ← append_append]
      rfl
  · rintro ⟨m, ⟨hv, hf, hout⟩, hvs, hfs, hout'⟩
    rw [List.flatMap_singleton] at hout
    refine ⟨hv.cons hvs, List.forall_mem_cons.2 ⟨List.forall_mem_singleton.1 hf, hfs⟩, ?_⟩
    rw [hout', List.flatMap_cons, ← append_append, append, hout]
    rfl

/-- What `encodeAt_ok` says of one amount of room, from which it follows for one more. -/
def WritesTrees (codec : Codec α) (heap : Heap α) (room : Nat) : Prop :=
  ∀ {v e u e'}, codec.encodeAt heap room v e = .ok u e' ↔ ∃ t, Writes codec heap room [v] [t] e e'

theorem writes_items_ok {codec : Codec α} (ih : WritesTrees codec heap room) {vs : List Value} :
    vs.forM (codec.encodeAt heap room) e = .ok u e' ↔ ∃ ts, Writes codec heap room vs ts e e' := by
  induction vs generalizing e u with
  | nil =>
    rw [forM_nil_ok]
    constructor
    · rintro rfl
      exact ⟨[], writes_nil.2 rfl⟩
    · rintro ⟨ts, hw⟩
      obtain ⟨rfl, -⟩ := unfolds_nil.1 hw.unfolds
      exact writes_nil.1 hw
  | cons v vs ihvs =>
    rw [forM_cons_ok]
    constructor
    · rintro ⟨m, hv, hvs⟩
      obtain ⟨t, ht⟩ := ih.1 hv
      obtain ⟨ts, hts⟩ := ihvs.1 hvs
      exact ⟨t :: ts, writes_cons.2 ⟨m, ht, hts⟩⟩
    · rintro ⟨ts, hw⟩
      obtain ⟨t, ts, mid, rfl, -, -⟩ := unfolds_cons.1 hw.unfolds
      obtain ⟨m, ht, hts⟩ := writes_cons.1 hw
      exact ⟨m, ih.2 ⟨t, ht⟩, ihvs.2 ⟨ts, hts⟩⟩

def putEntry (codec : Codec α) (heap : Heap α) (room : Nat) (entry : Value × Value) : EncodeM Unit := do
  codec.encodeAt heap room entry.1
  codec.encodeAt heap room entry.2

theorem writes_entries_ok {codec : Codec α} (ih : WritesTrees codec heap room)
    {entries : List (Value × Value)} : entries.forM (putEntry codec heap room) e = .ok u e' ↔
      ∃ es, Writes codec heap room (flat entries) (flat es) e e' := by
  induction entries generalizing e u with
  | nil =>
    rw [forM_nil_ok]
    constructor
    · rintro rfl
      exact ⟨[], writes_nil.2 rfl⟩
    · rintro ⟨es, hw⟩
      have hes := (unfolds_nil.1 hw.unfolds).1
      rw [hes] at hw
      exact writes_nil.1 hw
  | cons entry entries ihentries =>
    simp only [forM_cons_ok, putEntry, bind_ok]
    constructor
    · rintro ⟨m, ⟨_, m', hk, hv⟩, hvs⟩
      obtain ⟨tk, htk⟩ := ih.1 hk
      obtain ⟨tv, htv⟩ := ih.1 hv
      obtain ⟨es, hes⟩ := ihentries.1 hvs
      exact ⟨(tk, tv) :: es, writes_cons.2 ⟨m', htk, writes_cons.2 ⟨m, htv, hes⟩⟩⟩
    · rintro ⟨_ | ⟨⟨tk, tv⟩, es⟩, hw⟩
      · obtain ⟨_, _, _, hes, -⟩ := unfolds_cons.1 hw.unfolds
        cases hes
      · obtain ⟨m', htk, hw⟩ := writes_cons.1 hw
        obtain ⟨m, htv, hes⟩ := writes_cons.1 hw
        exact ⟨m, ⟨(), m', ih.2 ⟨tk, htk⟩, ih.2 ⟨tv, htv⟩⟩, ihentries.2 ⟨es, hes⟩⟩

-- ---------------------------------------------------------------------------
-- Fields
-- ---------------------------------------------------------------------------

def putField (codec : Codec α) (heap : Heap α) (room : Nat) (access : FieldAccess α) (o : Object α)
    (name : String) : EncodeM Unit := do
  putText .fieldName name codec.limits.maxStringLen
  let v ← access.get o name
  codec.encodeAt heap room v

structure WritesFields (codec : Codec α) (heap : Heap α) (room : Nat)
    (fields : List (String × Value)) (parts : List (String × Tree)) (e e' : Encoder) : Prop where
  names : parts.map Prod.fst = fields.map Prod.fst
  bounded : ∀ f ∈ parts, Within f.1.utf8ByteSize codec.limits.maxStringLen
  fits : ∀ t ∈ parts.map Prod.snd, t.Fits codec.limits room
  unfolds : Unfolds (codec.registry.view heap) e.met.toList (fields.map Prod.snd)
    (parts.map Prod.snd) e'.met.toList
  out : e'.out = (append e (parts.flatMap fun f => spellText f.1 ++ f.2.spell)).out

theorem writesFields_nil {codec : Codec α} : WritesFields codec heap room [] [] e e' ↔ e' = e := by
  obtain ⟨out, met⟩ := e
  obtain ⟨out', met'⟩ := e'
  rw [Encoder.mk.injEq]
  constructor
  · rintro ⟨-, -, -, hu, hout⟩
    rw [List.flatMap_nil, append_nil] at hout
    exact ⟨hout, Array.toList_inj.1 (unfolds_nil.1 hu).2⟩
  · rintro ⟨rfl, rfl⟩
    exact ⟨rfl, by simp, by simp, .nil, by simp⟩

theorem writesFields_cons {codec : Codec α} :
    WritesFields codec heap room ((name, v) :: fields) ((name', t) :: parts) e e' ↔
      name' = name ∧ Within name.utf8ByteSize codec.limits.maxStringLen ∧ ∃ m,
        Writes codec heap room [v] [t] (append e (spellText name)) m ∧
        WritesFields codec heap room fields parts m e' := by
  constructor
  · rintro ⟨hn, hb, hf, hu, hout⟩
    obtain ⟨rfl, hns⟩ := List.cons.inj hn
    obtain ⟨t', ts', mid, hts, hv, hvs⟩ := unfolds_cons.1 hu
    cases hts
    obtain ⟨hb, hbs⟩ := List.forall_mem_cons.1 hb
    obtain ⟨hf, hfs⟩ := List.forall_mem_cons.1 hf
    refine ⟨rfl, hb, ⟨(append e (spellText name' ++ t.spell)).out, mid.toArray⟩, ?_, ?_⟩
    · exact ⟨hv, List.forall_mem_singleton.2 hf, by rw [List.flatMap_singleton, append_append]⟩
    · refine ⟨hns, hbs, hfs, hvs, ?_⟩
      rw [hout, List.flatMap_cons, ← append_append]
      rfl
  · rintro ⟨rfl, hb, m, ⟨hv, hf, hout⟩, hn, hbs, hfs, hvs, hout'⟩
    rw [List.flatMap_singleton, append_append] at hout
    refine ⟨congrArg (name' :: ·) hn, List.forall_mem_cons.2 ⟨hb, hbs⟩,
      List.forall_mem_cons.2 ⟨List.forall_mem_singleton.1 hf, hfs⟩, hv.cons hvs, ?_⟩
    rw [hout', List.flatMap_cons, ← append_append, append, hout]
    rfl

theorem writes_fields_ok {codec : Codec α} (ih : WritesTrees codec heap room) {names : List String} :
    names.forM (putField codec heap room access o) e = .ok u e' ↔ ∃ fields parts,
      (names.mapM fun name => do return (name, ← access.get o name)) = .ok fields ∧
      WritesFields codec heap room fields parts e e' := by
  induction names generalizing e u with
  | nil =>
    rw [forM_nil_ok, List.mapM_nil]
    constructor
    · rintro rfl
      exact ⟨[], [], rfl, writesFields_nil.2 rfl⟩
    · rintro ⟨fields, parts, hfields, hw⟩
      cases hfields
      obtain rfl := List.map_eq_nil_iff.1 hw.names
      exact writesFields_nil.1 hw
  | cons name names ihnames =>
    simp only [forM_cons_ok, putField, bind_ok, putText_ok, lift_ok, List.mapM_cons, except_bind_ok,
      except_pure_ok]
    constructor
    · rintro ⟨m, ⟨_, _, ⟨hn, rfl⟩, v, _, ⟨hget, rfl⟩, hv⟩, hnames⟩
      obtain ⟨t, ht⟩ := ih.1 hv
      obtain ⟨fields, parts, hfields, hparts⟩ := ihnames.1 hnames
      exact ⟨(name, v) :: fields, (name, t) :: parts, ⟨_, ⟨v, hget, rfl⟩, fields, hfields, rfl⟩,
        writesFields_cons.2 ⟨rfl, hn, m, ht, hparts⟩⟩
    · rintro ⟨_, _ | ⟨⟨name', t⟩, parts⟩, ⟨_, ⟨v, hget, rfl⟩, fields, hfields, rfl⟩, hw⟩
      · cases hw.names
      · obtain ⟨rfl, hn, m, ht, hparts⟩ := writesFields_cons.1 hw
        exact ⟨m, ⟨(), _, ⟨hn, rfl⟩, v, _, ⟨hget, rfl⟩, ih.2 ⟨t, ht⟩⟩,
          ihnames.2 ⟨fields, parts, hfields, hparts⟩⟩

-- ---------------------------------------------------------------------------
-- Values
-- ---------------------------------------------------------------------------

theorem encodeAt_scalar_ok {codec : Codec α} {s : Scalar} :
    codec.encodeAt heap room s.value e = .ok u e' ↔
      s.Bounded codec.limits ∧ e' = append e s.spell := by
  cases s <;>
    simp only [Scalar.value, Codec.encodeAt, bind_ok, putTag_ok, putByte_ok, putNat_ok, putText_ok,
      putBytes_ok, checkLimit_ok, Scalar.Bounded, Scalar.spell, Scalar.tag, Scalar.content]
  case bytes data =>
    constructor
    · rintro ⟨_, _, ⟨hlen, rfl⟩, _, _, rfl, _, _, rfl, rfl⟩
      exact ⟨hlen, by simp⟩
    · rintro ⟨hlen, rfl⟩
      exact ⟨(), e, ⟨hlen, rfl⟩, (), _, rfl, (), _, rfl, by simp⟩
  all_goals simp

theorem encodeAt_array_ok {codec : Codec α} :
    codec.encodeAt heap (room + 1) (.array items) e = .ok u e' ↔
      Within items.length codec.limits.maxCollectionLen ∧
        items.forM (codec.encodeAt heap room)
          (append e (Tag.array.byte :: bigEndian 4 items.length)) = .ok u e' := by
  simp only [Codec.encodeAt, bind_ok, checkLimit_ok, putTag_ok, putNat_ok]
  constructor
  · rintro ⟨_, _, ⟨hlen, rfl⟩, _, _, rfl, _, _, rfl, h⟩
    exact ⟨hlen, by simpa using h⟩
  · rintro ⟨hlen, h⟩
    exact ⟨(), e, ⟨hlen, rfl⟩, (), _, rfl, (), _, rfl, by simpa using h⟩

theorem encodeAt_map_ok {codec : Codec α} :
    codec.encodeAt heap (room + 1) (.map entries) e = .ok u e' ↔
      Within entries.length codec.limits.maxCollectionLen ∧
        entries.forM (putEntry codec heap room)
          (append e (Tag.map.byte :: bigEndian 4 entries.length)) = .ok u e' := by
  simp only [Codec.encodeAt, bind_ok, checkLimit_ok, putTag_ok, putNat_ok]
  constructor
  · rintro ⟨_, _, ⟨hlen, rfl⟩, _, _, rfl, _, _, rfl, h⟩
    rw [append_append] at h
    exact ⟨hlen, h⟩
  · rintro ⟨hlen, h⟩
    refine ⟨(), e, ⟨hlen, rfl⟩, (), _, rfl, (), _, rfl, ?_⟩
    rw [append_append]
    exact h

theorem assignNumber_ok : Codec.assignNumber h e = .ok number e' ↔
    number = UInt32.ofNat e.met.size ∧ e' = { e with met := e.met.push h } := by
  change EStateM.Result.ok _ _ = _ ↔ _
  simp [eq_comm]

theorem idxOf?_met {e : Encoder} :
    e.met.idxOf? h = if h ∈ e.met.toList then some (e.met.toList.idxOf h) else none := by
  obtain ⟨out, ⟨met⟩⟩ := e
  rw [List.idxOf?_toArray]
  split
  · next hmem =>
    refine List.idxOf?_eq_some_iff.2
      ⟨List.idxOf_lt_length_of_mem hmem, List.getElem_idxOf _, fun j hj => ?_⟩
    simpa using List.not_of_lt_findIdx hj
  · next hmem => exact List.idxOf?_eq_none_iff.2 hmem

theorem encodeAt_ref_ok {codec : Codec α} {e : Encoder} (hh : h ∈ e.met.toList) :
    codec.encodeAt heap room (.object h) e = .ok u e' ↔
      e' = append e (Tree.ref (rank e.met.toList h)).spell := by
  have hnumber : bigEndian 4 (rank e.met.toList h).slot = bigEndian 4 (e.met.toList.idxOf h) :=
    bigEndian_mod 4 _
  have hmet : codec.encodeAt heap room (.object h) e =
      (do putTag .objectRef; putNat 4 (e.met.toList.idxOf h) : EncodeM Unit) e := by
    have hidx : e.met.idxOf? h = some (e.met.toList.idxOf h) := by rw [idxOf?_met, if_pos hh]
    rw [Codec.encodeAt.eq_def]
    simp only [bind, EStateM.bind, get, getThe, MonadStateOf.get, EStateM.get, hidx]
  rw [hmet, Tree.spell, hnumber]
  simp only [bind_ok, putTag_ok, putNat_ok]
  simp

theorem encodeAt_object_ok {codec : Codec α} {e : Encoder} (hh : h ∉ e.met.toList) :
    codec.encodeAt heap (room + 1) (.object h) e = .ok u e' ↔
      ∃ slot access names, heap.slot? h = some slot ∧
        codec.registry.resolveReader slot.typeName slot.object = .ok access ∧
        access.fields slot.typeName slot.object = .ok names ∧
        Within names.length codec.limits.maxFields ∧
        Within slot.typeName.utf8ByteSize codec.limits.maxStringLen ∧
        names.forM (putField codec heap room access slot.object)
          (append { e with met := e.met.push h } (Tag.object.byte :: (spellText slot.typeName ++
            bigEndian 4 (Handle.ofSlot e.met.size).slot ++ bigEndian 4 names.length))) = .ok u e' := by
  have hmet : e.met.idxOf? h = none := by rw [idxOf?_met, if_neg hh]
  rw [Codec.encodeAt.eq_def]
  simp only [bind_ok, get_ok]
  constructor
  · rintro ⟨_, _, ⟨rfl, rfl⟩, hput⟩
    rw [hmet] at hput
    dsimp only at hput
    cases hslot : heap.slot? h with
    | none =>
      rw [hslot] at hput
      exact (throw_ok.1 hput).elim
    | some slot =>
      rw [hslot] at hput
      simp only [bind_ok, assignNumber_ok, lift_ok, checkLimit_ok, putTag_ok, putText_ok,
        putNat_ok] at hput
      obtain ⟨_, _, ⟨rfl, rfl⟩, access, _, ⟨haccess, rfl⟩, names, _, ⟨hnames, rfl⟩, _, _, ⟨hlen, rfl⟩,
        _, _, rfl, _, _, ⟨htype, rfl⟩, _, _, rfl, _, _, rfl, hput⟩ := hput
      refine ⟨slot, access, names, rfl, haccess, hnames, hlen, htype, ?_⟩
      simp only [append_append] at hput
      exact hput
  · rintro ⟨slot, access, names, hslot, haccess, hnames, hlen, htype, hput⟩
    refine ⟨e, e, ⟨rfl, rfl⟩, ?_⟩
    rw [hmet]
    dsimp only
    rw [hslot]
    simp only [bind_ok, assignNumber_ok, lift_ok, checkLimit_ok, putTag_ok, putText_ok, putNat_ok]
    refine ⟨_, _, ⟨rfl, rfl⟩, access, _, ⟨haccess, rfl⟩, names, _, ⟨hnames, rfl⟩, (), _, ⟨hlen, rfl⟩,
      (), _, rfl, (), _, ⟨htype, rfl⟩, (), _, rfl, (), _, rfl, ?_⟩
    simp only [append_append]
    exact hput

theorem writes_singleton {codec : Codec α} : Writes codec heap room [v] [t] e e' ↔
    Unfolds (codec.registry.view heap) e.met.toList [v] [t] e'.met.toList ∧
      t.Fits codec.limits room ∧ e'.out = (append e t.spell).out := by
  constructor
  · rintro ⟨hu, hf, hout⟩
    rw [List.flatMap_singleton] at hout
    exact ⟨hu, List.forall_mem_singleton.1 hf, hout⟩
  · rintro ⟨hu, hf, hout⟩
    exact ⟨hu, List.forall_mem_singleton.2 hf, by rwa [List.flatMap_singleton]⟩

theorem eq_append {e e' : Encoder} (hout : e'.out = (append e bytes).out)
    (hmet : e'.met.toList = e.met.toList) : e' = append e bytes := by
  obtain ⟨out, met⟩ := e
  obtain ⟨out', met'⟩ := e'
  rw [append, Encoder.mk.injEq]
  exact ⟨hout, Array.toList_inj.1 hmet⟩

theorem writes_scalar {codec : Codec α} {s : Scalar} :
    (∃ t, Writes codec heap room [s.value] [t] e e') ↔
      s.Bounded codec.limits ∧ e' = append e s.spell := by
  constructor
  · rintro ⟨t, hw⟩
    obtain ⟨hu, hf, hout⟩ := writes_singleton.1 hw
    obtain ⟨ht, hmet⟩ := unfolds_scalar.1 hu
    cases ht
    rw [Tree.spell] at hout
    exact ⟨Tree.fits_scalar.1 hf, eq_append hout hmet⟩
  · rintro ⟨hs, rfl⟩
    refine ⟨.scalar s, writes_singleton.2 ⟨.scalar .nil, Tree.fits_scalar.2 hs, ?_⟩⟩
    rw [Tree.spell]

theorem writes_array {codec : Codec α} :
    (∃ t, Writes codec heap (room + 1) [.array items] [t] e e') ↔
      Within items.length codec.limits.maxCollectionLen ∧ ∃ ts, Writes codec heap room items ts
        (append e (Tag.array.byte :: bigEndian 4 items.length)) e' := by
  constructor
  · rintro ⟨t, hw⟩
    obtain ⟨hu, hf, hout⟩ := writes_singleton.1 hw
    obtain ⟨parts, ht, hparts⟩ := unfolds_array.1 hu
    cases ht
    obtain ⟨hlen, hfs⟩ := Tree.fits_array.1 hf
    rw [hparts.length] at hlen
    refine ⟨hlen, parts, hparts, hfs, ?_⟩
    rw [hout, Tree.spell, append_append, hparts.length, List.cons_append]
  · rintro ⟨hlen, ts, hu, hf, hout⟩
    rw [← hu.length] at hlen
    refine ⟨.array ts, writes_singleton.2 ⟨.array hu .nil, Tree.fits_array.2 ⟨hlen, hf⟩, ?_⟩⟩
    rw [hout, Tree.spell, append_append, hu.length, List.cons_append]

theorem writes_map {codec : Codec α} :
    (∃ t, Writes codec heap (room + 1) [.map entries] [t] e e') ↔
      Within entries.length codec.limits.maxCollectionLen ∧
        ∃ es, Writes codec heap room (flat entries) (flat es)
          (append e (Tag.map.byte :: bigEndian 4 entries.length)) e' := by
  have hlength {met met' parts} (hu : Unfolds (codec.registry.view heap) met (flat entries)
      (flat parts) met') : parts.length = entries.length := by
    have hlen := hu.length
    rw [length_flat, length_flat] at hlen
    omega
  constructor
  · rintro ⟨t, hw⟩
    obtain ⟨hu, hf, hout⟩ := writes_singleton.1 hw
    obtain ⟨parts, ht, hparts⟩ := unfolds_map.1 hu
    cases ht
    obtain ⟨hlen, hfs⟩ := Tree.fits_map.1 hf
    rw [hlength hparts] at hlen
    refine ⟨hlen, parts, hparts, hfs, ?_⟩
    rw [hout, Tree.spell, append_append, hlength hparts, List.cons_append, flatMap_flat]
  · rintro ⟨hlen, es, hu, hf, hout⟩
    have hl : es.length = entries.length := hlength hu
    rw [← hl] at hlen
    refine ⟨.map es, writes_singleton.2 ⟨.map hu .nil, Tree.fits_map.2 ⟨hlen, hf⟩, ?_⟩⟩
    rw [hout, Tree.spell, append_append, hl, List.cons_append, flatMap_flat]

theorem writes_ref {codec : Codec α} {e : Encoder} (hh : h ∈ e.met.toList) :
    (∃ t, Writes codec heap room [.object h] [t] e e') ↔
      e' = append e (Tree.ref (rank e.met.toList h)).spell := by
  constructor
  · rintro ⟨t, hw⟩
    obtain ⟨hu, -, hout⟩ := writes_singleton.1 hw
    obtain ⟨ht, hmet⟩ := (unfolds_ref hh).1 hu
    cases ht
    exact eq_append hout hmet
  · rintro rfl
    exact ⟨_, writes_singleton.2 ⟨.ref hh .nil, Tree.fits_ref, rfl⟩⟩

theorem writes_object {codec : Codec α} {e : Encoder} (hh : h ∉ e.met.toList) :
    (∃ t, Writes codec heap (room + 1) [.object h] [t] e e') ↔
      ∃ b parts, codec.registry.view heap h = some b ∧
        Within b.fields.length codec.limits.maxFields ∧
        Within b.typeName.utf8ByteSize codec.limits.maxStringLen ∧
        WritesFields codec heap room b.fields parts
          (append { e with met := e.met.push h } (Tag.object.byte :: (spellText b.typeName ++
            bigEndian 4 (Handle.ofSlot e.met.size).slot ++ bigEndian 4 b.fields.length))) e' := by
  constructor
  · rintro ⟨t, hw⟩
    obtain ⟨hu, hf, hout⟩ := writes_singleton.1 hw
    obtain ⟨b, parts, ht, hview, hnames, hparts⟩ := (unfolds_object hh).1 hu
    cases ht
    obtain ⟨hlen, htype, hbounded, hfs⟩ := Tree.fits_object.1 hf
    have hl : parts.length = b.fields.length := by simpa using congrArg List.length hnames
    rw [hl] at hlen
    refine ⟨b, parts, hview, hlen, htype, hnames, hbounded, hfs, ?_, ?_⟩
    · simpa using hparts
    · rw [hout, Tree.spell, hl, Array.length_toList, ← List.cons_append, ← append_append]
      rfl
  · rintro ⟨b, parts, hview, hlen, htype, hnames, hbounded, hfs, hu, hout⟩
    have hl : parts.length = b.fields.length := by simpa using congrArg List.length hnames
    rw [← hl] at hlen
    refine ⟨.object b.typeName (.ofSlot e.met.toList.length) parts, writes_singleton.2 ⟨?_, ?_, ?_⟩⟩
    · exact .object hh hview hnames (by simpa using hu) .nil
    · exact Tree.fits_object.2 ⟨hlen, htype, hbounded, hfs⟩
    · rw [hout, Tree.spell, hl, Array.length_toList, append_append, List.cons_append]
      rfl

theorem not_writes_zero {codec : Codec α} (hs : ∀ s : Scalar, v ≠ s.value)
    (hr : ∀ h ∈ e.met.toList, v ≠ .object h) : ¬ ∃ t, Writes codec heap 0 [v] [t] e e' := by
  rintro ⟨t, hw⟩
  obtain ⟨hu, hf, -⟩ := writes_singleton.1 hw
  cases hu with
  | scalar => exact hs _ rfl
  | ref hmem => exact hr _ hmem rfl
  | _ => exact Tree.not_fits_zero (by simp) (by simp) hf

theorem encodeAt_zero_ok {codec : Codec α} {e : Encoder} (hh : h ∉ e.met.toList) :
    codec.encodeAt heap 0 (.object h) e = .ok u e' ↔ False := by
  have hmet : e.met.idxOf? h = none := by rw [idxOf?_met, if_neg hh]
  rw [Codec.encodeAt.eq_def]
  simp only [bind_ok, get_ok, iff_false]
  rintro ⟨_, _, ⟨rfl, rfl⟩, hput⟩
  rw [hmet] at hput
  exact throw_ok.1 hput

/-- Writing a value succeeds just when it unfolds to a tree that keeps the limits. -/
theorem encodeAt_ok (codec : Codec α) (heap : Heap α) (room : Nat) : WritesTrees codec heap room := by
  have hstep : ∀ room, (∀ r, room = r + 1 → WritesTrees codec heap r) →
      WritesTrees codec heap room := by
    intro room ih v e u e'
    obtain ⟨s, rfl⟩ | ⟨items, rfl⟩ | ⟨entries, rfl⟩ | ⟨h, rfl⟩ := v.shape
    · rw [encodeAt_scalar_ok, writes_scalar]
    · cases room with
      | zero =>
        rw [Codec.encodeAt.eq_def]
        exact throw_ok.trans (iff_of_false id
          (not_writes_zero (fun _ => Scalar.value_ne_array.symm) (by simp)))
      | succ r => rw [encodeAt_array_ok, writes_array, writes_items_ok (ih r rfl)]
    · cases room with
      | zero =>
        rw [Codec.encodeAt.eq_def]
        exact throw_ok.trans (iff_of_false id
          (not_writes_zero (fun _ => Scalar.value_ne_map.symm) (by simp)))
      | succ r => rw [encodeAt_map_ok, writes_map, writes_entries_ok (ih r rfl)]
    -- A reference takes no room, so whether the object was met comes before the cases on the room.
    · by_cases hh : h ∈ e.met.toList
      · rw [encodeAt_ref_ok hh, writes_ref hh]
      cases room with
      | zero =>
        refine (encodeAt_zero_ok hh).trans (iff_of_false id
          (not_writes_zero (fun _ => Scalar.value_ne_object.symm) ?_))
        rintro g hg ⟨⟩
        exact hh hg
      | succ r =>
        rw [encodeAt_object_ok hh, writes_object hh]
        constructor
        · rintro ⟨slot, access, names, hslot, haccess, hnames, hlen, htype, hput⟩
          obtain ⟨fields, parts, hfields, hw⟩ := (writes_fields_ok (ih r rfl)).1 hput
          have hl : names.length = fields.length := by rw [← names_of_mapM hfields, List.length_map]
          rw [hl] at hlen hw
          exact ⟨⟨slot.typeName, fields⟩, parts,
            view_eq_some.2 ⟨slot, hslot, seen_ok.2 ⟨access, haccess, names, hnames, fields, hfields, rfl⟩⟩,
            hlen, htype, hw⟩
        · rintro ⟨b, parts, hview, hlen, htype, hw⟩
          obtain ⟨slot, hslot, hseen⟩ := view_eq_some.1 hview
          obtain ⟨access, haccess, names, hnames, fields, hfields, rfl⟩ := seen_ok.1 hseen
          have hl : fields.length = names.length := by rw [← names_of_mapM hfields, List.length_map]
          rw [hl] at hlen hw
          exact ⟨slot, access, names, hslot, haccess, hnames, hlen, htype,
            (writes_fields_ok (ih r rfl)).2 ⟨fields, parts, hfields, hw⟩⟩
  induction room with
  | zero => exact hstep 0 fun r hr => (Nat.succ_ne_zero r hr.symm).elim
  | succ room ih => exact hstep (room + 1) fun r hr => Nat.succ.inj hr ▸ ih

-- ---------------------------------------------------------------------------
-- Whole values
-- ---------------------------------------------------------------------------

theorem bytesOf_ok {action : EncodeM Unit} :
    Codec.bytesOf action = .ok bytes ↔ ∃ e, action .start = .ok () e ∧ e.out = bytes := by
  unfold Codec.bytesOf EStateM.run
  cases action .start <;> simp

theorem append_start (bytes : List UInt8) : (append .start bytes).out = bytes.toByteArray :=
  ByteArray.empty_append

theorem encodeValue_ok {codec : Codec α} {heap : Heap α} :
    codec.encodeValue v heap = .ok bytes ↔ ∃ t order, t.Fits codec.limits codec.room ∧
      bytes = t.spell.toByteArray ∧ Unfolds (codec.registry.view heap) [] [v] [t] order := by
  simp only [Codec.encodeValue, bytesOf_ok, Codec.encode, encodeAt_ok codec heap _, writes_singleton]
  constructor
  · rintro ⟨e, ⟨t, hu, hf, hout⟩, rfl⟩
    exact ⟨t, _, hf, hout.trans (append_start _), hu⟩
  · rintro ⟨t, order, hf, rfl, hu⟩
    exact ⟨⟨t.spell.toByteArray, order.toArray⟩, ⟨t, hu, hf, (append_start _).symm⟩, rfl⟩

theorem encodeParams_ok {codec : Codec α} {heap : Heap α} :
    codec.encodeParams values heap e = .ok u e' ↔
      Within values.length codec.limits.maxCollectionLen ∧ ∃ ts,
        Writes codec heap codec.room values ts (append e (bigEndian 4 values.length)) e' := by
  simp only [Codec.encodeParams, bind_ok, checkLimit_ok, putNat_ok]
  constructor
  · rintro ⟨_, _, ⟨hlen, rfl⟩, _, _, rfl, hput⟩
    exact ⟨hlen, (writes_items_ok (encodeAt_ok codec heap _)).1 hput⟩
  · rintro ⟨hlen, hw⟩
    exact ⟨(), e, ⟨hlen, rfl⟩, (), _, rfl, (writes_items_ok (encodeAt_ok codec heap _)).2 hw⟩

theorem bytesOf_encodeParams_ok {codec : Codec α} {heap : Heap α} :
    Codec.bytesOf (codec.encodeParams values heap) = .ok bytes ↔ ∃ ts order,
      Within ts.length codec.limits.maxCollectionLen ∧ (∀ t ∈ ts, t.Fits codec.limits codec.room) ∧
      bytes = (spellParams ts).toByteArray ∧
      Unfolds (codec.registry.view heap) [] values ts order := by
  rw [bytesOf_ok]
  constructor
  · rintro ⟨e, hput, rfl⟩
    obtain ⟨hlen, ts, hu, hf, hout⟩ := encodeParams_ok.1 hput
    rw [← hu.length] at hlen hout
    rw [append_append, append_start] at hout
    exact ⟨ts, _, hlen, hf, hout, hu⟩
  · rintro ⟨ts, order, hlen, hf, rfl, hu⟩
    refine ⟨⟨(spellParams ts).toByteArray, order.toArray⟩, encodeParams_ok.2 ⟨?_, ts, hu, hf, ?_⟩, rfl⟩
    · rwa [← hu.length]
    · rw [← hu.length, append_append, append_start, spellParams]

end Wire
end GraphRpc
