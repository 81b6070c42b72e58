import Mathlib
import GraphRpc.Proofs.RoundTrip
import GraphRpc.Proofs.Wire.Spelling

/-!
# Going on after a failure

One encoder writes several values, each into an output of its own, and goes on when one of them
fails. A value that fails leaves behind the numbers it has given, which the reader of the other values
never hears of. So the reader understands just those values that need none of them and no later ones.
-/

namespace GraphRpc

open Binary Wire

variable {α β γ : Type}

-- ---------------------------------------------------------------------------
-- Objects met
-- ---------------------------------------------------------------------------

/-- Objects that were met stay so, and further ones are met once. -/
structure Encoder.Extends (e e' : Encoder) : Prop where
  met : e.met.toList <+: e'.met.toList
  nodup : e.met.toList.Nodup → e'.met.toList.Nodup

namespace Encoder.Extends

variable {e e' e'' : Encoder}

theorem of_met (h : e'.met = e.met) : e.Extends e' := ⟨h ▸ List.prefix_rfl, fun hn => h ▸ hn⟩

theorem trans (h : e.Extends e') (h' : e'.Extends e'') : e.Extends e'' :=
  ⟨h.met.trans h'.met, fun hn => h'.nodup (h.nodup hn)⟩

theorem push (hh : h ∉ e.met.toList) : e.Extends { e with met := e.met.push h } := by
  constructor
  · rw [Array.toList_push]
    exact List.prefix_append _ _
  · intro hn
    rw [Array.toList_push, ← List.concat_eq_append]
    exact .concat hh hn

end Encoder.Extends

namespace EncodeM

/-- The encoder that an action leaves behind, failed or not. -/
def left (action : EncodeM β) (e : Encoder) : Encoder :=
  match action e with
  | .ok _ e' | .error _ e' => e'

theorem left_of_ok {action : EncodeM β} (h : action e = .ok b e') : left action e = e' := by
  rw [left, h]

theorem left_of_error {action : EncodeM β} (h : action e = .error fault e') :
    left action e = e' := by
  rw [left, h]

/-- From every encoder, whatever comes of it, the action leaves one with the objects met so far. -/
def Keeps (action : EncodeM β) : Prop := ∀ e : Encoder, e.Extends (left action e)

theorem extends_bind {e : Encoder} {x : EncodeM β} {f : β → EncodeM γ} (hx : e.Extends (left x e))
    (hf : ∀ b e', x e = .ok b e' → e'.Extends (left (f b) e')) : e.Extends (left (x >>= f) e) := by
  cases hrun : x e with
  | ok b m =>
    rw [left_of_ok hrun] at hx
    rw [left, run_bind_of_ok hrun]
    exact hx.trans (hf b m hrun)
  | error fault m =>
    rw [left_of_error hrun] at hx
    rw [left_of_error (run_bind_of_error hrun)]
    exact hx

namespace Keeps

theorem bind {x : EncodeM β} {f : β → EncodeM γ} (hx : Keeps x) (hf : ∀ b, Keeps (f b)) :
    Keeps (x >>= f) := fun e => extends_bind (hx e) fun b e' _ => hf b e'

theorem pure (b : β) : Keeps (pure b : EncodeM β) := fun _ => .of_met rfl

theorem throw (fault : CodecFault) : Keeps (throw fault : EncodeM β) := fun _ => .of_met rfl

theorem lift (x : Except CodecFault β) : Keeps (liftM x : EncodeM β) := by
  cases x with
  | ok b => exact .pure b
  | error fault => exact .throw fault

theorem putBytes (data : ByteArray) : Keeps (putBytes data) := fun _ => .of_met rfl

theorem putByte (b : UInt8) : Keeps (putByte b) := fun _ => .of_met rfl

theorem putNat (width n : Nat) : Keeps (putNat width n) := putBytes _

theorem checkLimit (what : Measure) (len bound : Nat) : Keeps (checkLimit what len bound) := by
  unfold EncodeM.checkLimit
  split
  · exact .throw _
  · exact .pure _

theorem putText (what : Measure) (s : String) (bound : Nat) : Keeps (putText what s bound) :=
  (checkLimit _ _ _).bind fun _ => (putNat _ _).bind fun _ => putBytes _

theorem forM {f : β → EncodeM PUnit} (h : ∀ b, Keeps (f b)) : ∀ bs : List β, Keeps (bs.forM f)
  | [] => .pure _
  | b :: bs => (h b).bind fun _ => forM h bs

end Keeps
end EncodeM

open EncodeM

namespace Codec

/-- Writing a value keeps what was met, also where it fails. -/
theorem encodeAt_keeps (codec : Codec α) (heap : Heap α) (room : Nat) (v : Value) :
    Keeps (codec.encodeAt heap room v) := by
  induction room using Nat.strong_induction_on generalizing v with
  | _ room ih =>
    have htagged {width n : Nat} {tag : Tag} : Keeps (do putTag tag; putNat width n) :=
      (Keeps.putByte _).bind fun _ => .putNat _ _
    rw [encodeAt.eq_def]
    cases v with
    | null => exact .putByte _
    | bool b => exact (Keeps.putByte _).bind fun _ => .putByte _
    | i8 | i16 | i32 | i64 | f32 | f64 => exact htagged
    | str s => exact (Keeps.putByte _).bind fun _ => .putText _ _ _
    | bytes data =>
      exact (Keeps.checkLimit _ _ _).bind fun _ => (Keeps.putByte _).bind fun _ =>
        (Keeps.putNat _ _).bind fun _ => .putBytes _
    | array items =>
      cases room with
      | zero => exact .throw _
      | succ r =>
        exact (Keeps.checkLimit _ _ _).bind fun _ => (Keeps.putByte _).bind fun _ =>
          (Keeps.putNat _ _).bind fun _ => .forM (ih r (by omega)) items
    | map entries =>
      cases room with
      | zero => exact .throw _
      | succ r =>
        refine (Keeps.checkLimit _ _ _).bind fun _ => (Keeps.putByte _).bind fun _ =>
          (Keeps.putNat _ _).bind fun _ => .forM ?_ entries
        rintro ⟨k, v⟩
        exact (ih r (by omega) k).bind fun _ => ih r (by omega) v
    | object h =>
      refine fun e => extends_bind (.of_met rfl) ?_
      rintro _ _ ⟨⟩
      cases hmet : e.met.idxOf? h with
      | some number => exact htagged e
      | none =>
        cases room with
        | zero => exact .of_met rfl
        | succ r =>
          dsimp only
          cases heap.slot? h with
          | none => exact .of_met rfl
          | some slot =>
            -- The number is given before anything is written of the object, and stays given.
            have hnew : h ∉ e.met.toList := by
              intro hmem
              rw [idxOf?_met, if_pos hmem] at hmet
              cases hmet
            refine extends_bind (.push hnew) fun number e' _ => ?_
            refine ((Keeps.lift _).bind fun access => (Keeps.lift _).bind fun fields =>
              (Keeps.checkLimit _ _ _).bind fun _ => (Keeps.putByte _).bind fun _ =>
              (Keeps.putText _ _ _).bind fun _ => (Keeps.putNat _ _).bind fun _ =>
              (Keeps.putNat _ _).bind fun _ => .forM (fun field => ?_) fields) e'
            exact (Keeps.putText _ _ _).bind fun _ => (Keeps.lift _).bind fun v => ih r (by omega) v

end Codec

-- ---------------------------------------------------------------------------
-- Numbers that the reader knows
-- ---------------------------------------------------------------------------

namespace Wire

variable {view : View} {known met met' : List Handle} {vs : List Value} {ts : List Tree}

/-- Values that need known objects only are written as if no others had been met. -/
theorem Unfolds.of_known (h : Unfolds view met vs ts met') (hknown : known <+: met)
    (hvs : vs.flatMap Value.handles ⊆ known) : Unfolds view known vs ts known := by
  induction h with
  | nil => exact .nil
  | scalar _ ih => exact .scalar (ih hknown (by simpa using hvs))
  | array hparts _ ihparts ih =>
    rw [List.flatMap_cons, Value.handles_array, List.append_subset] at hvs
    exact .array (ihparts hknown hvs.1) (ih (hknown.trans hparts.encounters.met_prefix) hvs.2)
  | map hparts _ ihparts ih =>
    rw [List.flatMap_cons, Value.handles_map, List.append_subset] at hvs
    exact .map (ihparts hknown hvs.1) (ih (hknown.trans hparts.encounters.met_prefix) hvs.2)
  | ref _ _ ih =>
    rw [List.flatMap_cons, Value.handles_object, List.singleton_append, List.cons_subset] at hvs
    rw [← rank_of_prefix hknown hvs.1]
    exact .ref hvs.1 (ih hknown hvs.2)
  | object hnew =>
    rw [List.flatMap_cons, Value.handles_object, List.singleton_append, List.cons_subset] at hvs
    exact (hnew (hknown.subset hvs.1)).elim

/-- No object stands in full in what is written of such values. -/
theorem Unfolds.objects_of_known (h : Unfolds view met vs ts met') (hknown : known <+: met)
    (hvs : vs.flatMap Value.handles ⊆ known) : (Wire.objects ts).length = 0 := by
  have hlength := (h.of_known hknown hvs).length_objects
  omega

/-- A reader who knows fewer objects than were met takes only values that need known objects. -/
theorem Unfolds.known_of_numbered (h : Unfolds view met vs ts met') (hknown : known <+: met)
    (hless : known.length < met.length) (hn : met.Nodup) (hts : NumberedFrom known.length ts) :
    vs.flatMap Value.handles ⊆ known := by
  induction h with
  | nil => exact List.nil_subset _
  | scalar _ ih =>
    rw [numberedFrom_cons, objects_parts rfl] at hts
    simpa using ih hknown hless hn hts.2
  | array hparts _ ihparts ih =>
    rw [numberedFrom_cons, numberedFrom_parts (by simp) rfl, objects_parts rfl, Tree.parts] at hts
    have hitems := ihparts hknown hless hn hts.1
    have hwalk := hparts.encounters
    rw [hparts.objects_of_known hknown hitems] at hts
    rw [List.flatMap_cons, Value.handles_array]
    exact List.append_subset.2 ⟨hitems, ih (hknown.trans hwalk.met_prefix)
      (hless.trans_le hwalk.met_prefix.length_le) (hwalk.nodup hn) hts.2⟩
  | map hparts _ ihparts ih =>
    rw [numberedFrom_cons, numberedFrom_parts (by simp) rfl, objects_parts rfl, Tree.parts] at hts
    have hentries := ihparts hknown hless hn hts.1
    have hwalk := hparts.encounters
    rw [hparts.objects_of_known hknown hentries] at hts
    rw [List.flatMap_cons, Value.handles_map]
    exact List.append_subset.2 ⟨hentries, ih (hknown.trans hwalk.met_prefix)
      (hless.trans_le hwalk.met_prefix.length_le) (hwalk.nodup hn) hts.2⟩
  | ref hmem _ ih =>
    rw [numberedFrom_cons, numberedFrom_ref, slot_rank hn hmem, objects_parts rfl] at hts
    rw [List.flatMap_cons, Value.handles_object, List.singleton_append, List.cons_subset]
    refine ⟨?_, ih hknown hless hn hts.2⟩
    obtain ⟨rest, rfl⟩ := hknown
    by_contra hnot
    rw [List.idxOf_append_of_notMem hnot] at hts
    omega
  | object hnew =>
    rw [numberedFrom_cons, numberedFrom_object, Handle.slot_ofSlot (length_lt_of_notMem hn hnew)] at hts
    exact (hless.ne' hts.1.1).elim

end Wire

-- ---------------------------------------------------------------------------
-- Several values
-- ---------------------------------------------------------------------------

namespace Codec

/-- The values that one encoder writes, each into an output of its own and with the bytes that are in
it then. The encoder goes on after a value that fails, which is left out. -/
def written (codec : Codec α) (heap : Heap α) : List Value → Encoder → List (Value × ByteArray)
  | [], _ => []
  | v :: vs, e =>
    match codec.encode heap v e.fresh with
    | .ok _ e' => (v, e'.out) :: codec.written heap vs e'
    | .error _ e' => codec.written heap vs e'

/-- The objects whose numbers the written values tell: those met before the first value that met some
and failed, or all if there is none. -/
def announced (codec : Codec α) (heap : Heap α) : List Value → Encoder → List Handle
  | [], e => e.met.toList
  | v :: vs, e =>
    match codec.encode heap v e.fresh with
    | .ok _ e' => codec.announced heap vs e'
    | .error _ e' => if e'.met = e.met then codec.announced heap vs e' else e.met.toList

/-- What was written are the bytes of these trees. -/
def Spelled (codec : Codec α) (sent : List (Value × ByteArray)) (ts : List Tree) : Prop :=
  List.Forall₂ (fun s t => t.Fits codec.limits codec.room ∧ s.2.data.toList = t.spell) sent ts

section
variable {codec : Codec α} {heap : Heap α} {vs : List Value} {e e' : Encoder}

theorem unfolds_of_encode {u : PUnit} (h : codec.encode heap v e.fresh = .ok u e') : ∃ t,
    Unfolds (codec.registry.view heap) e.met.toList [v] [t] e'.met.toList ∧
      t.Fits codec.limits codec.room ∧ e'.out.data.toList = t.spell := by
  obtain ⟨t, hw⟩ := (encodeAt_ok codec heap _).1 h
  obtain ⟨hu, hf, hout⟩ := writes_singleton.1 hw
  refine ⟨t, hu, hf, ?_⟩
  rw [hout, append, Encoder.fresh, ByteArray.empty_append, List.data_toByteArray]

theorem extends_of_failed (h : codec.encode heap v e.fresh = .error fault e') : e.Extends e' := by
  have hext := codec.encodeAt_keeps heap codec.room v e.fresh
  rw [← encode, left_of_error h] at hext
  exact ⟨hext.met, hext.nodup⟩

/-- Once the encoder has met more than the reader knows, written values tell no further numbers: the
reader takes them all if they need known objects only, and else stops. -/
theorem written_after_loss (codec : Codec α) (heap : Heap α) (vs : List Value)
    (hknown : known <+: e.met.toList) (hless : known.length < e.met.toList.length)
    (hn : e.met.toList.Nodup) : ∃ ts, Spelled codec (codec.written heap vs e) ts ∧
      ((∀ s ∈ codec.written heap vs e, s.1.handles ⊆ known) → Unfolds (codec.registry.view heap) known
        ((codec.written heap vs e).map Prod.fst) ts known) ∧
      (NumberedFrom known.length ts → ∀ s ∈ codec.written heap vs e, s.1.handles ⊆ known) := by
  induction vs generalizing e with
  | nil => exact ⟨[], .nil, fun _ => .nil, fun _ => nofun⟩
  | cons v vs ih =>
    rw [written]
    cases hrun : codec.encode heap v e.fresh with
    | ok _ e' =>
      obtain ⟨t, hu, hf, hbytes⟩ := unfolds_of_encode hrun
      have hwalk := hu.encounters
      obtain ⟨ts, hspelled, hsound, hloss⟩ := ih (hknown.trans hwalk.met_prefix)
        (hless.trans_le hwalk.met_prefix.length_le) (hwalk.nodup hn)
      refine ⟨t :: ts, .cons ⟨hf, hbytes⟩ hspelled, fun hall => ?_, fun hnumbered => ?_⟩
      · obtain ⟨hv, hall⟩ := List.forall_mem_cons.1 hall
        exact (hu.of_known hknown (by simpa using hv)).cons (hsound hall)
      · rw [numberedFrom_cons] at hnumbered
        have hv := hu.known_of_numbered hknown hless hn hnumbered.1
        rw [hu.objects_of_known hknown hv] at hnumbered
        exact List.forall_mem_cons.2 ⟨by simpa using hv, hloss hnumbered.2⟩
    | error fault e' =>
      have hext := extends_of_failed hrun
      exact ih (hknown.trans hext.met) (hless.trans_le hext.met.length_le) (hext.nodup hn)

theorem met_subset_announced (codec : Codec α) (heap : Heap α) (vs : List Value) (e : Encoder) :
    e.met.toList ⊆ codec.announced heap vs e := by
  induction vs generalizing e with
  | nil => exact List.Subset.refl _
  | cons v vs ih =>
    rw [announced]
    cases hrun : codec.encode heap v e.fresh with
    | ok _ e' =>
      obtain ⟨t, hu, -⟩ := unfolds_of_encode hrun
      exact List.Subset.trans hu.encounters.met_prefix.subset (ih e')
    | error fault e' =>
      dsimp only
      split
      · exact List.Subset.trans (extends_of_failed hrun).met.subset (ih e')
      · exact List.Subset.refl _

theorem announced_closed (codec : Codec α) (heap : Heap α) (vs : List Value)
    (hmet : ∀ g ∈ e.met.toList, ∃ b, codec.registry.view heap g = some b ∧ b.handles ⊆ e.met.toList) :
    ∀ g ∈ codec.announced heap vs e, ∃ b, codec.registry.view heap g = some b ∧
      b.handles ⊆ codec.announced heap vs e := by
  induction vs generalizing e with
  | nil => exact hmet
  | cons v vs ih =>
    rw [announced]
    cases hrun : codec.encode heap v e.fresh with
    | ok _ e' =>
      obtain ⟨t, hu, -⟩ := unfolds_of_encode hrun
      have hwalk := hu.encounters
      refine ih fun g hg => (hwalk.closed hg).elim (fun hold => ?_) id
      obtain ⟨b, hview, hfields⟩ := hmet g hold
      exact ⟨b, hview, List.Subset.trans hfields hwalk.met_prefix.subset⟩
    | error fault e' =>
      dsimp only
      split
      · next hsame => exact ih (by rwa [hsame])
      · exact hmet

/-- A value that needs announced objects only leads to no others, through however many fields. -/
theorem handles_subset_announced (codec : Codec α) (heap : Heap α) (vs : List Value) (v : Value) :
    v.handles ⊆ codec.announced heap vs .start ↔
      ∀ g, Reaches (codec.registry.view heap) v.handles g → g ∈ codec.announced heap vs .start := by
  constructor
  · intro hv g hg
    induction hg with
    | root hroot => exact hv hroot
    | field _ hview hfield ih =>
      obtain ⟨b, hview', hfields⟩ := codec.announced_closed heap vs (e := .start) nofun _ ih
      cases hview.symm.trans hview'
      exact hfields hfield
  · exact fun h g hg => h g (.root hg)

/-- The written values unfold together if they need announced objects only. If not, their trees are
out of sequence. -/
theorem written_trees (codec : Codec α) (heap : Heap α) (vs : List Value) (hn : e.met.toList.Nodup) :
    ∃ ts, Spelled codec (codec.written heap vs e) ts ∧
      ((∀ s ∈ codec.written heap vs e, s.1.handles ⊆ codec.announced heap vs e) → ∃ met',
        Unfolds (codec.registry.view heap) e.met.toList ((codec.written heap vs e).map Prod.fst) ts met') ∧
      (NumberedFrom e.met.toList.length ts →
        ∀ s ∈ codec.written heap vs e, s.1.handles ⊆ codec.announced heap vs e) := by
  induction vs generalizing e with
  | nil => exact ⟨[], .nil, fun _ => ⟨_, .nil⟩, fun _ => nofun⟩
  | cons v vs ih =>
    rw [written, announced]
    cases hrun : codec.encode heap v e.fresh with
    | ok _ e' =>
      obtain ⟨t, hu, hf, hbytes⟩ := unfolds_of_encode hrun
      have hwalk := hu.encounters
      obtain ⟨ts, hspelled, hsound, hloss⟩ := ih (hwalk.nodup hn)
      refine ⟨t :: ts, .cons ⟨hf, hbytes⟩ hspelled, fun hall => ?_, fun hnumbered => ?_⟩
      · obtain ⟨met', hus⟩ := hsound (List.forall_mem_cons.1 hall).2
        exact ⟨met', hu.cons hus⟩
      · rw [numberedFrom_cons, ← hu.length_objects] at hnumbered
        have hv := List.Subset.trans hwalk.next_subset (met_subset_announced codec heap vs e')
        exact List.forall_mem_cons.2 ⟨by simpa using hv, hloss hnumbered.2⟩
    | error fault e' =>
      dsimp only
      have hext := extends_of_failed hrun
      -- A failure that met nothing new is as good as none.
      split
      · next hsame =>
        rw [← hsame] at hn ⊢
        exact ih hn
      · next hmore =>
        have hless : e.met.toList.length < e'.met.toList.length := by
          refine lt_of_le_of_ne hext.met.length_le fun heq => hmore ?_
          exact (Array.toList_inj.1 (hext.met.eq_of_length heq)).symm
        obtain ⟨ts, hspelled, hsound, hloss⟩ :=
          written_after_loss codec heap vs hext.met hless (hext.nodup hn)
        exact ⟨ts, hspelled, fun hall => ⟨_, hsound hall⟩, hloss⟩

theorem Spelled.flatMap {sent : List (Value × ByteArray)} (h : Spelled codec sent ts) :
    sent.flatMap (·.2.data.toList) = ts.flatMap Tree.spell := by
  induction h with
  | nil => rfl
  | cons hs _ ih => rw [List.flatMap_cons, List.flatMap_cons, hs.2, ih]

theorem Spelled.fits {sent : List (Value × ByteArray)} (h : Spelled codec sent ts) :
    ∀ t ∈ ts, t.Fits codec.limits codec.room := by
  induction h with
  | nil => nofun
  | cons hs _ ih => exact List.forall_mem_cons.2 ⟨hs.1, ih⟩

/-- What a reader makes of all that was written. -/
def readBack (codec : Codec α) (sent : List (Value × ByteArray)) :
    Except CodecFault (List Value × Heap α) :=
  decodeAll (DecodeM.repeated codec.decode sent.length []) (sent.flatMap (·.2.data.toList))

theorem readBack_ok {sent : List (Value × ByteArray)} {heap' : Heap α} (h : Spelled codec sent ts) :
    codec.readBack sent = .ok (vs', heap') ↔
      Grows codec.registry ts .empty heap' ∧ ts.map Tree.value = vs' := by
  rw [readBack, decodeAll_ok, decode, items_ok (decodeAt_ok codec _), h.flatMap, h.length_eq]
  constructor
  · rintro ⟨us, hlen, ⟨hfits, hbytes, hgrows⟩, hvalues⟩
    have htrees := flatMap_append_inj (a := []) (b := [])
      (fun t ht u hu a b => t.spell_append_inj u (h.fits t ht).sized (hfits u hu).sized a b)
      hlen.symm (by simpa using hbytes)
    rw [htrees.1]
    exact ⟨hgrows, hvalues⟩
  · rintro ⟨hgrows, hvalues⟩
    exact ⟨ts, rfl, ⟨h.fits, (List.append_nil _).symm, hgrows⟩, hvalues⟩

end

/-- The values that came through are read back with the objects that they share, if they need none that
a failed value was the first to meet, nor any met after such a value. Otherwise the reader stops. -/
theorem readBack_written (limits : Limits) (heap : Heap α) (vs : List Value) :
    ((∀ s ∈ written ⟨limits, .generic⟩ heap vs .start,
        s.1.handles ⊆ announced ⟨limits, .generic⟩ heap vs .start) →
      ∃ vs' heap' number,
        readBack ⟨limits, .generic⟩ (written ⟨limits, .generic⟩ heap vs .start) = .ok (vs', heap') ∧
        Renumbering heap heap' ((written ⟨limits, .generic⟩ heap vs .start).map Prod.fst) vs' number) ∧
    ((∃ s ∈ written ⟨limits, .generic⟩ heap vs .start,
        ¬ s.1.handles ⊆ announced ⟨limits, .generic⟩ heap vs .start) →
      ∃ fault,
        readBack (α := α) ⟨limits, .generic⟩ (written ⟨limits, .generic⟩ heap vs .start) =
          .error fault) := by
  obtain ⟨ts, hspelled, hsound, hloss⟩ :=
    written_trees ⟨limits, .generic⟩ heap vs (e := .start) List.nodup_nil
  constructor
  · intro hall
    obtain ⟨order, hu⟩ := hsound hall
    rw [generic_view] at hu
    refine ⟨_, _, order.idxOf, (readBack_ok hspelled).2 ⟨?_, rfl⟩, renumbering_of_unfolds hu⟩
    exact grows_generic.2 ⟨hu.numbered List.nodup_nil, rfl⟩
  · rintro ⟨s, hs, hlost⟩
    cases hread : readBack ⟨limits, .generic⟩ (written ⟨limits, .generic⟩ heap vs .start) with
    | error fault => exact ⟨fault, rfl⟩
    | ok result =>
      have hgrows := ((readBack_ok hspelled).1 hread).1
      exact (hlost (hloss hgrows.numbered s hs)).elim

/-- A value that fails at its second part, and its first part again. -/
def stumbling : List Value := [.array [.object (.ofSlot 0), .object (.ofSlot 9)], .object (.ofSlot 0)]

theorem readBack_written_knot : ∃ vs' heap' number,
    readBack ⟨{}, .generic⟩ (written ⟨{}, .generic⟩ knot (.object (.ofSlot 0) :: stumbling) .start) =
      .ok (vs', heap') ∧
    Renumbering knot heap' [.object (.ofSlot 0), .object (.ofSlot 0)] vs' number := by
  have hsent : written ⟨{}, .generic⟩ knot (.object (.ofSlot 0) :: stumbling) .start =
    [(.object (.ofSlot 0), ⟨#[0x0D, 0, 0, 0, 1, 84, 0, 0, 0, 0, 0, 0, 0, 1, 0, 0, 0, 2, 109, 101, 0x0C,
      0, 0, 0, 0]⟩), (.object (.ofSlot 0), ⟨#[0x0C, 0, 0, 0, 0]⟩)] := by
    cbv
  have hknown : announced ⟨{}, .generic⟩ knot (.object (.ofSlot 0) :: stumbling) .start =
      [.ofSlot 0] := by
    cbv
  have hread := (readBack_written {} knot (.object (.ofSlot 0) :: stumbling)).1
  rw [hsent, hknown] at hread
  rw [hsent]
  exact hread (by simp)

theorem readBack_written_stumbling :
    (written ⟨{}, .generic⟩ knot stumbling .start).map Prod.fst = [.object (.ofSlot 0)] ∧
    readBack (α := Empty) ⟨{}, .generic⟩ (written ⟨{}, .generic⟩ knot stumbling .start) =
      .error (.unresolvedReference 0) := by
  constructor <;> cbv

end Codec
end GraphRpc
