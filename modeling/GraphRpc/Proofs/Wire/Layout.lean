import Mathlib
import GraphRpc.Proofs.Wire.Spelling
import GraphRpc.Proofs.Wire.Unfolding

/-!
# Layout

What stands where in the bytes of some values. Lengths, counts and object numbers are written into
fields of 32 bits; a layout keeps them as they are, of any size, so that it can be said whether a
field holds the number it was given. `Unfolds.layout`: it does in all trees whose lengths fit.
-/

namespace GraphRpc

open Binary Wire

namespace Wire

/-- A part of what is written: bytes that stand for themselves, or a number in 32 bits. -/
inductive Piece where
  | raw (bytes : List UInt8)
  | number (n : Nat)

namespace Piece

def tag (t : Tag) : Piece := raw [t.byte]

def text (s : String) : List Piece := [number s.utf8ByteSize, raw s.toUTF8.data.toList]

def spell : Piece → List UInt8
  | raw bytes => bytes
  | number n => bigEndian 4 n

/-- Reading the field gives back the number that was written into it. -/
def Exact : Piece → Prop
  | raw _ => True
  | number n => value (bigEndian 4 n) = n

/-- A field is exact just when its number fits. -/
theorem exact_number : (number n).Exact ↔ n ≤ maxWord := by
  rw [Exact, value_bigEndian, le_maxWord]
  constructor
  · intro h
    exact h ▸ Nat.mod_lt n (by decide)
  · exact Nat.mod_eq_of_lt

@[simp] theorem exact_raw : (raw bytes).Exact := trivial

@[simp] theorem exact_tag : (tag t).Exact := trivial

theorem exact_text : (∀ p ∈ text s, p.Exact) ↔ s.utf8ByteSize ≤ maxWord := by
  simp [text, exact_number]

@[simp] theorem spell_text (s : String) : (text s).flatMap spell = spellText s := by
  simp [text, spell, spellText]

end Piece

end Wire

namespace Scalar

def pieces : Scalar → List Piece
  | str s => .tag .str :: Piece.text s
  | bytes data => [.tag .bytes, .number data.size, .raw data.data.toList]
  | s => [.raw s.spell]

theorem spell_pieces (s : Scalar) : s.pieces.flatMap Piece.spell = s.spell := by
  cases s <;> simp [pieces, spell, content, tag, Piece.tag, Piece.spell]

theorem exact_pieces {s : Scalar} (h : s.Bounded widest) : ∀ p ∈ s.pieces, p.Exact := by
  cases s with
  | str s => exact List.forall_mem_cons.2 ⟨trivial, Piece.exact_text.2 h.2⟩
  | bytes data => simpa [pieces, Piece.exact_number] using h.2
  | _ => simp [pieces]

end Scalar

namespace Wire

def namedPieces (fields : List (String × Value)) (parts : List (List Piece)) : List Piece :=
  (List.zipWith (fun f ps => Piece.text f.1 ++ ps) fields parts).flatten

/-- The pieces of each of some values, when the objects in `met` have been met before and those in
`met'` are met after. The number of an object is how many objects were met before it. -/
inductive Layout (view : View) :
    (met : List Handle) → List Value → List (List Piece) → (met' : List Handle) → Prop
  | nil : Layout view met [] [] met
  | scalar : Layout view met vs pss met' → Layout view met (Scalar.value s :: vs) (s.pieces :: pss) met'
  | array : Layout view met items parts mid → Layout view mid vs pss met' →
      Layout view met (.array items :: vs)
        ((.tag .array :: .number items.length :: parts.flatten) :: pss) met'
  | map : Layout view met (flat entries) parts mid → Layout view mid vs pss met' →
      Layout view met (.map entries :: vs)
        ((.tag .map :: .number entries.length :: parts.flatten) :: pss) met'
  | ref : h ∈ met → Layout view met vs pss met' →
      Layout view met (.object h :: vs) ([.tag .objectRef, .number (met.idxOf h)] :: pss) met'
  | object {met mid met' h b parts vs pss} : h ∉ met → view h = some b →
      Layout view (met ++ [h]) (b.fields.map Prod.snd) parts mid → Layout view mid vs pss met' →
      Layout view met (.object h :: vs)
        ((.tag .object :: (Piece.text b.typeName ++
          .number met.length :: .number b.fields.length :: namedPieces b.fields parts)) :: pss) met'

/-- The pieces are those of the tree, and its lengths are all that could go wrong. -/
structure Renders (t : Tree) (ps : List Piece) : Prop where
  spell : ps.flatMap Piece.spell = t.spell
  exact_of_sized : t.Sized → ∀ p ∈ ps, p.Exact

theorem sized_iff {t : Tree} : t.Sized ↔ t.Bounded widest ∧ ∀ p ∈ t.parts, p.Sized :=
  Tree.forall_mem_nodes

theorem spell_flatten {ts : List Tree} {pss : List (List Piece)} (h : List.Forall₂ Renders ts pss) :
    pss.flatten.flatMap Piece.spell = ts.flatMap Tree.spell := by
  induction h with
  | nil => rfl
  | cons hr _ ih => rw [List.flatten_cons, List.flatMap_append, hr.spell, ih, List.flatMap_cons]

theorem exact_flatten {ts : List Tree} {pss : List (List Piece)} (h : List.Forall₂ Renders ts pss)
    (hs : ∀ t ∈ ts, t.Sized) : ∀ p ∈ pss.flatten, p.Exact := by
  induction h with
  | nil => simp
  | cons hr _ ih =>
    obtain ⟨ht, hts⟩ := List.forall_mem_cons.1 hs
    rw [List.flatten_cons]
    intro p hp
    exact (List.mem_append.1 hp).elim (hr.exact_of_sized ht p) (ih hts p)

theorem spell_namedPieces {values : List (String × Value)} {fields : List (String × Tree)}
    {parts : List (List Piece)} (hnames : fields.map Prod.fst = values.map Prod.fst)
    (h : List.Forall₂ Renders (fields.map Prod.snd) parts) :
    (namedPieces values parts).flatMap Piece.spell =
      fields.flatMap fun f => spellText f.1 ++ f.2.spell := by
  induction fields generalizing values parts with
  | nil =>
    cases h
    cases List.map_eq_nil_iff.1 hnames.symm
    rfl
  | cons f fields ih =>
    obtain ⟨v, values, rfl⟩ : ∃ v vs, values = v :: vs :=
      List.exists_cons_of_ne_nil (by rintro rfl; cases hnames)
    cases h with
    | cons hr h =>
      obtain ⟨hname, hnames⟩ := List.cons.inj hnames
      have hrest := ih hnames h
      simp only [namedPieces] at hrest ⊢
      rw [List.zipWith_cons_cons, List.flatten_cons, List.flatMap_append, List.flatMap_append,
        Piece.spell_text, hr.spell, hrest, ← hname, List.flatMap_cons]

theorem exact_namedPieces {values : List (String × Value)} {parts : List (List Piece)}
    (hnames : ∀ name ∈ values.map Prod.fst, name.utf8ByteSize ≤ maxWord)
    (hparts : ∀ p ∈ parts.flatten, p.Exact) : ∀ p ∈ namedPieces values parts, p.Exact := by
  induction values generalizing parts with
  | nil => simp [namedPieces]
  | cons v values ih =>
    cases parts with
    | nil => simp [namedPieces]
    | cons ps parts =>
      obtain ⟨hname, hnames⟩ := List.forall_mem_cons.1 hnames
      rw [List.flatten_cons, List.forall_mem_append] at hparts
      have hrest := ih hnames hparts.2
      simp only [namedPieces] at hrest ⊢
      rw [List.zipWith_cons_cons, List.flatten_cons, List.forall_mem_append, List.forall_mem_append]
      exact ⟨⟨Piece.exact_text.2 hname, hparts.1⟩, hrest⟩

variable {view : View} {met met' mid : List Handle}

theorem renders_ref (hn : met.Nodup) (hh : h ∈ met) :
    Renders (.ref (rank met h)) [.tag .objectRef, .number (met.idxOf h)] := by
  have hslot := slot_rank hn hh
  refine ⟨?_, fun _ => ?_⟩
  · rw [Tree.spell, hslot]
    rfl
  · have hfits : met.idxOf h ≤ maxWord := le_maxWord.2 (hslot ▸ (rank met h).slot_lt)
    simpa using Piece.exact_number.2 hfits

theorem renders_object {b : Blueprint} {fields : List (String × Tree)} {parts : List (List Piece)}
    (hn : met.Nodup) (hh : h ∉ met) (hnames : fields.map Prod.fst = b.fields.map Prod.fst)
    (hparts : List.Forall₂ Renders (fields.map Prod.snd) parts) :
    Renders (.object b.typeName (.ofSlot met.length) fields)
      (.tag .object :: (Piece.text b.typeName ++
        .number met.length :: .number b.fields.length :: namedPieces b.fields parts)) := by
  have hcount := length_lt_of_notMem hn hh
  have hlength : fields.length = b.fields.length := by simpa using congrArg List.length hnames
  constructor
  · rw [Tree.spell, Handle.slot_ofSlot hcount, hlength, ← spell_namedPieces hnames hparts]
    simp [Piece.tag, Piece.spell]
  · intro hs
    obtain ⟨⟨hfields, htype, hnamed⟩, hsized⟩ := sized_iff.1 hs
    rw [hlength] at hfields
    have hshort : ∀ name ∈ b.fields.map Prod.fst, name.utf8ByteSize ≤ maxWord := by
      rw [← hnames, List.forall_mem_map]
      exact fun f hf => (hnamed f hf).2
    refine List.forall_mem_cons.2 ⟨trivial, List.forall_mem_append.2 ⟨Piece.exact_text.2 htype.2, ?_⟩⟩
    refine List.forall_mem_cons.2 ⟨Piece.exact_number.2 (le_maxWord.2 hcount),
      List.forall_mem_cons.2 ⟨Piece.exact_number.2 hfields.2, ?_⟩⟩
    exact exact_namedPieces hshort (exact_flatten hparts hsized)

/-- Values that unfold to trees have a layout, whose pieces are those of the trees. -/
theorem Unfolds.layout (h : Unfolds view met vs ts met') (hn : met.Nodup) :
    ∃ pss, Layout view met vs pss met' ∧ List.Forall₂ Renders ts pss := by
  induction h with
  | nil => exact ⟨[], .nil, .nil⟩
  | @scalar met vs ts met' s _ ih =>
    obtain ⟨pss, hl, hr⟩ := ih hn
    refine ⟨_, .scalar hl, .cons ⟨?_, fun hs => ?_⟩ hr⟩
    · rw [Tree.spell, s.spell_pieces]
    · exact Scalar.exact_pieces (sized_iff.1 hs).1
  | array hitems _ ihparts ih =>
    obtain ⟨parts, hlparts, hrparts⟩ := ihparts hn
    obtain ⟨pss, hl, hr⟩ := ih (hitems.encounters.nodup hn)
    have hlength := hitems.length
    refine ⟨_, .array hlparts hl, .cons ⟨?_, fun hs => ?_⟩ hr⟩
    · rw [Tree.spell, hlength, ← spell_flatten hrparts]
      simp [Piece.tag, Piece.spell]
    · obtain ⟨hcount, hsized⟩ := sized_iff.1 hs
      have hfits : _ ≤ maxWord := hlength ▸ hcount.2
      exact List.forall_mem_cons.2 ⟨trivial, List.forall_mem_cons.2
        ⟨Piece.exact_number.2 hfits, exact_flatten hrparts hsized⟩⟩
  | @map met entries tes mid vs ts met' hentries _ ihparts ih =>
    obtain ⟨parts, hlparts, hrparts⟩ := ihparts hn
    obtain ⟨pss, hl, hr⟩ := ih (hentries.encounters.nodup hn)
    have hlength : tes.length = entries.length := by
      have hflat := hentries.length
      rw [length_flat, length_flat] at hflat
      omega
    refine ⟨_, .map hlparts hl, .cons ⟨?_, fun hs => ?_⟩ hr⟩
    · rw [Tree.spell, hlength, ← flatMap_flat, ← spell_flatten hrparts]
      simp [Piece.tag, Piece.spell]
    · obtain ⟨hcount, hsized⟩ := sized_iff.1 hs
      have hfits : entries.length ≤ maxWord := hlength ▸ hcount.2
      exact List.forall_mem_cons.2 ⟨trivial, List.forall_mem_cons.2
        ⟨Piece.exact_number.2 hfits, exact_flatten hrparts hsized⟩⟩
  | ref hmem _ ih =>
    obtain ⟨pss, hl, hr⟩ := ih hn
    exact ⟨_, .ref hmem hl, .cons (renders_ref hn hmem) hr⟩
  | @object met mid met' h b fields vs ts hnew hview hnames hfields _ ihfields ih =>
    have hn' : (met ++ [h]).Nodup := by
      rw [← List.concat_eq_append]
      exact .concat hnew hn
    obtain ⟨parts, hlparts, hrparts⟩ := ihfields hn'
    obtain ⟨pss, hl, hr⟩ := ih (hfields.encounters.nodup hn')
    exact ⟨_, .object hnew hview hlparts hl, .cons (renders_object hn hnew hnames hrparts) hr⟩

end Wire
end GraphRpc
