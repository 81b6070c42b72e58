import Mathlib
import GraphRpc.Proofs.Wire.Tree

/-!
# Bytes are read in one way

The tag of a tree says which kind it is and every part of variable size says how long it is, so bytes
that start with a tree start with no other tree. That takes lengths that 32 bits can carry.
-/

namespace GraphRpc

open Binary Wire

namespace Wire

/-- The widest limits that 32-bit lengths allow. -/
def widest : Limits where
  maxStringLen := maxWord
  maxBytesLen := maxWord
  maxCollectionLen := maxWord
  maxFields := maxWord

theorem Within.widen (h : Within len bound) : Within len maxWord := ⟨h.2, h.2⟩

-- ---------------------------------------------------------------------------
-- Parts that say how long they are
-- ---------------------------------------------------------------------------

section
variable {a b : List UInt8}

theorem bigEndian_append_inj (hm : m < 256 ^ width) (hn : n < 256 ^ width)
    (h : bigEndian width m ++ a = bigEndian width n ++ b) : m = n ∧ a = b := by
  obtain ⟨hd, hr⟩ := List.append_inj h (by rw [length_bigEndian, length_bigEndian])
  exact ⟨bigEndian_inj hm hn hd, hr⟩

theorem length_append_inj (hm : Within m bound) (hn : Within n bound)
    (h : bigEndian 4 m ++ a = bigEndian 4 n ++ b) : m = n ∧ a = b :=
  bigEndian_append_inj (le_maxWord.1 hm.2) (le_maxWord.1 hn.2) h

theorem spellText_append_inj (hs : Within s.utf8ByteSize bound) (ht : Within t.utf8ByteSize bound)
    (h : spellText s ++ a = spellText t ++ b) : s = t ∧ a = b := by
  rw [spellText, spellText, List.append_assoc, List.append_assoc] at h
  obtain ⟨hlen, h⟩ := length_append_inj hs ht h
  obtain ⟨hd, hr⟩ := List.append_inj h (by rw [length_toUTF8, length_toUTF8, hlen])
  have hb : s.toByteArray = t.toByteArray := ByteArray.ext (Array.toList_inj.1 hd)
  exact ⟨String.toByteArray_inj.1 hb, hr⟩

theorem flatMap_append_inj {β : Type} {f : β → List UInt8} {l m : List β}
    (hinj : ∀ x ∈ l, ∀ y ∈ m, ∀ a b, f x ++ a = f y ++ b → x = y ∧ a = b)
    (hlen : l.length = m.length) (h : l.flatMap f ++ a = m.flatMap f ++ b) : l = m ∧ a = b := by
  induction l generalizing m with
  | nil =>
    obtain rfl := List.length_eq_zero_iff.1 hlen.symm
    exact ⟨rfl, h⟩
  | cons x l ih =>
    cases m with
    | nil => cases hlen
    | cons y m =>
      rw [List.flatMap_cons, List.flatMap_cons, List.append_assoc, List.append_assoc] at h
      obtain ⟨rfl, hrest⟩ := hinj x (by simp) y (by simp) _ _ h
      obtain ⟨rfl, hr⟩ := ih (fun x hx y hy => hinj x (by simp [hx]) y (by simp [hy]))
        (Nat.succ.inj hlen) hrest
      exact ⟨rfl, hr⟩

end

end Wire

-- ---------------------------------------------------------------------------
-- Trees
-- ---------------------------------------------------------------------------

theorem Tag.byte_inj {t u : Tag} (h : t.byte = u.byte) : t = u := by
  have hs := congrArg Tag.ofByte? h
  rw [Tag.ofByte?_byte, Tag.ofByte?_byte] at hs
  exact Option.some.inj hs

theorem Scalar.bounded_widest {s : Scalar} (h : s.Bounded limits) : s.Bounded widest := by
  cases s with
  | str s => exact Within.widen h
  | bytes data => exact Within.widen h
  | _ => trivial

theorem Scalar.content_append_inj {s s' : Scalar} (hs : s.Bounded widest) (hs' : s'.Bounded widest)
    (ht : s.tag = s'.tag) (h : s.content ++ a = s'.content ++ b) : s = s' ∧ a = b := by
  cases s <;> cases s' <;> cases ht
  case null => exact ⟨rfl, h⟩
  case bool x y =>
    obtain ⟨hxy, hr⟩ := List.cons.inj h
    cases x <;> cases y <;> first | exact ⟨rfl, hr⟩ | cases hxy
  case i8 m n =>
    obtain ⟨hmn, hr⟩ := bigEndian_append_inj m.toUInt8.toNat_lt n.toUInt8.toNat_lt h
    exact ⟨congrArg (fun w => i8 ⟨w⟩) (UInt8.toNat_inj.1 hmn), hr⟩
  case i16 m n =>
    obtain ⟨hmn, hr⟩ := bigEndian_append_inj m.toUInt16.toNat_lt n.toUInt16.toNat_lt h
    exact ⟨congrArg (fun w => i16 ⟨w⟩) (UInt16.toNat_inj.1 hmn), hr⟩
  case i32 m n =>
    obtain ⟨hmn, hr⟩ := bigEndian_append_inj m.toUInt32.toNat_lt n.toUInt32.toNat_lt h
    exact ⟨congrArg (fun w => i32 ⟨w⟩) (UInt32.toNat_inj.1 hmn), hr⟩
  case i64 m n =>
    obtain ⟨hmn, hr⟩ := bigEndian_append_inj m.toUInt64.toNat_lt n.toUInt64.toNat_lt h
    exact ⟨congrArg (fun w => i64 ⟨w⟩) (UInt64.toNat_inj.1 hmn), hr⟩
  case f32 x y =>
    obtain ⟨hxy, hr⟩ := bigEndian_append_inj x.bits.toNat_lt y.bits.toNat_lt h
    exact ⟨congrArg (fun w => f32 ⟨w⟩) (UInt32.toNat_inj.1 hxy), hr⟩
  case f64 x y =>
    obtain ⟨hxy, hr⟩ := bigEndian_append_inj x.bits.toNat_lt y.bits.toNat_lt h
    exact ⟨congrArg (fun w => f64 ⟨w⟩) (UInt64.toNat_inj.1 hxy), hr⟩
  case str s t =>
    obtain ⟨rfl, hr⟩ := spellText_append_inj hs hs' h
    exact ⟨rfl, hr⟩
  case bytes x y =>
    rw [content, content, List.append_assoc, List.append_assoc] at h
    obtain ⟨hlen, h⟩ := length_append_inj hs hs' h
    obtain ⟨hd, hr⟩ := List.append_inj h (by rw [Array.length_toList, Array.length_toList]; exact hlen)
    exact ⟨congrArg bytes (ByteArray.ext (Array.toList_inj.1 hd)), hr⟩

namespace Wire
namespace Tree

def tag : Tree → Tag
  | scalar s => s.tag
  | array _ => .array
  | map _ => .map
  | ref _ => .objectRef
  | object .. => .object

theorem spell_eq_tag (t : Tree) : ∃ rest, t.spell = t.tag.byte :: rest := by
  cases t <;> exact ⟨_, by rw [spell]; rfl⟩

theorem tag_eq_of_spell {t u : Tree} (h : t.spell ++ a = u.spell ++ b) : t.tag = u.tag := by
  obtain ⟨rest, ht⟩ := t.spell_eq_tag
  obtain ⟨rest', hu⟩ := u.spell_eq_tag
  rw [ht, hu] at h
  exact Tag.byte_inj (List.cons.inj h).1

/-- All lengths in the tree fit 32 bits. -/
def Sized (t : Tree) : Prop := ∀ n ∈ t.nodes, n.Bounded widest

theorem Bounded.sized {limits : Limits} {t : Tree} (h : t.Bounded limits) : t.Bounded widest := by
  cases t with
  | scalar s => exact Scalar.bounded_widest h
  | array items => exact Within.widen h
  | map entries => exact Within.widen h
  | ref h => trivial
  | object typeName number fields =>
    obtain ⟨hlen, htype, hnames⟩ := h
    exact ⟨hlen.widen, htype.widen, fun f hf => (hnames f hf).widen⟩

theorem Fits.sized {limits : Limits} {t : Tree} (h : t.Fits limits room) : t.Sized :=
  fun n hn => (h.bounded n hn).sized

/-- Bytes that start with a tree start with no other. -/
theorem spell_append_inj (t u : Tree) (ht : t.Sized) (hu : u.Sized) (a b : List UInt8)
    (h : t.spell ++ a = u.spell ++ b) : t = u ∧ a = b := by
  induction t using byParts generalizing u a b with
  | step t ih =>
    have htag := tag_eq_of_spell h
    obtain ⟨hbt, hpt⟩ := forall_mem_nodes.1 ht
    obtain ⟨hbu, hpu⟩ := forall_mem_nodes.1 hu
    have hparts (p) (hp : p ∈ t.parts) (q) (hq : q ∈ u.parts) :=
      ih p hp q (hpt p hp) (hpu q hq)
    -- The tag says which kind both are, and every length is read before what it measures.
    cases t with
    | scalar s =>
      cases u with
      | scalar s' =>
        rw [spell, spell] at h
        obtain ⟨rfl, hr⟩ := Scalar.content_append_inj hbt hbu htag (List.cons.inj h).2
        exact ⟨rfl, hr⟩
      | _ => cases s <;> cases htag
    | array items =>
      cases u with
      | array items' =>
        rw [spell, spell, List.cons_append, List.cons_append, List.append_assoc,
          List.append_assoc] at h
        obtain ⟨hlen, h⟩ := length_append_inj hbt hbu (List.cons.inj h).2
        obtain ⟨rfl, hr⟩ := flatMap_append_inj hparts hlen h
        exact ⟨rfl, hr⟩
      | scalar s => cases s <;> cases htag
      | _ => cases htag
    | map entries =>
      cases u with
      | map entries' =>
        rw [spell, spell, List.cons_append, List.cons_append, List.append_assoc,
          List.append_assoc, ← flatMap_flat, ← flatMap_flat] at h
        obtain ⟨hlen, h⟩ := length_append_inj hbt hbu (List.cons.inj h).2
        have hlen' : (flat entries).length = (flat entries').length := by
          rw [length_flat, length_flat, hlen]
        obtain ⟨hflat, hr⟩ := flatMap_append_inj hparts hlen' h
        exact ⟨congrArg map (flat_inj.1 hflat), hr⟩
      | scalar s => cases s <;> cases htag
      | _ => cases htag
    | ref number =>
      cases u with
      | ref number' =>
        rw [spell, spell] at h
        obtain ⟨hnumber, hr⟩ :=
          bigEndian_append_inj number.slot_lt number'.slot_lt (List.cons.inj h).2
        exact ⟨congrArg ref (Handle.slot_inj.1 hnumber), hr⟩
      | scalar s => cases s <;> cases htag
      | _ => cases htag
    | object typeName number fields =>
      cases u with
      | object typeName' number' fields' =>
        obtain ⟨hlent, htypet, hnamest⟩ := hbt
        obtain ⟨hlenu, htypeu, hnamesu⟩ := hbu
        rw [spell, spell] at h
        simp only [List.cons_append, List.append_assoc] at h
        obtain ⟨rfl, h₁⟩ := spellText_append_inj htypet htypeu (List.cons.inj h).2
        obtain ⟨hnumber, h₂⟩ := bigEndian_append_inj number.slot_lt number'.slot_lt h₁
        obtain ⟨hlen, h₃⟩ := length_append_inj hlent hlenu h₂
        have hfields : ∀ f ∈ fields, ∀ g ∈ fields', ∀ a b,
            (spellText f.1 ++ f.2.spell) ++ a = (spellText g.1 ++ g.2.spell) ++ b → f = g ∧ a = b := by
          intro f hf g hg a b h
          rw [List.append_assoc, List.append_assoc] at h
          obtain ⟨hname, h⟩ := spellText_append_inj (hnamest f hf) (hnamesu g hg) h
          obtain ⟨hv, hr⟩ := hparts f.2 (List.mem_map_of_mem hf) g.2 (List.mem_map_of_mem hg) a b h
          exact ⟨Prod.ext hname hv, hr⟩
        obtain ⟨rfl, hr⟩ := flatMap_append_inj hfields hlen h₃
        exact ⟨congrArg (object typeName · fields) (Handle.slot_inj.1 hnumber), hr⟩
      | scalar s => cases s <;> cases htag
      | _ => cases htag

end Tree

/-- The bytes are those of a parameter list of these trees. -/
structure Spells (ts : List Tree) (input : List UInt8) : Prop where
  length : Within ts.length maxWord
  sized : ∀ t ∈ ts, t.Sized
  bytes : input = spellParams ts

theorem Spells.unique (ht : Spells ts input) (hu : Spells us input) : ts = us := by
  obtain ⟨hl, h⟩ := length_append_inj ht.length hu.length (ht.bytes.symm.trans hu.bytes)
  have htrees := flatMap_append_inj (a := []) (b := [])
    (fun t hmem u hmem' a b => t.spell_append_inj u (ht.sized t hmem) (hu.sized u hmem') a b) hl
    (congrArg (· ++ []) h)
  exact htrees.1

end Wire
end GraphRpc
