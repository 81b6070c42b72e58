import Mathlib
import GraphRpc.Toml.Printer

/-!
# Unquoted values are read as they were written

Integers are written in decimal digits. They cannot be taken for a date or a time, which have
hyphens or colons where an integer has digits, and they begin with zero only if they are zero.
-/

namespace GraphRpc.Toml

variable {cs ds r : List Char} {c : Char} {n : Nat}

-- ---------------------------------------------------------------------------
-- Digits
-- ---------------------------------------------------------------------------

theorem isDigit_of_mem_toDigits (h : c ∈ Nat.toDigits 10 n) : c.isDigit :=
  Nat.isDigit_of_mem_toDigits (by decide) (by decide) h

theorem toDigits_of_head_zero (h : Nat.toDigits 10 n = '0' :: ds) : ds = [] := by
  induction n using Nat.strong_induction_on generalizing ds with
  | _ n ih =>
    by_cases hn : n < 10
    · rw [Nat.toDigits_of_lt_base hn, List.cons.injEq] at h
      exact h.2.symm
    · rw [Nat.toDigits_of_base_le (by decide) (by omega)] at h
      obtain ⟨d, es, hes⟩ := List.exists_cons_of_ne_nil (Nat.toDigits_ne_nil (n := n / 10) (b := 10))
      rw [hes, List.cons_append, List.cons.injEq] at h
      obtain ⟨rfl, -⟩ := h
      obtain rfl := ih (n / 10) (by omega) hes
      have hvalue := Nat.ofDigitChars_ten_toDigits (n := n / 10)
      rw [hes] at hvalue
      have hzero : Nat.ofDigitChars 10 ['0'] 0 = 0 := rfl
      omega

theorem digits?_of_digits (hds : ∀ c ∈ ds, c.isDigit) (hne : ds ≠ []) :
    digits? Char.isDigit ds = some ds := by
  induction ds with
  | nil => exact (hne rfl).elim
  | cons c ds ih =>
    obtain ⟨hc, hds⟩ := List.forall_mem_cons.1 hds
    cases ds with
    | nil => rw [digits?, if_pos hc]
    | cons d ds =>
      have hd : d ≠ '_' := by
        rintro rfl
        exact absurd (hds '_' (by simp)) (by decide)
      rw [digits?.eq_def]
      simp only [hc, ↓reduceIte, ih hds (by simp)]
      rfl

theorem number_of_digits (hds : ∀ c ∈ ds, c.isDigit) (k : Nat) :
    ds.foldl (fun n c => n * 10 + digitValue c) k = Nat.ofDigitChars 10 ds k := by
  induction ds generalizing k with
  | nil => rfl
  | cons c ds ih =>
    obtain ⟨hc, hds⟩ := List.forall_mem_cons.1 hds
    rw [List.foldl_cons, ih hds, Nat.ofDigitChars_cons, digitValue, if_pos hc, Nat.mul_comm]
    rfl

theorem number_toDigits (n : Nat) : number 10 (Nat.toDigits 10 n) = n :=
  (number_of_digits (fun _ => isDigit_of_mem_toDigits) 0).trans Nat.ofDigitChars_ten_toDigits

theorem wholePart?_toDigits (n : Nat) : wholePart? (Nat.toDigits 10 n) = some (Nat.toDigits 10 n) := by
  rw [wholePart?, digits?_of_digits (fun _ => isDigit_of_mem_toDigits) Nat.toDigits_ne_nil]
  split
  · next heq =>
    cases toDigits_of_head_zero (Option.some.inj heq)
  · rfl

-- ---------------------------------------------------------------------------
-- Integers
-- ---------------------------------------------------------------------------

def FitsWord (n : Int) : Prop := Int64.minValue.toInt ≤ n ∧ n ≤ Int64.maxValue.toInt

theorem toList_toString (n : Nat) : (toString (n : Int)).toList = Nat.toDigits 10 n := Nat.toList_repr

theorem toList_toString_neg (n : Nat) :
    (toString (Int.negSucc n)).toList = '-' :: Nat.toDigits 10 (n + 1) := by
  change ("-" ++ (n + 1).repr).toList = _
  rw [String.toList_append, Nat.toList_repr]
  rfl

theorem integer?_of_signed (negative : Bool) (hcs : ∀ c r, cs ≠ '0' :: c :: r)
    (hsigned : Decimal.signed cs = (negative, Nat.toDigits 10 n))
    (h : FitsWord (if negative then -n else n)) :
    integer? cs = some (.integer (if negative then -n else n)) := by
  rw [integer?.eq_def]
  split
  · exact (hcs _ _ rfl).elim
  · exact (hcs _ _ rfl).elim
  · exact (hcs _ _ rfl).elim
  · rw [hsigned]
    dsimp only
    rw [wholePart?_toDigits, Option.bind_some, number_toDigits, bounded, if_pos (show _ ∧ _ from h)]

theorem integer?_toString {n : Int} (h : FitsWord n) :
    integer? (toString n).toList = some (.integer n) := by
  cases n with
  | ofNat n =>
    rw [Int.ofNat_eq_natCast, toList_toString]
    refine integer?_of_signed false (fun c r heq => ?_) ?_ h
    · cases toDigits_of_head_zero heq
    · obtain ⟨d, ds, hds⟩ := List.exists_cons_of_ne_nil (Nat.toDigits_ne_nil (n := n) (b := 10))
      have hd : d.isDigit := isDigit_of_mem_toDigits (n := n) (by simp [hds])
      rw [hds, Decimal.signed.eq_def]
      split
      · next heq =>
        cases heq
        cases hd
      · next heq =>
        cases heq
        cases hd
      · rfl
  | negSucc n =>
    rw [toList_toString_neg]
    have hcs : ∀ c r, '-' :: Nat.toDigits 10 (n + 1) ≠ '0' :: c :: r := by
      intro c r heq
      cases heq
    rw [integer?_of_signed true (n := n + 1) hcs rfl]
    · rfl
    · exact h

theorem chars_of_integer (n : Int) : ∃ ds, (∀ c ∈ ds, c.isDigit) ∧ ds ≠ [] ∧
    ((toString n).toList = ds ∨ (toString n).toList = '-' :: ds) := by
  cases n with
  | ofNat n => exact ⟨_, fun _ => isDigit_of_mem_toDigits, Nat.toDigits_ne_nil, .inl (toList_toString n)⟩
  | negSucc n =>
    exact ⟨_, fun _ => isDigit_of_mem_toDigits, Nat.toDigits_ne_nil, .inr (toList_toString_neg n)⟩

theorem hyphen_of_isDate (h : isDate cs) : '-' ∈ cs.drop 1 := by
  unfold isDate at h
  split at h
  · simp
  · cases h

theorem colon_of_isTime {withOffset : Bool} (h : isTime withOffset cs) : ':' ∈ cs := by
  unfold isTime at h
  split at h
  · simp
  · cases h

theorem isDateTime_eq_false (hhyphen : '-' ∉ cs.drop 1) (hcolon : ':' ∉ cs) : isDateTime cs = false := by
  have hdate : isDate cs = false := by
    by_contra h
    exact hhyphen (hyphen_of_isDate (by simpa using h))
  have htime : isTime false cs = false := by
    by_contra h
    exact hcolon (colon_of_isTime (by simpa using h))
  have hfront : isDate (cs.take 10) = false := by
    by_contra h
    have hmem := hyphen_of_isDate (by simpa using h)
    rw [List.drop_take] at hmem
    exact hhyphen (List.mem_of_mem_take hmem)
  rw [isDateTime, hdate, htime, hfront]
  split <;> simp

theorem scalar?_integer {n : Int} (h : FitsWord n) :
    scalar? (toString n).toList = some (.integer n) := by
  obtain ⟨ds, hds, hne, heq⟩ := chars_of_integer n
  have hnot {c : Char} (hc : c.isDigit = false) : c ∉ ds := fun hmem => by simp [hds c hmem] at hc
  have htime : isDateTime (toString n).toList = false := by
    obtain heq | heq := heq <;> rw [heq]
    · exact isDateTime_eq_false (fun h => hnot (by decide) (List.mem_of_mem_drop h)) (hnot (by decide))
    · exact isDateTime_eq_false (hnot (by decide)) (by simp [hnot])
  have hletter {c : Char} {r : List Char} (hc : c.isDigit = false) (hsign : c ≠ '-') :
      (toString n).toList ≠ c :: r := by
    intro hcs
    obtain heq | heq := heq
    · exact hnot hc (by rw [← heq, hcs]; exact List.mem_cons_self)
    · rw [hcs] at heq
      exact hsign (List.cons.inj heq).1
  rw [scalar?.eq_def]
  split
  · next hcs => exact (hletter (by decide) (by decide) hcs).elim
  · next hcs => exact (hletter (by decide) (by decide) hcs).elim
  · rw [htime, integer?_toString h]
    rfl

-- ---------------------------------------------------------------------------
-- Values in a line
-- ---------------------------------------------------------------------------

theorem isScalarChar_of_isDigit (h : c.isDigit) : isScalarChar c := by
  simp [isScalarChar, Char.isAlphanum, h]

theorem takeScalar_of_chars (cs r : List Char) (hcs : ∀ c ∈ cs, isScalarChar c) :
    takeScalar (cs ++ '\n' :: r) = (scalar? cs).map fun v => (v, '\n' :: r) := by
  have hbreak : isScalarChar '\n' = false := by decide
  have htake : (cs ++ '\n' :: r).takeWhile isScalarChar = cs := by
    rw [List.takeWhile_append_of_pos hcs, List.takeWhile_cons_of_neg (by simp [hbreak]), List.append_nil]
  have hdrop : (cs ++ '\n' :: r).dropWhile isScalarChar = '\n' :: r := by
    rw [List.dropWhile_append_of_pos hcs, List.dropWhile_cons_of_neg (by simp [hbreak])]
  rw [takeScalar, htake, hdrop]
  rfl

theorem takeScalar_integer {n : Int} (h : FitsWord n) (r : List Char) :
    takeScalar ((toString n).toList ++ '\n' :: r) = some (.integer n, '\n' :: r) := by
  obtain ⟨ds, hds, -, heq⟩ := chars_of_integer n
  rw [takeScalar_of_chars, scalar?_integer h]
  · rfl
  · obtain heq | heq := heq <;> rw [heq]
    · exact fun c hc => isScalarChar_of_isDigit (hds c hc)
    · exact List.forall_mem_cons.2 ⟨by decide, fun c hc => isScalarChar_of_isDigit (hds c hc)⟩

theorem takeScalar_boolean (b : Bool) (r : List Char) :
    takeScalar ((if b then "true" else "false").toList ++ '\n' :: r) = some (.boolean b, '\n' :: r) := by
  cases b
  · exact takeScalar_of_chars ['f', 'a', 'l', 's', 'e'] r (List.all_eq_true.1 (by decide))
  · exact takeScalar_of_chars ['t', 'r', 'u', 'e'] r (List.all_eq_true.1 (by decide))

end GraphRpc.Toml
