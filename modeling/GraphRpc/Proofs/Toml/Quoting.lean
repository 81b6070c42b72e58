import Mathlib
import GraphRpc.Toml.Quoted

/-!
# Quoted strings are read as they were written

Whichever way a string is written, its quotes end where they should: a double quote is escaped
wherever three of them could come together, and single quotes are used only if no three do.
-/

namespace GraphRpc.Toml

variable {multiline : Bool} {c x : Char} {cs e r t : List Char}

def before (c : Char) (read : Option (List Char × List Char)) : Option (List Char × List Char) :=
  read.map fun (s, r) => (c :: s, r)

@[simp] theorem before_some (c : Char) (s r : List Char) :
    before c (some (s, r)) = some (c :: s, r) := rfl

theorem bind_eq_before (c : Char) (read : Option (List Char × List Char)) :
    (read.bind fun p => some (c :: p.1, p.2)) = before c read := by
  cases read <;> rfl

-- ---------------------------------------------------------------------------
-- Escapes
-- ---------------------------------------------------------------------------

theorem toNat_lt_of_needsEscape (h : needsEscape c) : c.toNat < 128 := by
  simp only [needsEscape, Bool.or_eq_true, Bool.and_eq_true, decide_eq_true_eq] at h
  rcases h with ⟨⟨hlt, -⟩, -⟩ | heq
  · have hlt : c.toNat < ' '.toNat := hlt
    exact hlt.trans (by decide)
  · omega

theorem codePoint?_hexDigits4 (h : needsEscape c) : codePoint? (hexDigits4 c.toNat) = some c := by
  have hsmall : ∀ n < 128, codePoint? (hexDigits4 n) = some (Char.ofNat n) := by decide
  rw [hsmall _ (toNat_lt_of_needsEscape h), Char.ofNat_toNat]

/-- An escape is a letter behind a backslash, or the code point of a character in hexadecimal. -/
theorem escape?_eq_some (h : escape? multiline c = some e) :
    (∃ x, e = ['\\', x] ∧ shortEscape? x = some c ∧ x ≠ 'u' ∧ x ≠ 'U' ∧ isBlank x = false ∧ x ≠ '\n') ∨
      (needsEscape c ∧ e = '\\' :: 'u' :: hexDigits4 c.toNat) := by
  unfold escape? at h
  split at h
  case h_7 =>
    split at h
    · next hneeds =>
      cases h
      exact .inr ⟨hneeds, rfl⟩
    · cases h
  case h_3 =>
    split at h
    · cases h
    · cases h
      exact .inl ⟨'n', rfl, by decide⟩
  all_goals
    cases h
    exact .inl ⟨_, rfl, by decide⟩

theorem head_escape (h : escape? multiline c = some e) : ∃ t, e = '\\' :: t := by
  obtain ⟨x, rfl, -⟩ | ⟨-, rfl⟩ := escape?_eq_some h
  · exact ⟨_, rfl⟩
  · exact ⟨_, rfl⟩

theorem plain_of_not_needsEscape (h : needsEscape c = false) : isPlain c ∨ c = '\n' := by
  simp only [needsEscape, Bool.or_eq_false_iff, Bool.and_eq_false_iff, decide_eq_false_iff_not, not_not,
    not_lt] at h
  obtain ⟨(hspace | htab) | hbreak, hdelete⟩ := h
  · exact .inl (by simp [isPlain, hspace, hdelete])
  · exact .inl (by simp [isPlain, htab])
  · exact .inr hbreak

theorem escape?_eq_none (h : escape? multiline c = none) :
    c ≠ '\\' ∧ c ≠ '\r' ∧ (isPlain c ∨ multiline ∧ c = '\n') := by
  unfold escape? at h
  split at h
  case h_7 =>
    split at h
    · cases h
    · next hbackspace htab hbreak hfeed hreturn hbackslash hplain =>
      have hc := plain_of_not_needsEscape (by simpa using hplain)
      exact ⟨hbackslash, hreturn, .inl (hc.resolve_right hbreak)⟩
  case h_3 =>
    split at h
    · next hm => exact ⟨by decide, by decide, .inr ⟨hm, rfl⟩⟩
    · cases h
  all_goals cases h

-- ---------------------------------------------------------------------------
-- Characters between double quotes
-- ---------------------------------------------------------------------------

/-- The character `c` may be written as `e` between double quotes, in front of `r`. -/
inductive Written (multiline : Bool) : (c : Char) → (e r : List Char) → Prop
  | short {x c : Char} {r : List Char} : shortEscape? x = some c → x ≠ 'u' → x ≠ 'U' →
      isBlank x = false → x ≠ '\n' → Written multiline c ['\\', x] r
  | code {c : Char} {r : List Char} : needsEscape c →
      Written multiline c ('\\' :: 'u' :: hexDigits4 c.toNat) r
  | plain {c : Char} {r : List Char} : isPlain c → c ≠ '"' → c ≠ '\\' → Written multiline c [c] r
  | newline {r : List Char} : multiline → Written multiline '\n' ['\n'] r
  | quote {r : List Char} : multiline → ¬ ['"', '"'] <+: r → Written multiline '"' ['"'] r

namespace Written

theorem escape (h : escape? multiline c = some e) : Written multiline c e r := by
  obtain ⟨x, rfl, hx, hu, hU, hblank, hbreak⟩ | ⟨hneeds, rfl⟩ := escape?_eq_some h
  · exact .short hx hu hU hblank hbreak
  · exact .code hneeds

theorem escapedQuote (multiline : Bool) (r : List Char) : Written multiline '"' ['\\', '"'] r := by
  have hshort : shortEscape? '"' = some '"' := rfl
  exact .short hshort (by decide) (by decide) rfl (by decide)

theorem noEscape (h : escape? multiline c = none) (hquote : c ≠ '"') : Written multiline c [c] r := by
  obtain ⟨hbackslash, -, hplain | ⟨hmultiline, rfl⟩⟩ := escape?_eq_none h
  · exact .plain hplain hquote hbackslash
  · exact .newline hmultiline

end Written

theorem basic_written (h : Written false c e r) : basic (e ++ r) = before c (basic r) := by
  cases h with
  | @short x _ hx hu hU =>
    change basic ('\\' :: x :: r) = _
    rw [basic.eq_def]
    split
    case h_6 hnot heq =>
      obtain ⟨rfl, rfl⟩ := List.cons.inj heq
      exact (hnot _ _ rfl rfl).elim
    all_goals simp_all [bind_eq_before]
  | code hneeds =>
    have hcode := codePoint?_hexDigits4 hneeds
    simp only [hexDigits4, List.map_cons, List.map_nil, List.cons_append, List.nil_append] at hcode ⊢
    rw [basic, hcode]
    cases basic r <;> rfl
  | plain hplain hquote hbackslash =>
    change basic (c :: r) = _
    rw [basic.eq_def]
    split <;> simp_all
    rfl
  | newline hmultiline => cases hmultiline
  | quote hmultiline => cases hmultiline

theorem multilineBasic_written (h : Written multiline c e r) :
    multilineBasic .nothing (e ++ r) = before c (multilineBasic .nothing r) := by
  cases h with
  | @short x _ hx hu hU hblank hbreak =>
    change multilineBasic .nothing ('\\' :: x :: r) = _
    rw [multilineBasic.eq_def]
    simp only [ne_eq, not_true_eq_false, decide_false, Bool.and_false, Bool.false_eq_true, ↓reduceIte,
      reduceCtorEq]
    split <;> simp_all [bind_eq_before]
  | code hneeds =>
    have hcode := codePoint?_hexDigits4 hneeds
    simp only [hexDigits4, List.map_cons, List.map_nil, List.cons_append, List.nil_append] at hcode ⊢
    rw [multilineBasic.eq_def]
    simp only [ne_eq, not_true_eq_false, decide_false, Bool.and_false, Bool.false_eq_true, ↓reduceIte,
      reduceCtorEq, hcode]
    cases multilineBasic .nothing r <;> rfl
  | plain hplain hquote hbackslash =>
    change multilineBasic .nothing (c :: r) = _
    rw [multilineBasic.eq_def]
    simp only [ne_eq, not_true_eq_false, decide_false, Bool.and_false, Bool.false_eq_true, ↓reduceIte,
      reduceCtorEq]
    split <;> simp_all
    rfl
  | newline => rfl
  | quote _ hfew =>
    change multilineBasic .nothing ('"' :: r) = _
    rw [multilineBasic.eq_def]
    simp only [ne_eq, not_true_eq_false, decide_false, Bool.and_false, Bool.false_eq_true, ↓reduceIte,
      reduceCtorEq]
    split <;> simp_all [isPlain]
    rfl

-- ---------------------------------------------------------------------------
-- Double quotes
-- ---------------------------------------------------------------------------

theorem head_escaped (multiline : Bool) (allowed run : Nat) (c : Char) (cs : List Char)
    (hc : c ≠ '"' ∨ allowed ≤ run) :
    ∃ x t, escaped multiline allowed run (c :: cs) = x :: t ∧ x ≠ '"' ∧ (x = '\\' ∨ x = c) := by
  rw [escaped]
  split
  · next hquote =>
    rw [if_neg (Nat.not_lt.2 (hc.resolve_left (not_not.2 hquote)))]
    exact ⟨_, _, rfl, by decide, .inl rfl⟩
  · next hquote =>
    split
    · next e he =>
      obtain ⟨t, rfl⟩ := head_escape he
      exact ⟨_, _, rfl, by decide, .inl rfl⟩
    · exact ⟨_, _, rfl, hquote, .inr rfl⟩

/-- A string is read back from its text between double quotes. -/
theorem basic_escaped (run : Nat) (cs r : List Char) :
    basic (escaped false 0 run cs ++ '"' :: r) = some (cs, r) := by
  induction cs generalizing run with
  | nil => rfl
  | cons c cs ih =>
    rw [escaped]
    split
    · next hquote =>
      subst hquote
      have hread := basic_written (Written.escapedQuote false (escaped false 0 0 cs ++ '"' :: r))
      rw [ih, before_some] at hread
      rw [if_neg (Nat.not_lt_zero run)]
      exact hread
    · next hquote =>
      split
      · next e he => rw [List.append_assoc, basic_written (.escape he), ih, before_some]
      · next hnone =>
        rw [List.cons_append, ← List.singleton_append, basic_written (.noEscape hnone hquote), ih,
          before_some]

theorem multilineBasic_end (hr : r.head? ≠ some '"') (hk : k ≤ 2) :
    multilineBasic .nothing (List.replicate k '"' ++ '"' :: '"' :: '"' :: r) =
      some (List.replicate k '"', r) := by
  have hr' : ∀ t, r ≠ '"' :: t := fun t ht => hr (by rw [ht]; rfl)
  obtain rfl | rfl | rfl : k = 0 ∨ k = 1 ∨ k = 2 := by omega
  all_goals
    rw [multilineBasic.eq_def]
    simp [hr, hr', List.replicate]

/-- Behind a double quote that is not escaped, only the end of the string can bring two more. -/
theorem not_quotes_of_escaped {run : Nat} (hrun : run < 2) (hcs : cs ≠ [])
    (hlast : run = 0 → cs ≠ ['"']) :
    ¬ ['"', '"'] <+: escaped true 2 (run + 1) cs ++ t := by
  obtain ⟨c, cs, rfl⟩ := List.exists_cons_of_ne_nil hcs
  by_cases hc : c ≠ '"' ∨ 2 ≤ run + 1
  · obtain ⟨x, u, heq, hx, -⟩ := head_escaped true 2 (run + 1) c cs hc
    rw [heq, List.cons_append, List.cons_prefix_cons]
    exact fun h => hx h.1.symm
  · obtain ⟨rfl, hrun'⟩ : c = '"' ∧ run + 1 < 2 := by simpa using hc
    obtain rfl : run = 0 := by omega
    obtain ⟨d, ds, rfl⟩ : ∃ d ds, cs = d :: ds :=
      List.exists_cons_of_ne_nil fun h => hlast rfl (by rw [h])
    obtain ⟨x, u, heq, hx, -⟩ := head_escaped true 2 2 d ds (.inr le_rfl)
    rw [escaped, if_pos rfl, if_pos hrun', heq, List.cons_append, List.cons_append,
      List.cons_prefix_cons, List.cons_prefix_cons]
    exact fun h => hx h.2.1.symm

theorem multilineBasic_escaped (run : Nat) (cs : List Char) (hr : r.head? ≠ some '"') :
    multilineBasic .nothing (escaped true 2 run cs ++ '"' :: '"' :: '"' :: r) = some (cs, r) := by
  induction cs generalizing run with
  | nil => exact multilineBasic_end hr (Nat.zero_le 2)
  | cons c cs ih =>
    rw [escaped]
    split
    · next hquote =>
      subst hquote
      split
      · next hrun =>
        by_cases hnil : cs = []
        · subst hnil
          exact multilineBasic_end hr (k := 1) (by omega)
        by_cases hlast : run = 0 ∧ cs = ['"']
        · obtain ⟨rfl, rfl⟩ := hlast
          exact multilineBasic_end hr (k := 2) le_rfl
        have hfew := not_quotes_of_escaped (t := '"' :: '"' :: '"' :: r) hrun hnil
          fun hzero heq => hlast ⟨hzero, heq⟩
        have hread := multilineBasic_written (Written.quote rfl hfew)
        rw [ih, before_some] at hread
        exact hread
      · have hread := multilineBasic_written (Written.escapedQuote true
          (escaped true 2 0 cs ++ '"' :: '"' :: '"' :: r))
        rw [ih, before_some] at hread
        exact hread
    · next hquote =>
      split
      · next e he => rw [List.append_assoc, multilineBasic_written (.escape he), ih, before_some]
      · next hnone =>
        rw [List.cons_append, ← List.singleton_append,
          multilineBasic_written (.noEscape hnone hquote), ih, before_some]

-- ---------------------------------------------------------------------------
-- Single quotes
-- ---------------------------------------------------------------------------

def countRun (x : Char) (best : Nat × Nat) (c : Char) : Nat × Nat :=
  if c = x then (max best.1 (best.2 + 1), best.2 + 1) else (best.1, 0)

theorem foldl_countRun_le (cs : List Char) {best : Nat × Nat} (hbest : best.2 ≤ best.1) :
    (cs.foldl (countRun x) best).2 ≤ (cs.foldl (countRun x) best).1 := by
  induction cs generalizing best with
  | nil => exact hbest
  | cons c cs ih =>
    refine ih ?_
    unfold countRun
    split
    · exact Nat.le_max_right _ _
    · exact Nat.zero_le _

theorem le_foldl_countRun (cs : List Char) (best : Nat × Nat) :
    best.1 ≤ (cs.foldl (countRun x) best).1 := by
  induction cs generalizing best with
  | nil => exact le_rfl
  | cons c cs ih =>
    refine le_trans ?_ (ih _)
    unfold countRun
    split
    · exact Nat.le_max_left _ _
    · exact le_rfl

theorem le_foldl_replicate (k : Nat) (best : Nat × Nat) (hbest : best.2 ≤ best.1) :
    best.2 + k ≤ ((List.replicate k x).foldl (countRun x) best).1 := by
  induction k generalizing best with
  | zero => exact hbest
  | succ k ih =>
    rw [List.replicate_succ, List.foldl_cons, countRun, if_pos rfl]
    have hrest := ih (max best.1 (best.2 + 1), best.2 + 1) (Nat.le_max_right _ _)
    omega

theorem le_longestRun (h : List.replicate k x <:+: cs) : k ≤ longestRun x cs := by
  obtain ⟨a, b, rfl⟩ := h
  change k ≤ ((a ++ List.replicate k x ++ b).foldl (countRun x) (0, 0)).1
  rw [List.foldl_append, List.foldl_append]
  calc k ≤ (a.foldl (countRun x) (0, 0)).2 + k := Nat.le_add_left _ _
    _ ≤ _ := le_foldl_replicate k _ (foldl_countRun_le a le_rfl)
    _ ≤ _ := le_foldl_countRun b _

theorem literal_append (hcs : ∀ c ∈ cs, isPlain c ∧ c ≠ '\'') :
    literal (cs ++ '\'' :: r) = some (cs, r) := by
  induction cs with
  | nil => rfl
  | cons c cs ih =>
    obtain ⟨⟨hplain, hquote⟩, hcs⟩ := List.forall_mem_cons.1 hcs
    rw [List.cons_append, literal.eq_def]
    split
    case h_3 heq =>
      obtain ⟨rfl, rfl⟩ := List.cons.inj heq
      rw [if_pos hplain, ih hcs]
      rfl
    all_goals simp_all

theorem multilineLiteral_end (hr : r.head? ≠ some '\'') (hk : k ≤ 2) :
    multilineLiteral (List.replicate k '\'' ++ '\'' :: '\'' :: '\'' :: r) =
      some (List.replicate k '\'', r) := by
  have hr' : ∀ t, r ≠ '\'' :: t := fun t ht => hr (by rw [ht]; rfl)
  obtain rfl | rfl | rfl : k = 0 ∨ k = 1 ∨ k = 2 := by omega
  all_goals
    rw [multilineLiteral.eq_def]
    simp [hr, hr', List.replicate]

theorem multilineLiteral_cons (hplain : isPlain c ∨ c = '\n') (h : c = '\'' → ¬ ['\'', '\''] <+: r) :
    multilineLiteral (c :: r) = before c (multilineLiteral r) := by
  rw [multilineLiteral.eq_def]
  split
  case h_5 heq =>
    obtain ⟨rfl, rfl⟩ := List.cons.inj heq
    rw [if_pos (by simpa using hplain)]
    rfl
  all_goals simp_all

theorem not_quotes_of_run (hrun : ¬ List.replicate 3 '\'' <:+: '\'' :: cs) (hnil : cs ≠ [])
    (hlast : cs ≠ ['\'']) : ¬ ['\'', '\''] <+: cs ++ t := by
  match cs with
  | [] => exact (hnil rfl).elim
  | [c] =>
    rw [List.singleton_append, List.cons_prefix_cons]
    rintro ⟨rfl, -⟩
    exact hlast rfl
  | c :: d :: cs =>
    rw [List.cons_append, List.cons_append, List.cons_prefix_cons, List.cons_prefix_cons]
    rintro ⟨rfl, rfl, -⟩
    exact hrun (List.prefix_append ['\'', '\'', '\''] cs).isInfix

/-- A string in which no three single quotes come together stands between three as it is. -/
theorem multilineLiteral_append (hcs : ∀ c ∈ cs, isPlain c ∨ c = '\n')
    (hrun : ¬ List.replicate 3 '\'' <:+: cs) (hr : r.head? ≠ some '\'') :
    multilineLiteral (cs ++ '\'' :: '\'' :: '\'' :: r) = some (cs, r) := by
  induction cs with
  | nil => exact multilineLiteral_end hr (Nat.zero_le 2)
  | cons c cs ih =>
    obtain ⟨hplain, hcs⟩ := List.forall_mem_cons.1 hcs
    have hrest := ih hcs fun h => hrun (h.trans (List.suffix_cons c cs).isInfix)
    by_cases hone : c = '\'' ∧ cs = []
    · obtain ⟨rfl, rfl⟩ := hone
      exact multilineLiteral_end hr (k := 1) (by omega)
    by_cases htwo : c = '\'' ∧ cs = ['\'']
    · obtain ⟨rfl, rfl⟩ := htwo
      exact multilineLiteral_end hr (k := 2) le_rfl
    rw [List.cons_append, multilineLiteral_cons hplain, hrest, before_some]
    rintro rfl
    exact not_quotes_of_run hrun (fun h => hone ⟨rfl, h⟩) fun h => htwo ⟨rfl, h⟩

-- ---------------------------------------------------------------------------
-- Any quotes
-- ---------------------------------------------------------------------------

theorem takeQuoted_basic (h : ¬ ['"', '"'] <+: t) : takeQuoted ('"' :: t) = basic t := by
  rw [takeQuoted.eq_def]
  split <;> simp_all

theorem takeQuoted_literal (h : ¬ ['\'', '\''] <+: t) : takeQuoted ('\'' :: t) = literal t := by
  rw [takeQuoted.eq_def]
  split <;> simp_all

theorem not_quotes_of_head {q : Char} (hr : r.head? ≠ some q) (h : ∀ c ∈ cs.head?, c ≠ q) :
    ¬ [q, q] <+: cs ++ q :: r := by
  cases cs with
  | nil =>
    cases r with
    | nil => simp
    | cons d r =>
      rw [List.nil_append, List.cons_prefix_cons, List.cons_prefix_cons]
      exact fun hp => hr (by rw [← hp.2.1]; rfl)
  | cons c cs =>
    rw [List.cons_append, List.cons_prefix_cons]
    exact fun hp => h c rfl hp.1.symm

theorem takeQuoted_onLine (hr : r.head? ≠ some '"') :
    takeQuoted (('"' :: escaped false 0 0 cs ++ ['"']) ++ r) = some (cs, r) := by
  have hhead : ∀ c ∈ (escaped false 0 0 cs).head?, c ≠ '"' := by
    cases cs with
    | nil => simp [escaped]
    | cons c cs =>
      obtain ⟨x, u, heq, hx, -⟩ := head_escaped false 0 0 c cs (.inr le_rfl)
      simpa [heq] using hx
  rw [List.append_assoc, List.singleton_append, List.cons_append,
    takeQuoted_basic (not_quotes_of_head hr hhead), basic_escaped]

def opening (cs : List Char) : List Char := if cs.contains '\n' then ['\n'] else []

/-- The end of line that is put in front of a string that has some is the one left out. -/
theorem skipBreak_opening (body : List Char) (h : '\n' ∉ cs → body.head? ≠ some '\n') :
    skipBreak (opening cs ++ body) = body := by
  unfold opening
  by_cases hmem : '\n' ∈ cs
  · simp [hmem, skipBreak]
  · have hbody := h hmem
    simp only [List.contains_eq_mem, hmem, decide_false, Bool.false_eq_true, ↓reduceIte, List.nil_append]
    rw [skipBreak.eq_def]
    split
    · next heq => simp at hbody
    · rfl

theorem takeQuoted_onLines (hr : r.head? ≠ some '"') :
    takeQuoted ((['"', '"', '"'] ++ opening cs ++ escaped true 2 0 cs ++ ['"', '"', '"']) ++ r) =
      some (cs, r) := by
  have hhead : '\n' ∉ cs → (escaped true 2 0 cs ++ '"' :: '"' :: '"' :: r).head? ≠ some '\n' := by
    intro hmem
    cases cs with
    | nil => simp [escaped]
    | cons c cs =>
      by_cases hc : c = '"'
      · subst hc
        simp [escaped]
      · obtain ⟨x, u, heq, -, hx⟩ := head_escaped true 2 0 c cs (.inl hc)
        rw [heq, List.cons_append, List.head?_cons]
        rintro ⟨rfl⟩
        obtain hx | hx := hx
        · cases hx
        · exact hmem (hx ▸ List.mem_cons_self)
  simp only [List.append_assoc, List.cons_append, List.nil_append]
  rw [takeQuoted, skipBreak_opening _ hhead, multilineBasic_escaped 0 cs hr]

theorem takeQuoted_singleOnLine (hcs : ∀ c ∈ cs, isPlain c ∧ c ≠ '\'') (hr : r.head? ≠ some '\'') :
    takeQuoted (('\'' :: cs ++ ['\'']) ++ r) = some (cs, r) := by
  rw [List.append_assoc, List.singleton_append, List.cons_append,
    takeQuoted_literal (not_quotes_of_head hr fun c hc => (hcs c (List.mem_of_mem_head? hc)).2),
    literal_append hcs]

theorem takeQuoted_singleOnLines (hcs : ∀ c ∈ cs, isPlain c ∨ c = '\n')
    (hrun : ¬ List.replicate 3 '\'' <:+: cs) (hr : r.head? ≠ some '\'') :
    takeQuoted ((['\'', '\'', '\''] ++ opening cs ++ cs ++ ['\'', '\'', '\'']) ++ r) = some (cs, r) := by
  have hhead : '\n' ∉ cs → (cs ++ '\'' :: '\'' :: '\'' :: r).head? ≠ some '\n' := by
    intro hmem
    cases cs with
    | nil => simp
    | cons c cs =>
      rw [List.cons_append, List.head?_cons]
      rintro ⟨rfl⟩
      exact hmem List.mem_cons_self
  simp only [List.append_assoc, List.cons_append, List.nil_append]
  rw [takeQuoted, skipBreak_opening _ hhead, multilineLiteral_append hcs hrun hr]

theorem plain_of_any_needsEscape (h : cs.any needsEscape = false) : ∀ c ∈ cs, isPlain c ∨ c = '\n' := by
  rw [List.any_eq_false] at h
  exact fun c hc => plain_of_not_needsEscape (by simpa using h c hc)

/-- The ways to write a string, each with what holds of a string that is written so. -/
theorem quote_cases (cs : List Char) :
    quote cs = '"' :: escaped false 0 0 cs ++ ['"'] ∨
    (quote cs = '\'' :: cs ++ ['\''] ∧ cs.any needsEscape = false ∧ longestRun '\'' cs = 0 ∧ '\n' ∉ cs) ∨
    quote cs = ['"', '"', '"'] ++ opening cs ++ escaped true 2 0 cs ++ ['"', '"', '"'] ∨
    (quote cs = ['\'', '\'', '\''] ++ opening cs ++ cs ++ ['\'', '\'', '\''] ∧
      cs.any needsEscape = false ∧ longestRun '\'' cs ≤ 2) := by
  simp only [quote, opening]
  split
  · exact .inl rfl
  split
  · next h => exact .inr (.inl ⟨rfl, by simpa [and_assoc] using h⟩)
  split
  · exact .inr (.inr (.inl rfl))
  split
  · next h => exact .inr (.inr (.inr ⟨rfl, by simpa using h⟩))
  split
  · exact .inr (.inr (.inl rfl))
  · exact .inl rfl

/-- Every string is read back as it was written, however it was, unless a quote follows. -/
theorem takeQuoted_quote (hdouble : r.head? ≠ some '"') (hsingle : r.head? ≠ some '\'') :
    takeQuoted (quote cs ++ r) = some (cs, r) := by
  obtain h | ⟨h, hplain, hrun, hbreak⟩ | h | ⟨h, hplain, hrun⟩ := quote_cases cs <;> rw [h]
  · exact takeQuoted_onLine hdouble
  · refine takeQuoted_singleOnLine (fun c hc => ⟨?_, ?_⟩) hsingle
    · refine (plain_of_any_needsEscape hplain c hc).resolve_right ?_
      rintro rfl
      exact hbreak hc
    · rintro rfl
      have hone := le_longestRun (k := 1) ((List.singleton_infix_iff _ _).2 hc)
      omega
  · exact takeQuoted_onLines hdouble
  · refine takeQuoted_singleOnLines (plain_of_any_needsEscape hplain) (fun h => ?_) hsingle
    have hthree := le_longestRun h
    omega

-- ---------------------------------------------------------------------------
-- Ends of lines
-- ---------------------------------------------------------------------------

theorem return_notMem_escape (h : escape? multiline c = some e) : '\r' ∉ e := by
  obtain ⟨x, rfl, hx, -⟩ | ⟨hneeds, rfl⟩ := escape?_eq_some h
  · suffices x ≠ '\r' by simpa using this.symm
    rintro rfl
    cases hx
  · have hsmall : ∀ n < 128, '\r' ∉ '\\' :: 'u' :: hexDigits4 n := by decide
    exact hsmall _ (toNat_lt_of_needsEscape hneeds)

theorem return_notMem_escaped (multiline : Bool) (allowed run : Nat) (cs : List Char) :
    '\r' ∉ escaped multiline allowed run cs := by
  induction cs generalizing run with
  | nil => simp [escaped]
  | cons c cs ih =>
    rw [escaped]
    split
    · split <;> simp [ih]
    · split
      · next e he => simp [ih, return_notMem_escape he]
      · next hnone => simp [ih, (escape?_eq_none hnone).2.1.symm]

theorem return_notMem_quote (cs : List Char) : '\r' ∉ quote cs := by
  have hescaped (multiline : Bool) (allowed : Nat) := return_notMem_escaped multiline allowed 0 cs
  have hopening : '\r' ∉ opening cs := by
    unfold opening
    split <;> simp
  have hplain (h : cs.any needsEscape = false) : '\r' ∉ cs := by
    intro hmem
    exact List.any_eq_false.1 h _ hmem (by decide)
  obtain h | ⟨h, hneeds, -⟩ | h | ⟨h, hneeds, -⟩ := quote_cases cs <;> rw [h]
  · simp [hescaped]
  · simp [hplain hneeds]
  · simp [hescaped, hopening]
  · simp [hplain hneeds, hopening]

theorem head_quote (cs : List Char) : ∃ t, quote cs = '"' :: t ∨ quote cs = '\'' :: t := by
  obtain h | ⟨h, -⟩ | h | ⟨h, -⟩ := quote_cases cs
  · exact ⟨_, .inl h⟩
  · exact ⟨_, .inr h⟩
  · exact ⟨_, .inl h⟩
  · exact ⟨_, .inr h⟩

end GraphRpc.Toml
