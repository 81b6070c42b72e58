import Mathlib
import GraphRpc.Proofs.Toml.Quoting
import GraphRpc.Proofs.Toml.Unquoted

/-!
# Lines are read as they were written

One line at a time: what is written of a key with its value, or of a header, takes a document that was
read so far to the one with the entry, or with the table open.
-/

namespace GraphRpc.Toml

variable {c : Char} {cs r t : List Char} {key : String} {path : List String} {v : Value}

-- ---------------------------------------------------------------------------
-- Values
-- ---------------------------------------------------------------------------

theorem isBlank_eq_false {p : Char → Bool} (hspace : p ' ' = false) (htab : p '\t' = false) (hc : p c) :
    isBlank c = false := by
  simp only [isBlank, Bool.or_eq_false_iff, decide_eq_false_iff_not]
  constructor
  · rintro rfl
    exact absurd hc (by simp [hspace])
  · rintro rfl
    exact absurd hc (by simp [htab])

theorem skipBlanks_of_head (hc : isBlank c = false) (t : List Char) : skipBlanks (c :: t) = c :: t :=
  List.dropWhile_cons_of_neg (by simp [hc])

def Value.Plain : Value → Prop
  | .string _ | .boolean _ => True
  | .integer n => FitsWord n
  | _ => False

theorem takeValue_of_scalar (hc : isScalarChar c) (fuel room : Nat) (t : List Char) :
    takeValue (fuel + 1) room (c :: t) = takeScalar (c :: t) := by
  rw [takeValue.eq_def]
  dsimp only
  split
  case h_5 => rfl
  all_goals
    next heq =>
    cases heq
    cases hc

theorem head_toString_integer (n : Int) : ∃ c t, (toString n).toList = c :: t ∧ isScalarChar c := by
  obtain ⟨ds, hds, hne, heq⟩ := chars_of_integer n
  obtain heq | heq := heq
  · obtain ⟨d, ds, rfl⟩ := List.exists_cons_of_ne_nil hne
    exact ⟨d, ds, heq, isScalarChar_of_isDigit (hds d List.mem_cons_self)⟩
  · exact ⟨_, _, heq, by decide⟩

theorem head_text (h : v.Plain) : ∃ c t, v.text.toList = c :: t ∧ isBlank c = false := by
  cases v with
  | string s =>
    obtain ⟨t, ht | ht⟩ := head_quote s.toList
    · exact ⟨'"', t, by rw [Value.text, String.toList_ofList, ht], by decide⟩
    · exact ⟨'\'', t, by rw [Value.text, String.toList_ofList, ht], by decide⟩
  | integer n =>
    obtain ⟨c, t, heq, hc⟩ := head_toString_integer n
    exact ⟨c, t, by rw [Value.text, heq], isBlank_eq_false (by decide) (by decide) hc⟩
  | boolean b => cases b <;> exact ⟨_, _, rfl, by decide⟩
  | _ => exact h.elim

/-- A value is read back up to the end of its line. -/
theorem takeValue_text (h : v.Plain) (fuel room : Nat) (r : List Char) :
    takeValue (fuel + 1) room (v.text.toList ++ '\n' :: r) = some (v, '\n' :: r) := by
  cases v with
  | string s =>
    have hquoted : takeQuoted (quote s.toList ++ '\n' :: r) = some (s.toList, '\n' :: r) :=
      takeQuoted_quote (by simp) (by simp)
    rw [Value.text, String.toList_ofList]
    obtain ⟨t, ht | ht⟩ := head_quote s.toList <;> rw [ht, List.cons_append] at hquoted ⊢ <;>
      simp only [takeValue, hquoted, Option.map_some, String.ofList_toList]
  | integer n =>
    obtain ⟨c, t, heq, hc⟩ := head_toString_integer n
    have hscalar := takeScalar_integer h r
    rw [heq] at hscalar
    rw [Value.text, heq, List.cons_append, takeValue_of_scalar hc]
    exact hscalar
  | boolean b =>
    rw [Value.text, ← takeScalar_boolean]
    cases b
    · exact takeValue_of_scalar (c := 'f') (by decide) fuel room _
    · exact takeValue_of_scalar (c := 't') (by decide) fuel room _
  | _ => exact h.elim

theorem return_notMem_text (h : v.Plain) : '\r' ∉ v.text.toList := by
  cases v with
  | string s =>
    rw [Value.text, String.toList_ofList]
    exact return_notMem_quote _
  | integer n =>
    obtain ⟨ds, hds, -, heq⟩ := chars_of_integer n
    have hnot : '\r' ∉ ds := fun hmem => absurd (hds _ hmem) (by decide)
    rw [Value.text]
    obtain heq | heq := heq <;> rw [heq]
    · exact hnot
    · simp [hnot]
  | boolean b => cases b <;> decide
  | _ => exact h.elim

-- ---------------------------------------------------------------------------
-- Keys
-- ---------------------------------------------------------------------------

theorem keyText_cases (key : String) :
    (keyText key = key ∧ key.toList ≠ [] ∧ ∀ c ∈ key.toList, isBareKeyChar c) ∨
      (keyText key).toList = '"' :: escaped false 0 0 key.toList ++ ['"'] := by
  unfold keyText
  split
  · next h =>
    left
    simpa using h
  · exact .inr String.toList_ofList

def BeginsKey (c : Char) : Prop := isBareKeyChar c ∨ c = '"'

theorem head_keyText (key : String) : ∃ c t, (keyText key).toList = c :: t ∧ BeginsKey c := by
  obtain ⟨heq, hne, hbare⟩ | heq := keyText_cases key
  · obtain ⟨c, t, hct⟩ := List.exists_cons_of_ne_nil hne
    exact ⟨c, t, by rw [heq, hct], .inl (hbare c (by rw [hct]; exact List.mem_cons_self))⟩
  · exact ⟨_, _, heq, .inr rfl⟩

theorem takeSimpleKey_keyText (key : String) (hr : ∀ c ∈ r.head?, isBareKeyChar c = false) :
    takeSimpleKey ((keyText key).toList ++ r) = some (key.toList, r) := by
  obtain ⟨heq, hne, hbare⟩ | heq := keyText_cases key
  · obtain ⟨c, t, hct⟩ := List.exists_cons_of_ne_nil hne
    have hc := hbare c (by rw [hct]; exact List.mem_cons_self)
    rw [heq, takeSimpleKey.eq_def]
    split
    · next heq =>
      rw [hct] at heq
      cases heq
      cases hc
    · next heq =>
      rw [hct] at heq
      cases heq
      cases hc
    · have htake : r.takeWhile isBareKeyChar = [] := by
        cases r with
        | nil => rfl
        | cons d r => rw [List.takeWhile_cons_of_neg (by simp [hr d rfl])]
      have hdrop : r.dropWhile isBareKeyChar = r := by
        cases r with
        | nil => rfl
        | cons d r => rw [List.dropWhile_cons_of_neg (by simp [hr d rfl])]
      rw [List.takeWhile_append_of_pos hbare, List.dropWhile_append_of_pos hbare, htake, hdrop,
        List.append_nil]
      simp [hct]
  · rw [heq, List.append_assoc, List.singleton_append, List.cons_append]
    exact basic_escaped 0 key.toList r

theorem isBlank_of_begins (hc : BeginsKey c) : isBlank c = false := by
  obtain hbare | rfl := hc
  · exact isBlank_eq_false (by decide) (by decide) hbare
  · decide

theorem skipBlanks_keyText (key : String) (t : List Char) :
    skipBlanks ((keyText key).toList ++ t) = (keyText key).toList ++ t := by
  obtain ⟨c, u, heq, hc⟩ := head_keyText key
  rw [heq, List.cons_append, skipBlanks_of_head (isBlank_of_begins hc)]

def pathText (path : List String) : List Char := (".".intercalate (path.map keyText)).toList

theorem pathText_singleton (key : String) : pathText [key] = (keyText key).toList := by
  simp [pathText]

theorem pathText_cons (key next : String) (path : List String) :
    pathText (key :: next :: path) = (keyText key).toList ++ '.' :: pathText (next :: path) := by
  simp [pathText, String.toList_intercalate]

theorem return_notMem_keyText (key : String) : '\r' ∉ (keyText key).toList := by
  obtain ⟨heq, -, hbare⟩ | heq := keyText_cases key <;> rw [heq]
  · exact fun hmem => absurd (hbare _ hmem) (by decide)
  · simp [return_notMem_escaped]

theorem return_notMem_pathText (path : List String) : '\r' ∉ pathText path := by
  match path with
  | [] => simp [pathText]
  | [key] => simpa [pathText_singleton] using return_notMem_keyText key
  | key :: next :: path =>
    rw [pathText_cons]
    simp [return_notMem_keyText, return_notMem_pathText (next :: path)]

theorem head_pathText (hne : path ≠ []) : ∃ c t, pathText path = c :: t ∧ BeginsKey c := by
  match path with
  | [] => exact (hne rfl).elim
  | [key] => simpa [pathText_singleton] using head_keyText key
  | key :: next :: path =>
    obtain ⟨c, t, heq, hc⟩ := head_keyText key
    exact ⟨c, _, by rw [pathText_cons, heq, List.cons_append], hc⟩

/-- A dotted key is read back up to what cannot belong to it. -/
theorem takeKey_path {room : Nat} (hne : path ≠ []) (hroom : path.length ≤ room)
    (hbare : ∀ c ∈ r.head?, isBareKeyChar c = false) (hdot : ∀ t, skipBlanks r ≠ '.' :: t) :
    takeKey room (pathText path ++ r) = some (path, skipBlanks r) := by
  induction path generalizing room with
  | nil => exact (hne rfl).elim
  | cons key path ih =>
    obtain ⟨room, rfl⟩ : ∃ n, room = n + 1 :=
      Nat.exists_eq_succ_of_ne_zero (Nat.ne_zero_of_lt (Nat.lt_of_lt_of_le (Nat.succ_pos _) hroom))
    cases path with
    | nil =>
      rw [pathText_singleton, takeKey, skipBlanks_keyText, takeSimpleKey_keyText key hbare]
      simp only [Option.bind_eq_bind, Option.bind_some, String.ofList_toList]
      rfl
    | cons next path =>
      have hdotted : ∀ c ∈ ('.' :: (pathText (next :: path) ++ r)).head?, isBareKeyChar c = false := by
        rintro c ⟨⟩
        decide
      rw [pathText_cons, List.append_assoc, List.cons_append, takeKey, skipBlanks_keyText,
        takeSimpleKey_keyText key hdotted]
      simp only [Option.bind_eq_bind, Option.bind_some, String.ofList_toList,
        skipBlanks_of_head (c := '.') (by decide),
        ih (List.cons_ne_nil _ _) (Nat.le_of_succ_le_succ hroom)]
      rfl

-- ---------------------------------------------------------------------------
-- Lines
-- ---------------------------------------------------------------------------

/-- Reading some lines takes a document that was read so far from `d` to `d'`, each line in one step
and by one character at least. Nothing in them is changed before they are read. -/
structure Advances (d : Draft) (lines : List Char) (d' : Draft) : Prop where
  steps : ∃ n ≤ lines.length, ∀ fuel r, takeLines (fuel + n) d (lines ++ r) = takeLines fuel d' r
  noReturn : '\r' ∉ lines
  noMark : lines.head? ≠ some '\ufeff'

namespace Advances

variable {d d' d'' : Draft} {lines lines' : List Char}

theorem refl (d : Draft) : Advances d [] d :=
  ⟨⟨0, Nat.le_refl 0, fun _ _ => rfl⟩, List.not_mem_nil, by simp⟩

theorem trans (h : Advances d lines d') (h' : Advances d' lines' d'') :
    Advances d (lines ++ lines') d'' := by
  obtain ⟨n, hn, hlines⟩ := h.steps
  obtain ⟨m, hm, hlines'⟩ := h'.steps
  refine ⟨⟨m + n, ?_, fun fuel r => ?_⟩, ?_, ?_⟩
  · rw [List.length_append]
    omega
  · rw [List.append_assoc, ← Nat.add_assoc, hlines, hlines']
  · simp [h.noReturn, h'.noReturn]
  · cases lines with
    | nil => exact h'.noMark
    | cons c lines => exact h.noMark

theorem of_line {c : Char} {line : List Char} (hmark : c ≠ '\ufeff') (hreturn : '\r' ∉ c :: line)
    (h : ∀ fuel r, takeLines (fuel + 1) d (c :: line ++ r) = takeLines fuel d' r) :
    Advances d (c :: line) d' :=
  ⟨⟨1, Nat.succ_pos _, h⟩, hreturn, by simpa using hmark⟩

theorem blank (d : Draft) : Advances d ['\n'] d := of_line (by decide) (by decide) fun _ _ => rfl

end Advances

theorem endLine?_break (r : List Char) : endLine? ('\n' :: r) = some r := rfl

theorem Table.add_of_new {t : Table} (hnew : key ∉ t.map Prod.fst) (v : Value) :
    t.add key v = some (t ++ [(key, v)]) := by
  rw [Table.add, if_neg]
  simpa [List.any_eq_true] using hnew

theorem addAt_singleton {entries : Table} (hnew : key ∉ entries.map Prod.fst) (v : Value) :
    addAt entries [key] v = some (entries ++ [(key, v)]) := by
  simp [addAt, Table.addDotted, Table.descend, Table.add_of_new hnew v]

theorem takeKey_line (key : String) (r : List Char) :
    takeKey (depthLimit - 1) ((keyText key).toList ++ ' ' :: '=' :: r) = some ([key], '=' :: r) := by
  rw [← pathText_singleton]
  refine takeKey_path (List.cons_ne_nil _ _) (by simp [depthLimit]) ?_ ?_
  · rintro c ⟨⟩
    decide
  · rintro t ⟨⟩

theorem takeAssignment_line {d : Draft} (hv : v.Plain) (hnew : key ∉ d.entries.map Prod.fst)
    (r : List Char) : takeAssignment d ((keyText key ++ " = " ++ v.text).toList ++ '\n' :: r) =
      some ({ d with entries := d.entries ++ [(key, v)] }, r) := by
  obtain ⟨c, t, hct, hc⟩ := head_text hv
  have hvalue (fuel : Nat) : takeValue (fuel + 1) (depthLimit - 1)
      (skipBlanks (' ' :: (v.text.toList ++ '\n' :: r))) = some (v, '\n' :: r) := by
    have hskip : skipBlanks (' ' :: (v.text.toList ++ '\n' :: r)) = v.text.toList ++ '\n' :: r := by
      rw [hct, List.cons_append]
      exact skipBlanks_of_head hc _
    rw [hskip, takeValue_text hv]
  have hline : (keyText key ++ " = " ++ v.text).toList ++ '\n' :: r =
      (keyText key).toList ++ ' ' :: '=' :: ' ' :: (v.text.toList ++ '\n' :: r) := by
    simp [String.toList_append]
  rw [takeAssignment, hline, takeKey_line]
  simp only [Option.bind_eq_bind, Option.bind_some, hvalue, endLine?_break, addAt_singleton hnew]
  rfl

theorem ne_of_begins (hc : BeginsKey c) : c ≠ '\n' ∧ c ≠ '#' ∧ c ≠ '[' ∧ c ≠ '\ufeff' := by
  obtain hbare | rfl := hc
  · refine ⟨?_, ?_, ?_, ?_⟩ <;>
    · rintro rfl
      cases hbare
  · decide

theorem takeLines_of_begins (hc : BeginsKey c) (fuel : Nat) (d : Draft) (t : List Char) :
    takeLines (fuel + 1) d (c :: t) =
      (takeAssignment d (c :: t)).bind fun p => takeLines fuel p.1 p.2 := by
  have hne := ne_of_begins hc
  rw [takeLines, skipBlanks_of_head (isBlank_of_begins hc)]
  split
  case h_5 => rfl
  all_goals simp_all

theorem Advances.assignment {d : Draft} (hv : v.Plain) (hnew : key ∉ d.entries.map Prod.fst) :
    Advances d ((keyText key ++ " = " ++ v.text).toList ++ ['\n'])
      { d with entries := d.entries ++ [(key, v)] } := by
  have hreturn : '\r' ∉ (keyText key ++ " = " ++ v.text).toList ++ ['\n'] := by
    simp [String.toList_append, return_notMem_keyText, return_notMem_text hv]
  have hline := takeAssignment_line hv hnew
  obtain ⟨c, t, hct, hc⟩ := head_keyText key
  rw [String.toList_append, String.toList_append, hct] at hline hreturn ⊢
  simp only [List.cons_append] at hline hreturn ⊢
  refine .of_line (ne_of_begins hc).2.2.2 hreturn fun fuel r => ?_
  rw [List.cons_append, takeLines_of_begins hc, List.append_assoc, List.singleton_append, hline r]
  rfl

def headerLine (path : List String) : List Char := '[' :: (pathText path ++ [']', '\n'])

theorem takeHeader_line {d d' : Draft} (hne : path ≠ []) (hroom : path.length < depthLimit)
    (hopen : d.openTable path = some d') (r : List Char) :
    takeHeader d (pathText path ++ ']' :: '\n' :: r) = some (d', r) := by
  have hkey : takeKey (depthLimit - 1) (pathText path ++ ']' :: '\n' :: r) =
      some (path, ']' :: '\n' :: r) := by
    refine takeKey_path hne (Nat.le_sub_one_of_lt hroom) ?_ ?_
    · rintro c ⟨⟩
      decide
    · rintro t ⟨⟩
  obtain ⟨c, t, hct, hc⟩ := head_pathText hne
  rw [hct, List.cons_append] at hkey ⊢
  rw [takeHeader.eq_def]
  split
  · next heq =>
    cases heq
    exact ((ne_of_begins hc).2.2.1 rfl).elim
  · simp only [hkey, Option.bind_eq_bind, Option.bind_some, hopen, endLine?_break]
    rfl

theorem Advances.header {d d' : Draft} (hne : path ≠ []) (hroom : path.length < depthLimit)
    (hopen : d.openTable path = some d') : Advances d (headerLine path) d' := by
  have hreturn : '\r' ∉ headerLine path := by simp [headerLine, return_notMem_pathText]
  refine .of_line (by decide) hreturn fun fuel r => ?_
  have hline := takeHeader_line hne hroom hopen r
  rw [List.cons_append, List.append_assoc, takeLines,
    skipBlanks_of_head (c := '[') (by decide)]
  simp only [List.cons_append, List.nil_append, hline, Option.bind_eq_bind, Option.bind_some]

end GraphRpc.Toml
