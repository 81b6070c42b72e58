import Mathlib
import GraphRpc.Proofs.Toml.Lines

/-!
# Documents are read as they were written

A table is written as its plain entries and then the tables in it, each behind a header. Reading goes
the same way: at each header the table that was open is entered at the end of the one around it. So
what is read when a table begins is a way down through tables of which each is the last of its own.
-/

namespace GraphRpc.Toml

variable {β : Type} {key : String} {v : Value}

-- ---------------------------------------------------------------------------
-- Ways down
-- ---------------------------------------------------------------------------

/-- The tables on the way down to one, each as the entries in front of the next and the key of it. -/
abbrev Way := List (Table × String)

namespace Way

def keys (way : Way) : List String := way.map Prod.snd

/-- The document with a table at the end of the way. -/
def plug : Way → Table → Table
  | [], t => t
  | (front, key) :: way, t => front ++ [(key, .table .header (plug way t))]

/-- No key on the way stands in front of its table. -/
def Clear (way : Way) : Prop := ∀ p ∈ way, p.2 ∉ p.1.map Prod.fst

theorem plug_append (way : Way) (front : Table) (key : String) (t : Table) :
    plug (way ++ [(front, key)]) t = plug way (front ++ [(key, .table .header t)]) := by
  induction way with
  | nil => rfl
  | cons p way ih => rw [List.cons_append, plug, plug, ih]

end Way

theorem Table.alter_append {front : Table} (hnew : key ∉ front.map Prod.fst)
    (f : Option Value → Option (β × Value)) (t : Table) :
    Table.alter f key (front ++ t) = (Table.alter f key t).map fun p => (p.1, front ++ p.2) := by
  induction front with
  | nil => simp
  | cons e front ih =>
    rw [List.map_cons, List.mem_cons, not_or] at hnew
    rw [List.cons_append, Table.alter, if_neg (Ne.symm hnew.1), ih hnew.2, Option.map_map]
    rfl

/-- A header goes down to the table at the end of the way. -/
theorem Table.descend_plug {way : Way} (hway : way.Clear) (f : Table → Option (β × Table))
    (origin : Origin) (t : Table) :
    Table.descend false (fun _ => f) way.keys origin (way.plug t) =
      (f t).map fun p => (p.1, way.plug p.2) := by
  induction way generalizing origin with
  | nil => simp [Way.keys, Way.plug, Table.descend]
  | cons p way ih =>
    obtain ⟨hp, hway⟩ := List.forall_mem_cons.1 hway
    change Table.descend false (fun _ => f) (p.2 :: Way.keys way) origin
      (p.1 ++ [(p.2, .table .header (Way.plug way t))]) = _
    rw [Table.descend, Table.alter_append hp, Table.alter, if_pos rfl]
    simp only [reduceCtorEq, Bool.false_eq_true, false_and, or_self, ↓reduceIte, ih hway, Option.map_map]
    rfl

namespace Draft

variable {d : Draft} {way : Way} {front : Table}

theorem alterParent_keys (hway : way.Clear) (key : String) (f : String → Table → Option (β × Table))
    (t : Table) : alterParent (way.keys ++ [key]) f (way.plug t) =
      (f key t).map fun p => (p.1, way.plug p.2) := by
  rw [alterParent, List.getLast?_concat, List.dropLast_concat, Option.bind_some,
    Table.descend_plug hway]

/-- A header under a new key closes what was open and opens an empty table. -/
theorem openTable_of_close (hclose : d.close = some (way.plug front)) (hway : way.Clear)
    (hnew : key ∉ front.map Prod.fst) : d.openTable (way.keys ++ [key]) =
      some { closed := way.plug front, path := way.keys ++ [key] } := by
  have hlookup : front.lookup key = none := by
    rw [List.lookup_eq_none_iff]
    intro e he
    rw [bne_iff_ne]
    rintro rfl
    exact hnew (List.mem_map_of_mem he)
  rw [openTable, hclose]
  simp only [Option.bind_eq_bind, Option.bind_some, alterParent_keys hway, hlookup]
  rfl

theorem close_opened (hway : way.Clear) (hnew : key ∉ front.map Prod.fst) (entries : Table) :
    close { closed := way.plug front, path := way.keys ++ [key], entries } =
      some (way.plug (front ++ [(key, .table .header entries)])) := by
  rw [close, if_neg (by simp), if_neg (by simp), alterParent_keys hway, Table.add_of_new hnew]
  rfl

end Draft

-- ---------------------------------------------------------------------------
-- Sections
-- ---------------------------------------------------------------------------

/-- A table as its plain entries and the tables in it. -/
def assemble (plains : Table) (subs : List (String × Table)) : Table :=
  plains ++ subs.map fun s => (s.1, .table .header s.2)

/-- Tables that are written in full: first the plain entries, and then the tables in them, less than
`room` below each other. A table that holds other tables has plain entries, as it has no header of
its own if not. -/
inductive Tidy : (room : Nat) → Table → Prop
  | assemble {plains : Table} {subs : List (String × Table)} (plain : ∀ e ∈ plains, e.2.Plain)
      (keys : (plains.map Prod.fst ++ subs.map Prod.fst).Nodup)
      (headed : ∀ s ∈ subs, plainLines s.2 = [] → s.2 = []) (within : ∀ s ∈ subs, Tidy room s.2) :
      Tidy (room + 1) (assemble plains subs)

theorem Tidy.plains {plains : Table} (hplain : ∀ e ∈ plains, e.2.Plain)
    (hkeys : (plains.map Prod.fst).Nodup) (room : Nat) : Tidy (room + 1) plains := by
  have h : Tidy (room + 1) (Toml.assemble plains []) :=
    .assemble hplain (by simpa using hkeys) nofun nofun
  rwa [Toml.assemble, List.map_nil, List.append_nil] at h

def sectionText (lines : List String) : List Char := (String.join (lines.map (· ++ "\n"))).toList

theorem sectionText_cons (line : String) (lines : List String) :
    sectionText (line :: lines) = line.toList ++ '\n' :: sectionText lines := by
  simp [sectionText]

theorem sectionText_nil : sectionText [] = [] := by simp [sectionText]

theorem plainLines_assemble {plains : Table} (hplain : ∀ e ∈ plains, e.2.Plain)
    (subs : List (String × Table)) : plainLines (assemble plains subs) =
      plains.map fun e => keyText e.1 ++ " = " ++ e.2.text := by
  induction plains with
  | nil =>
    induction subs with
    | nil => rfl
    | cons s subs ih => exact ih
  | cons e plains ih =>
    obtain ⟨key, v⟩ := e
    obtain ⟨he, hplain⟩ := List.forall_mem_cons.1 hplain
    rw [List.map_cons, ← ih hplain, assemble, List.cons_append, plainLines]
    · rfl
    · rintro origin entries rfl
      exact he

theorem sectionsIn_assemble {plains : Table} (hplain : ∀ e ∈ plains, e.2.Plain)
    (subs : List (String × Table)) (path : List String) : sectionsIn path (assemble plains subs) =
      subs.flatMap fun s => (Value.table .header s.2).sections (path ++ [s.1]) := by
  induction plains with
  | nil =>
    induction subs with
    | nil => rfl
    | cons s subs ih =>
      rw [List.flatMap_cons, ← ih]
      rfl
  | cons e plains ih =>
    obtain ⟨key, v⟩ := e
    obtain ⟨he, hplain⟩ := List.forall_mem_cons.1 hplain
    have hnone : v.sections (path ++ [key]) = [] := by
      cases v with
      | table => exact he.elim
      | _ => rfl
    rw [← ih hplain, assemble, List.cons_append, sectionsIn, hnone]
    rfl

theorem Advances.plains {d : Draft} {plains : Table} (hplain : ∀ e ∈ plains, e.2.Plain)
    (hkeys : (d.entries.map Prod.fst ++ plains.map Prod.fst).Nodup) :
    Advances d (sectionText (plains.map fun e => keyText e.1 ++ " = " ++ e.2.text))
      { d with entries := d.entries ++ plains } := by
  induction plains generalizing d with
  | nil =>
    rw [List.map_nil, sectionText_nil, List.append_nil]
    exact .refl d
  | cons e plains ih =>
    obtain ⟨he, hplain⟩ := List.forall_mem_cons.1 hplain
    have hnew : e.1 ∉ d.entries.map Prod.fst := by
      intro hmem
      exact (List.nodup_append.1 hkeys).2.2 _ hmem _ List.mem_cons_self rfl
    have hline := Advances.assignment he hnew
    have hrest := ih (d := { d with entries := d.entries ++ [e] }) hplain (by simpa using hkeys)
    rw [List.map_cons, sectionText_cons]
    simpa using hline.trans hrest

inductive Chain : Draft → List (List String) → Draft → Prop
  | nil : Chain d [] d
  | cons : Advances d (sectionText lines) d' → Chain d' rest d'' → Chain d (lines :: rest) d''

theorem Chain.append (h : Chain d a d') (h' : Chain d' b d'') : Chain d (a ++ b) d'' := by
  induction h with
  | nil => exact h'
  | cons hlines _ ih => exact .cons hlines (ih h')

/-- Sections stand behind one another with a blank line between them. -/
theorem Chain.advances (h : Chain d sections d') :
    Advances d (['\n'].intercalate (sections.map sectionText)) d' := by
  induction h with
  | nil => simpa using Advances.refl _
  | @cons d lines d' rest d'' hlines hrest ih =>
    cases rest with
    | nil =>
      cases hrest
      simpa using hlines
    | cons next rest =>
      rw [List.map_cons, List.map_cons, List.intercalate_cons_cons, List.append_assoc]
      exact hlines.trans ((Advances.blank d').trans ih)

-- ---------------------------------------------------------------------------
-- Tables
-- ---------------------------------------------------------------------------

/-- Wherever a table begins under a new key, its sections enter it there. -/
def Enters (room : Nat) (entries : Table) : Prop :=
  ∀ (d : Draft) (way : Way) (front : Table) (key : String), d.close = some (way.plug front) →
    way.Clear → key ∉ front.map Prod.fst → way.length + room < depthLimit →
    ∃ d', Chain d ((Value.table .header entries).sections (way.keys ++ [key])) d' ∧
      d'.close = some (way.plug (front ++ [(key, .table .header entries)]))

theorem chain_subs {room : Nat} {subs : List (String × Table)} (henters : ∀ s ∈ subs, Enters room s.2)
    {d : Draft} {way : Way} {front : Table} (hclose : d.close = some (way.plug front)) (hway : way.Clear)
    (hkeys : (front.map Prod.fst ++ subs.map Prod.fst).Nodup) (hroom : way.length + room < depthLimit) :
    ∃ d', Chain d (subs.flatMap fun s => (Value.table .header s.2).sections (way.keys ++ [s.1])) d' ∧
      d'.close = some (way.plug (assemble front subs)) := by
  induction subs generalizing d front with
  | nil => exact ⟨d, .nil, by simpa [assemble] using hclose⟩
  | cons s subs ih =>
    obtain ⟨hs, henters⟩ := List.forall_mem_cons.1 henters
    have hnew : s.1 ∉ front.map Prod.fst := fun hmem =>
      (List.nodup_append.1 hkeys).2.2 _ hmem _ List.mem_cons_self rfl
    obtain ⟨m, hchain, hm⟩ := hs d way front s.1 hclose hway hnew hroom
    obtain ⟨d', hchain', hd'⟩ := ih henters hm (by simpa using hkeys)
    refine ⟨d', ?_, ?_⟩
    · rw [List.flatMap_cons]
      exact hchain.append hchain'
    · rw [hd']
      simp [assemble]

theorem sections_assemble {plains : Table} {subs : List (String × Table)}
    (hplain : ∀ e ∈ plains, e.2.Plain)
    (hheaded : plainLines (assemble plains subs) = [] → assemble plains subs = [])
    (path : List String) :
    (Value.table .header (assemble plains subs)).sections path =
      (("[" ++ ".".intercalate (path.map keyText) ++ "]") ::
          plains.map fun e => keyText e.1 ++ " = " ++ e.2.text) ::
        subs.flatMap fun s => (Value.table .header s.2).sections (path ++ [s.1]) := by
  have hshown :
      ((plainLines (assemble plains subs)).isEmpty && !(assemble plains subs).isEmpty) = false := by
    by_cases hnone : plainLines (assemble plains subs) = []
    · rw [hheaded hnone]
      rfl
    · simp [hnone]
  rw [Value.sections, headed, hshown, if_neg Bool.false_ne_true, plainLines_assemble hplain,
    sectionsIn_assemble hplain]
  rfl

theorem sectionText_headed (path lines : List String) :
    sectionText (("[" ++ ".".intercalate (path.map keyText) ++ "]") :: lines) =
      headerLine path ++ sectionText lines := by
  rw [sectionText_cons, headerLine, pathText]
  simp [String.toList_append]

/-- A tidy table is entered where it begins. The induction is on the table, and so goes down one step
further at each level. -/
theorem Tidy.enters {room : Nat} {entries : Table} (h : Tidy room entries)
    (hheaded : plainLines entries = [] → entries = []) : Enters room entries := by
  induction h with
  | @assemble room plains subs hplain hkeys hhead _ ih =>
    intro d way front key hclose hway hnew hroom
    have hdepth : (way.keys ++ [key]).length < depthLimit := by
      simp only [Way.keys, List.length_append, List.length_map, List.length_singleton]
      omega
    have hheader := Advances.header (by simp) hdepth (Draft.openTable_of_close hclose hway hnew)
    have hplains := hheader.trans (Advances.plains hplain (List.nodup_append.1 hkeys).1)
    have hclose' := Draft.close_opened hway hnew ([] ++ plains)
    rw [List.nil_append, ← Way.plug_append] at hclose'
    have hway' : Way.Clear (way ++ [(front, key)]) :=
      List.forall_mem_append.2 ⟨hway, List.forall_mem_singleton.2 hnew⟩
    obtain ⟨d', hchain, hd'⟩ := chain_subs (fun s hs => ih s hs (hhead s hs)) hclose' hway' hkeys (by
      rw [List.length_append, List.length_singleton]
      omega)
    rw [Way.plug_append] at hd'
    rw [← sectionText_headed] at hplains
    refine ⟨d', ?_, hd'⟩
    rw [sections_assemble hplain hheaded]
    exact .cons hplains (by simpa [Way.keys] using hchain)

-- ---------------------------------------------------------------------------
-- Whole documents
-- ---------------------------------------------------------------------------

theorem unifyBreaks_of_noReturn {cs : List Char} (h : '\r' ∉ cs) : unifyBreaks cs = cs := by
  induction cs with
  | nil => rfl
  | cons c cs ih =>
    rw [List.mem_cons, not_or] at h
    rw [unifyBreaks.eq_def]
    split
    · next heq =>
      cases heq
      exact (h.1 rfl).elim
    · next heq =>
      cases heq
      rw [ih h.2]
    · next heq => cases heq

theorem skipMark_of_noMark {cs : List Char} (h : cs.head? ≠ some '\ufeff') : skipMark cs = cs := by
  rw [skipMark.eq_def]
  split
  · exact (h rfl).elim
  · rfl

theorem parse?_of_advances {text : String} {d : Draft} (h : Advances {} text.toList d) :
    parse? text = d.close := by
  obtain ⟨n, hn, hsteps⟩ := h.steps
  rw [parse?, skipMark_of_noMark h.noMark, unifyBreaks_of_noReturn h.noReturn]
  obtain ⟨fuel, hfuel⟩ : ∃ fuel, text.toList.length + 1 = fuel + 1 + n :=
    ⟨text.toList.length - n, by omega⟩
  have hread := hsteps (fuel + 1) []
  rw [List.append_nil] at hread
  rw [hfuel, hread]
  rfl

theorem toList_print (t : Table) : (print t).toList = ['\n'].intercalate
    (((if (plainLines t).isEmpty then [] else [plainLines t]) ++ sectionsIn [] t).map sectionText) := by
  simp only [print, String.toList_intercalate, List.map_map]
  rfl

/-- A document is read back as it was written. -/
theorem parse?_print {room : Nat} {t : Table} (h : Tidy room t) (hroom : room ≤ depthLimit) :
    parse? (print t) = some t := by
  cases h with
  | @assemble room plains subs hplain hkeys hhead hsubs =>
    have hfront : Chain {} (if (plainLines (Toml.assemble plains subs)).isEmpty then []
        else [plainLines (Toml.assemble plains subs)]) { entries := plains } := by
      rw [plainLines_assemble hplain]
      cases plains with
      | nil => exact .nil
      | cons e plains =>
        exact .cons (Advances.plains hplain (List.nodup_append.1 hkeys).1) .nil
    have hroot : Draft.close { entries := plains } = some (Way.plug [] plains) := rfl
    obtain ⟨d, hchain, hclose⟩ := chain_subs (fun s hs => (hsubs s hs).enters (hhead s hs)) hroot
      (List.forall_mem_nil _) hkeys (by simpa using Nat.lt_of_succ_le hroom)
    rw [parse?_of_advances (d := d), hclose]
    · rfl
    · rw [toList_print, sectionsIn_assemble hplain]
      exact (hfront.append hchain).advances

end GraphRpc.Toml
