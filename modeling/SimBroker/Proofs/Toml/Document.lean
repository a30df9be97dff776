import SimBroker.Proofs.Toml.Scalar

/-!
# Reading TOML documents back

A document of sections is written line by line: the header of a section, its fields, and an empty
line before the next section.  Each line is read as the statement that it was written for, and the
statements define the tables that were written, without the fields that have no value.

## Main definitions

* `Toml.IsLine`, `Toml.Lines`: a line that is read as a statement, and a text of such lines
* `Toml.AreKeys`, `Toml.IsTable`: names that differ and are keys, and entries under such names
* `Toml.present`: the entries that have a value

## Main results

* `Toml.Lines.statements?`: the lines of a text are read as their statements
* `Toml.Document.foldlM_sections`: what the statements of sections define
* `Toml.ofChars?_documentChars`: a document of sections is read back
-/

namespace SimBroker

namespace Toml

variable {c : Char} {cs rest : List Char} {fuel : Nat} {k : String} {j : Json}

/-! ## Keys -/

/-- A name that is written as a key without quotes. -/
def IsKey (k : String) : Prop := k.toList ≠ [] ∧ k.toList.all isBare

instance (k : String) : Decidable (IsKey k) := by unfold IsKey; infer_instance

theorem ne_of_isBare {d : Char} (hc : isBare c) (hd : isBare d = false) : c ≠ d := by
  rintro rfl
  rw [hd] at hc
  exact nomatch hc

theorem IsKey.forall_isBare (h : IsKey k) : ∀ c ∈ k.toList, isBare c := List.all_eq_true.mp h.2

theorem IsKey.exists_eq_cons (h : IsKey k) :
    ∃ c cs, k.toList = c :: cs ∧ isBare c := by
  obtain ⟨c, cs, hcs⟩ := List.exists_cons_of_ne_nil h.1
  exact ⟨c, cs, hcs, h.forall_isBare c (hcs ▸ List.mem_cons_self)⟩

theorem isSpace_of_isBare (h : isBare c) : isSpace c = false := by
  rw [isSpace, beq_eq_false_iff_ne.mpr (ne_of_isBare h rfl),
    beq_eq_false_iff_ne.mpr (ne_of_isBare h rfl)]
  rfl

theorem IsKey.skipSpace_append (h : IsKey k) : skipSpace (k.toList ++ rest) = k.toList ++ rest := by
  obtain ⟨c, cs, hcs, hc⟩ := h.exists_eq_cons
  rw [hcs]
  exact skipSpace_cons (isSpace_of_isBare hc)

/-- A key is read up to the first character that no key has. -/
theorem keyPart?_append (h : IsKey k) (hc : isBare c = false) :
    keyPart? (k.toList ++ c :: cs) = some (k, c :: cs) := by
  have htake : (k.toList ++ c :: cs).takeWhile isBare = k.toList := by
    rw [List.takeWhile_append_of_pos h.forall_isBare, List.takeWhile_cons_of_neg (by simp [hc]),
      List.append_nil]
  have hdrop : (k.toList ++ c :: cs).dropWhile isBare = c :: cs := by
    rw [List.dropWhile_append_of_pos h.forall_isBare, List.dropWhile_cons_of_neg (by simp [hc])]
  obtain ⟨d, ds, hds, hd⟩ := h.exists_eq_cons
  rw [keyPart?.eq_def]
  -- a bare character is no quote, so the part is not a string
  split
  · next heq =>
    rw [hds] at heq
    exact absurd (List.cons.inj heq).1 (ne_of_isBare hd rfl)
  · next heq =>
    rw [hds] at heq
    exact absurd (List.cons.inj heq).1 (ne_of_isBare hd rfl)
  · rw [htake, hdrop]
    show (if k.toList.isEmpty then none else some (String.ofList k.toList, c :: cs)) = _
    rw [String.ofList_toList, if_neg (by simp [h.1])]

/-- A key of one part. -/
theorem key?_append {n : Nat} {d : Char} {ds : List Char} (h : IsKey k) (hc : isBare c = false)
    (hskip : skipSpace (c :: cs) = d :: ds) (hd : d ≠ '.') :
    key? (n + 1) (k.toList ++ c :: cs) = some ([k], d :: ds) := by
  rw [key?, h.skipSpace_append, keyPart?_append h hc]
  simp only [Option.bind_eq_bind, Option.bind_some, hskip]
  split
  · next heq => exact absurd (List.cons.inj heq).1 hd
  · rfl

/-! ## Lines -/

/-- A line that is read as a statement, or as none. -/
structure IsLine (cs : List Char) (statement : Option Statement) : Prop where
  /-- It is not empty and has no byte order mark in front. -/
  exists_eq_cons : ∃ c tail, cs = c :: tail ∧ c ≠ '\uFEFF'
  skipSpace_append (rest : List Char) : skipSpace (cs ++ rest) = cs ++ rest
  statement? (rest : List Char) : statement? (cs ++ rest) = some (statement, rest)

theorem isLine_blank : IsLine ['\n'] none where
  exists_eq_cons := ⟨_, _, rfl, by decide⟩
  skipSpace_append _ := skipSpace_cons rfl
  statement? _ := rfl

theorem isLine_header (h : IsKey k) :
    IsLine ('[' :: k.toList ++ [']', '\n']) (some (.openTable [k])) where
  exists_eq_cons := ⟨_, _, rfl, by decide⟩
  skipSpace_append _ := skipSpace_cons rfl
  statement? rest := by
    obtain ⟨c, cs, hcs, hc⟩ := h.exists_eq_cons
    have hkey : key? maxDepth (k.toList ++ ']' :: '\n' :: rest) = some ([k], ']' :: '\n' :: rest) :=
      key?_append h rfl (skipSpace_cons rfl) (by decide)
    rw [List.append_assoc]
    show Toml.statement? ('[' :: (k.toList ++ ']' :: '\n' :: rest)) = _
    rw [Toml.statement?.eq_def]
    -- no second bracket follows, so the header is not one of an array of tables
    split
    · next heq =>
      rw [hcs] at heq
      exact absurd (List.cons.inj (List.cons.inj heq).2).1 (ne_of_isBare hc rfl)
    · next heq =>
      rw [← (List.cons.inj heq).2, hkey]
      rfl
    · next _ heq => exact absurd rfl (heq _)

/-- A key does not end a line. -/
theorem IsKey.lineEnd?_append (h : IsKey k) : lineEnd? (k.toList ++ rest) = none := by
  obtain ⟨c, cs, hcs, hc⟩ := h.exists_eq_cons
  rw [lineEnd?, h.skipSpace_append, hcs, List.cons_append]
  have hcomment : c ≠ '#' := ne_of_isBare hc rfl
  have hbreak : c ≠ '\n' := ne_of_isBare hc rfl
  have hreturn : c ≠ '\r' := ne_of_isBare hc rfl
  simp [hcomment, newLine?, hbreak, hreturn]

theorem isLine_field {cs : List Char} (hk : IsKey k) (hj : Written j cs) :
    IsLine (k.toList ++ [' ', '=', ' '] ++ cs ++ ['\n']) (some (.assign [k] (ofScalar j))) where
  exists_eq_cons := by
    obtain ⟨c, tail, htail, hc⟩ := hk.exists_eq_cons
    exact ⟨c, tail ++ [' ', '=', ' '] ++ cs ++ ['\n'], by rw [htail]; rfl, ne_of_isBare hc rfl⟩
  skipSpace_append rest := by
    simp only [List.append_assoc]
    exact hk.skipSpace_append
  statement? rest := by
    have htext : k.toList ++ [' ', '=', ' '] ++ cs ++ ['\n'] ++ rest =
        k.toList ++ ' ' :: '=' :: ' ' :: (cs ++ '\n' :: rest) := by simp
    have hkey (tail : List Char) : key? maxDepth (k.toList ++ ' ' :: '=' :: tail) =
        some ([k], '=' :: tail) :=
      key?_append hk rfl rfl (by decide)
    have hvalue : skipSpace (' ' :: (cs ++ '\n' :: rest)) = cs ++ '\n' :: rest :=
      hj.skipSpace_append _
    obtain ⟨c, tail, htail, hc⟩ := hk.exists_eq_cons
    rw [htext, Toml.statement?.eq_def]
    -- a key begins with no bracket, and the line does not end before it
    split
    · next heq =>
      rw [htail] at heq
      exact absurd (List.cons.inj heq).1 (ne_of_isBare hc rfl)
    · next heq =>
      rw [htail] at heq
      exact absurd (List.cons.inj heq).1 (ne_of_isBare hc rfl)
    · rw [hk.lineEnd?_append]
      simp only [hkey, Option.bind_eq_bind, Option.bind_some, mark?, if_true, hvalue]
      rw [hj.value?]
      rfl

/-- A text of lines that are read as the statements. -/
inductive Lines : List Char → List Statement → Prop
  | nil : Lines [] []
  | cons {cs rest : List Char} {statement : Option Statement} {statements : List Statement} :
    IsLine cs statement → Lines rest statements →
      Lines (cs ++ rest) (statement.toList ++ statements)

namespace Lines

variable {cs ds : List Char} {statements others : List Statement}

theorem append (h : Lines cs statements) (h' : Lines ds others) :
    Lines (cs ++ ds) (statements ++ others) := by
  induction h with
  | nil => exact h'
  | cons hline _ ih =>
    rw [List.append_assoc, List.append_assoc]
    exact .cons hline ih

/-- The lines of a text are read as their statements. -/
theorem statements? (h : Lines cs statements) (hfuel : cs.length < fuel) :
    statements? fuel cs = some statements := by
  induction h generalizing fuel with
  | nil =>
    obtain ⟨n, rfl⟩ := Nat.exists_eq_add_one_of_ne_zero (Nat.ne_of_gt hfuel)
    rfl
  | @cons line rest statement statements hline _ ih =>
    obtain ⟨n, rfl⟩ := Nat.exists_eq_add_one_of_ne_zero (Nat.ne_of_gt (Nat.zero_lt_of_lt hfuel))
    obtain ⟨c, tail, htail, -⟩ := hline.exists_eq_cons
    have hrest : rest.length < n := by
      rw [htail] at hfuel
      simp only [List.length_append, List.length_cons] at hfuel
      omega
    have hread := hline.statement? rest
    rw [Toml.statements?, hline.skipSpace_append]
    split
    · next heq =>
      rw [htail] at heq
      exact nomatch heq
    · rw [hread]
      simp only [Option.bind_eq_bind, Option.bind_some, ih hrest]
      rfl

theorem ofChars? (h : Lines cs statements) : ofChars? cs = Document.run? statements := by
  have hread : Toml.statements? (cs.length + 1) cs = some statements :=
    h.statements? (Nat.lt_succ_self _)
  have hmark : ∀ tail, cs ≠ '\uFEFF' :: tail := by
    rintro tail heq
    cases h with
    | nil => exact nomatch heq
    | cons hline _ =>
      obtain ⟨c, tail, rfl, hc⟩ := hline.exists_eq_cons
      exact hc (List.cons.inj heq).1
  rw [Toml.ofChars?, hread]
  · rfl
  · exact hmark

/-- Texts one after another, with an empty line between them. -/
theorem intersperse {α : Type} {statements : α → List Statement} {xs : List α}
    {css : List (List Char)} (h : List.Forall₂ (fun x cs => Lines cs (statements x)) xs css) :
    Lines (css.intersperse ['\n']).flatten (xs.flatMap statements) := by
  induction h with
  | nil => exact .nil
  | @cons x cs xs css hx hxs ih =>
    cases hxs with
    | nil => simpa using hx
    | cons hy hys =>
      rw [List.intersperse_cons_cons, List.flatten_cons, List.flatten_cons, List.flatMap_cons]
      exact hx.append (.cons isLine_blank ih)

theorem flatten {α : Type} {statements : α → List Statement} {xs : List α}
    {css : List (List Char)} (h : List.Forall₂ (fun x cs => Lines cs (statements x)) xs css) :
    Lines css.flatten (xs.flatMap statements) := by
  induction h with
  | nil => exact .nil
  | cons hx _ ih => exact hx.append ih

end Lines

/-! ## The text of a record -/

/-- Names that differ and are keys. -/
def AreKeys (names : List String) : Prop := names.Nodup ∧ ∀ k ∈ names, IsKey k

instance (names : List String) : Decidable (AreKeys names) := by unfold AreKeys; infer_instance

/-- Entries under keys that differ, with values of a kind. -/
structure IsTable (P : Json → Prop) (es : List (String × Json)) : Prop where
  areKeys : AreKeys (es.map Prod.fst)
  kind : ∀ e ∈ es, P e.2

namespace IsTable

variable {P : Json → Prop} {es : List (String × Json)} {e : String × Json}

theorem nodup (h : IsTable P es) : (es.map Prod.fst).Nodup := h.areKeys.1

theorem isKey (h : IsTable P es) (he : e ∈ es) : IsKey e.1 :=
  h.areKeys.2 e.1 (List.mem_map_of_mem he)

end IsTable

/-- The entries that have a value. -/
def present (es : List (String × Json)) : List (String × Json) := es.filter fun e => isPresent e.2

/-- The statement of a field. -/
def assignOf (field : String × Json) : Statement := .assign [field.1] (ofScalar field.2)

/-- The statements of a section. -/
def sectionOf (entry : String × Json) : List Statement :=
  .openTable [entry.1] :: (present entry.2.members).map assignOf

/-- What is written for every element is written for the list. -/
theorem exists_mapM_eq_some {α β : Type} {f : α → Option β} {P : α → β → Prop} {xs : List α}
    (h : ∀ x ∈ xs, ∃ y, f x = some y ∧ P x y) :
    ∃ ys, xs.mapM f = some ys ∧ List.Forall₂ P xs ys := by
  induction xs with
  | nil => exact ⟨[], rfl, .nil⟩
  | cons x xs ih =>
    obtain ⟨⟨y, hy, hP⟩, hxs⟩ := List.forall_mem_cons.mp h
    obtain ⟨ys, hys, hPs⟩ := ih hxs
    exact ⟨y :: ys, by rw [List.mapM_cons, hy, hys]; rfl, .cons hP hPs⟩

theorem exists_fieldChars? {field : String × Json} (hk : IsKey field.1) (hj : IsScalar field.2) :
    ∃ cs, fieldChars? field = some cs ∧ Lines cs ((present [field]).map assignOf) := by
  obtain ⟨k, j⟩ := field
  by_cases hpresent : isPresent j
  · obtain ⟨cs, hcs⟩ := exists_written hj hpresent
    refine ⟨k.toList ++ [' ', '=', ' '] ++ cs ++ ['\n'], ?_, ?_⟩
    · rw [fieldChars?.eq_def]
      split
      · next hnull =>
        rw [show j = .null from hnull] at hpresent
        exact nomatch hpresent
      · rw [hcs.scalarChars?]
        rfl
    · rw [present, List.filter_cons_of_pos (by exact hpresent)]
      have := Lines.cons (isLine_field hk hcs) .nil
      rwa [List.append_nil] at this
  · cases hj with
    | null => exact ⟨[], rfl, .nil⟩
    | str | int | bool => exact absurd rfl hpresent

theorem exists_sectionChars? {entry : String × Json} (hk : IsKey entry.1)
    (h : IsTable IsScalar entry.2.members) :
    ∃ cs, sectionChars? entry = some cs ∧ Lines cs (sectionOf entry) := by
  obtain ⟨lines, hlines, hread⟩ := exists_mapM_eq_some fun field hfield =>
    exists_fieldChars? (h.isKey hfield) (h.kind field hfield)
  refine ⟨'[' :: entry.1.toList ++ [']', '\n'] ++ lines.flatten, ?_, ?_⟩
  · rw [sectionChars?, hlines]
    rfl
  · have hfields : (entry.2.members.flatMap fun field => (present [field]).map assignOf) =
        (present entry.2.members).map assignOf := by
      simp only [present, ← List.map_flatMap, ← List.filter_flatMap, List.flatMap_singleton']
    rw [sectionOf, ← hfields]
    exact Lines.cons (isLine_header hk) (Lines.flatten hread)

theorem exists_documentChars? {record : Json}
    (h : IsTable (fun j => IsTable IsScalar j.members) record.members) :
    ∃ cs, documentChars? record = some cs ∧ Lines cs (record.members.flatMap sectionOf) := by
  obtain ⟨css, hcss, hread⟩ := exists_mapM_eq_some fun entry hentry =>
    exists_sectionChars? (h.isKey hentry) (h.kind entry hentry)
  refine ⟨_, ?_, Lines.intersperse hread⟩
  rw [documentChars?, hcss]
  rfl

/-! ## What the statements define -/

namespace Entries

variable {es tail : Entries} {f : Option Node → Option Node}

theorem alter?_append (h : hasKey k es = false) :
    alter? k f (es ++ tail) = (alter? k f tail).map (es ++ ·) := by
  induction es with
  | nil => simp
  | cons e es ih =>
    rw [hasKey, List.any_cons, Bool.or_eq_false_iff, decide_eq_false_iff_not] at h
    rw [List.cons_append, alter?, if_neg h.1, ih h.2, Option.map_map]
    rfl

theorem alter?_new (h : hasKey k es = false) :
    alter? k f es = (f none).map fun n => es ++ [(k, n)] := by
  have happend : alter? k f (es ++ []) = (alter? k f []).map (es ++ ·) := alter?_append h
  rw [List.append_nil] at happend
  rw [happend, alter?, Option.map_map]
  rfl

/-- A header opens a new table behind the others. -/
theorem openTable?_append (h : hasKey k es = false) :
    es.openTable? [k] = some (es ++ [(k, .table .header [])]) := by
  rw [openTable?]
  exact alter?_new h

/-- A field goes to the end of the open table. -/
theorem assign?_append {fields : Entries} {field : String} {v : Toml} (h : hasKey k es = false)
    (hfield : hasKey field fields = false) :
    within? (assign? v true [field]) [k] (es ++ [(k, .table .header fields)]) =
      some (es ++ [(k, .table .header (fields ++ [(field, .value v)]))]) := by
  rw [within?, alter?_append h, alter?, if_pos rfl]
  simp only [within?, assign?, hfield]
  rfl

theorem hasKey_eq_false : hasKey k es = false ↔ k ∉ es.map Prod.fst := by
  simp only [hasKey, List.any_eq_false, decide_eq_true_eq, List.mem_map, not_exists, not_and]

end Entries

/-- The node of a field. -/
def valueOf (field : String × Json) : String × Node := (field.1, .value (ofScalar field.2))

/-- The node of a section. -/
def tableOf (entry : String × Json) : String × Node :=
  (entry.1, .table .header ((present entry.2.members).map valueOf))

namespace Document

variable {es : Entries} {fields sections : List (String × Json)} {path : List String}

/-- The fields of a section go to its table one by one. -/
theorem foldlM_fields {defined : Entries} (hk : es.hasKey k = false)
    (hnodup : (defined.map Prod.fst ++ fields.map Prod.fst).Nodup) :
    (fields.map assignOf).foldlM step? ⟨es ++ [(k, .table .header defined)], [k]⟩ =
      some ⟨es ++ [(k, .table .header (defined ++ fields.map valueOf))], [k]⟩ := by
  -- the fields that are defined already grow by one in each round
  induction fields generalizing defined with
  | nil => simp
  | cons field fields ih =>
    have hfield : Entries.hasKey field.1 defined = false :=
      Entries.hasKey_eq_false.mpr fun hmem =>
        (List.nodup_append.mp hnodup).2.2 _ hmem _ List.mem_cons_self rfl
    have hstep : step? ⟨es ++ [(k, .table .header defined)], [k]⟩ (assignOf field) =
        some ⟨es ++ [(k, .table .header (defined ++ [valueOf field]))], [k]⟩ := by
      rw [assignOf, step?, Entries.assign?_append hk hfield]
      rfl
    rw [List.map_cons, List.foldlM_cons, hstep]
    simp only [Option.bind_eq_bind, Option.bind_some]
    rw [ih (by simpa [valueOf] using hnodup), List.append_assoc]
    rfl

theorem foldlM_section {entry : String × Json} (hk : es.hasKey entry.1 = false)
    (hnodup : (entry.2.members.map Prod.fst).Nodup) :
    (sectionOf entry).foldlM step? ⟨es, path⟩ = some ⟨es ++ [tableOf entry], [entry.1]⟩ := by
  have hopen : step? ⟨es, path⟩ (.openTable [entry.1]) =
      some ⟨es ++ [(entry.1, .table .header [])], [entry.1]⟩ := by
    rw [step?, Entries.openTable?_append hk]
    rfl
  have hpresent : ((present entry.2.members).map Prod.fst).Nodup :=
    hnodup.sublist (List.filter_sublist.map _)
  rw [sectionOf, List.foldlM_cons, hopen]
  exact foldlM_fields hk hpresent

theorem foldlM_sections (hnodup : (es.map Prod.fst ++ sections.map Prod.fst).Nodup)
    (hfields : ∀ e ∈ sections, (e.2.members.map Prod.fst).Nodup) :
    ∃ path', (sections.flatMap sectionOf).foldlM step? ⟨es, path⟩ =
      some ⟨es ++ sections.map tableOf, path'⟩ := by
  induction sections generalizing es path with
  | nil => exact ⟨path, by simp⟩
  | cons entry sections ih =>
    obtain ⟨hentry, hfields⟩ := List.forall_mem_cons.mp hfields
    have hk : es.hasKey entry.1 = false :=
      Entries.hasKey_eq_false.mpr fun hmem =>
        (List.nodup_append.mp hnodup).2.2 _ hmem _ List.mem_cons_self rfl
    have hnodup : ((es ++ [tableOf entry]).map Prod.fst ++ sections.map Prod.fst).Nodup := by
      simpa [tableOf] using hnodup
    obtain ⟨path', hrest⟩ := ih hnodup hfields
    refine ⟨path', ?_⟩
    rw [List.flatMap_cons, List.foldlM_append, foldlM_section hk hentry]
    simpa using hrest

end Document

/-! ## The values of the tables -/

theorem entriesToJson_fields {fields : List (String × Json)}
    (h : ∀ e ∈ fields, IsScalar e.2 ∧ isPresent e.2) :
    entriesToJson (entriesToToml (fields.map valueOf)) = fields := by
  induction fields with
  | nil => rfl
  | cons field fields ih =>
    obtain ⟨⟨hj, hpresent⟩, h⟩ := List.forall_mem_cons.mp h
    show (field.1, (ofScalar field.2).toJson) :: entriesToJson (entriesToToml _) = _
    rw [ih h, toJson_ofScalar hj hpresent]

theorem toJson_tableOf {entry : String × Json} (h : IsTable IsScalar entry.2.members) :
    (tableOf entry).2.toToml.toJson = .obj (present entry.2.members) := by
  have hpresent : ∀ e ∈ present entry.2.members, IsScalar e.2 ∧ isPresent e.2 := fun e he =>
    have hmem := List.mem_filter.mp he
    ⟨h.kind e hmem.1, hmem.2⟩
  exact congrArg Json.obj (entriesToJson_fields hpresent)

theorem entriesToJson_sections {sections : List (String × Json)}
    (h : ∀ e ∈ sections, IsTable IsScalar e.2.members) :
    entriesToJson (entriesToToml (sections.map tableOf)) =
      sections.map fun e => (e.1, .obj (present e.2.members)) := by
  induction sections with
  | nil => rfl
  | cons entry sections ih =>
    obtain ⟨hentry, h⟩ := List.forall_mem_cons.mp h
    rw [List.map_cons, List.map_cons, ← ih h, ← toJson_tableOf hentry]
    rfl

/-- A document of sections is read back, without the fields that have no value. -/
theorem ofChars?_documentChars {record : Json}
    (h : IsTable (fun j => IsTable IsScalar j.members) record.members) :
    ∃ cs document, documentChars? record = some cs ∧ ofChars? cs = some document ∧
      document.toJson = .obj (record.members.map fun e => (e.1, .obj (present e.2.members))) := by
  obtain ⟨cs, hcs, hlines⟩ := exists_documentChars? h
  obtain ⟨path, hrun⟩ : ∃ path, (record.members.flatMap sectionOf).foldlM Document.step? {} =
      some ⟨record.members.map tableOf, path⟩ :=
    Document.foldlM_sections h.nodup fun e he => (h.kind e he).nodup
  refine ⟨cs, .table (entriesToToml (record.members.map tableOf)), hcs, ?_,
    congrArg Json.obj (entriesToJson_sections h.kind)⟩
  rw [hlines.ofChars?, Document.run?, hrun]
  rfl

end Toml

end SimBroker
