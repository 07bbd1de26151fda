import IsaCloud.Database.BulkInsert
import IsaCloud.Support.SqlScanner

/-!
# Creating a table

`create_table` of the DuckDB client puts names and types into the text of a CREATE
TABLE. Names are checked as a whole, types by their first word only.
-/

namespace IsaCloud.Database

set_option autoImplicit false

open Support Support.Text Support.Python Support.SqlScanner

/-! ## The method -/

/-- `dtype.split("(")[0].split()[0]`. -/
def dataTypeWord (dtype : Str) : Except PyError Str :=
  match splitWords (dtype.takeWhile (· != cp '(')) [] with
  | [] => .error ⟨.indexError, lit "list index out of range"⟩
  | word :: _ => .ok word

def columnDefinition (e : Str × Str) : Str := e.1 ++ lit " " ++ e.2

def columnDefinitions : List (Str × Str) → Except PyError (List Str)
  | [] => .ok []
  | (col, dtype) :: entries =>
    match duckValidateIdentifier col (lit "column name") with
    | .error e => .error e
    | .ok validatedCol =>
      match dataTypeWord dtype with
      | .error e => .error e
      | .ok word =>
        match duckValidateIdentifier word (lit "data type") with
        | .error e => .error e
        | .ok _ => (columnDefinitions entries).map (columnDefinition (validatedCol, dtype) :: ·)

/-- What stands before the parenthesis. -/
def createTableHead (table : Str) : Str := lit "CREATE TABLE IF NOT EXISTS " ++ table ++ lit " "

/-- The text handed to `execute`, unless a name or a type is refused. -/
def createTableText (table : Str) (schema : Dict Str Str) : Except PyError Str :=
  match duckValidateIdentifier table (lit "table name") with
  | .error e => .error e
  | .ok validatedTable =>
    (columnDefinitions schema.entries).map fun columns =>
      createTableHead validatedTable ++ lit "(" ++ (lit ", ").intercalate columns ++ lit ")"

def createTable {F : Type} (table : Str) (schema : Dict Str Str) : DuckCode F :=
  match createTableText table schema with
  | .error _ => .ret (.done false)
  | .ok sql => .call (.statement ⟨sql, []⟩) fun
    | .error _ => .ret (.done false)
    | .ok _ => .ret (.done true)

/-! ## What DuckDB reads -/

/-- An item that begins with one of these words is no column definition. -/
def tableElementWords : List Str :=
  [lit "constraint", lit "primary", lit "unique", lit "check", lit "foreign", lit "like"]

def leadingName (s : Str) : Str := s.takeWhile fun c => isLetter c || isDigit c

def isTableElement (s : Str) : Bool := decide (lower (leadingName s) ∈ tableElementWords)

section Reading
variable [NameChars]

/-- The text is one CREATE TABLE of the table, and its list is a column definition for each entry and nothing else. -/
structure CreatesOnly (table : Str) (entries : List (Str × Str)) (text : Str) : Prop where
  whole : ∃ body, text = createTableHead table ++ lit "(" ++ body ∧
    readList body = some (entries.map columnDefinition)
  /-- Nothing that stands before the list is open there. -/
  head : scan start (createTableHead table) = some start
  columns : ∀ e ∈ entries, isTableElement (columnDefinition e) = false

/-! ## Names -/

omit [NameChars] in
theorem isLetter_eq (c : CodePoint) : isLetter c = isIdentifierStart c := by
  rw [isLetter, isIdentifierStart, Bool.decide_or, Bool.decide_or, Bool.or_assoc]

theorem isName_identifier {c : CodePoint} (h : (isIdentifierStart c || isDigit c) = true) : NameChars.isName c = true := by
  have hascii : c.val < 0x80 := by
    rw [← isLetter_eq, Bool.or_eq_true, isLetter, isDigit, decide_eq_true_eq, decide_eq_true_eq] at h
    omega
  rw [NameChars.isName_ascii c hascii, isLetter_eq, h, Bool.true_or]

/-- A letter and further characters of a name; `$` admits a line feed after them. -/
theorem matchesIdentifier_cases {name : Str} (h : matchesIdentifier name = true) :
    ∃ c s, isLetter c = true ∧ (∀ d ∈ s, NameChars.isName d = true) ∧ (name = c :: s ∨ name = c :: s ++ [10]) := by
  have hidentifier : ∀ {x : Str}, isIdentifier x = true →
      ∃ c s, isLetter c = true ∧ (∀ d ∈ s, NameChars.isName d = true) ∧ x = c :: s := by
    intro x hx
    cases x with
    | nil => cases hx
    | cons c s =>
      rw [isIdentifier, Bool.and_eq_true, List.all_eq_true] at hx
      exact ⟨c, s, (isLetter_eq c).trans hx.1, fun d hd => isName_identifier (hx.2 d hd), rfl⟩
  rw [matchesIdentifier, Bool.or_eq_true, Bool.and_eq_true, decide_eq_true_eq] at h
  rcases h with h | ⟨hlast, h⟩
  · obtain ⟨c, s, hc, hs, rfl⟩ := hidentifier h
    exact ⟨c, s, hc, hs, .inl rfl⟩
  · obtain ⟨c, s, hc, hs, hinit⟩ := hidentifier h
    obtain ⟨init, rfl⟩ := List.getLast?_eq_some_iff.mp hlast
    rw [List.dropLast_concat] at hinit
    exact ⟨c, s, hc, hs, .inr (congrArg (· ++ [10]) hinit)⟩

/-- A name leaves nothing open. -/
theorem scan_matchesIdentifier {name : Str} (h : matchesIdentifier name = true) :
    scan start (name ++ lit " ") = some start := by
  obtain ⟨c, s, hc, hs, rfl | rfl⟩ := matchesIdentifier_cases h
  · exact scan_name hc hs rfl
  · rw [scan_append, scan_name hc hs rfl]
    exact scan_blanks fun c hc => List.mem_singleton.mp hc ▸ rfl

theorem bare_matchesIdentifier {name : Str} (s : Str) (h : matchesIdentifier name = true) : Bare (name ++ s) := by
  obtain ⟨c, tail, hc, _, hname⟩ := matchesIdentifier_cases h
  have hblank : isBlank c = false := by
    have hval : (65 ≤ c.val ∧ c.val ≤ 90) ∨ (97 ≤ c.val ∧ c.val ≤ 122) ∨ c.val = 95 := of_decide_eq_true hc
    exact decide_eq_false (by omega)
  rcases hname with rfl | rfl
  · exact ⟨c, tail ++ s, rfl, hblank⟩
  · exact ⟨c, tail ++ [10] ++ s, rfl, hblank⟩

omit [NameChars] in
theorem duckValidateIdentifier_ok {name kind validated : Str} (h : duckValidateIdentifier name kind = .ok validated) :
    matchesIdentifier name = true ∧ validated = name := by
  unfold duckValidateIdentifier validateName at h
  split_ifs at h with hempty hmatch hlength
  cases h
  exact ⟨by simpa using hmatch, rfl⟩

/-! ## The text -/

omit [NameChars] in
/-- What passes keeps its spelling. -/
theorem columnDefinitions_ok {entries : List (Str × Str)} {columns : List Str}
    (h : columnDefinitions entries = .ok columns) :
    columns = entries.map columnDefinition ∧ ∀ e ∈ entries, matchesIdentifier e.1 = true := by
  induction entries generalizing columns with
  | nil =>
    cases h
    exact ⟨rfl, by nofun⟩
  | cons e entries ih =>
    obtain ⟨col, dtype⟩ := e
    rw [columnDefinitions] at h
    cases hcol : duckValidateIdentifier col (lit "column name") with
    | error e => rw [hcol] at h; cases h
    | ok validatedCol =>
      obtain ⟨hmatch, rfl⟩ := duckValidateIdentifier_ok hcol
      rw [hcol] at h
      cases hword : dataTypeWord dtype with
      | error e => simp only [hword] at h; cases h
      | ok word =>
        simp only [hword] at h
        cases htype : duckValidateIdentifier word (lit "data type") with
        | error e => simp only [htype] at h; cases h
        | ok _ =>
          simp only [htype] at h
          cases hrest : columnDefinitions entries with
          | error e => rw [hrest] at h; cases h
          | ok rest =>
            rw [hrest] at h
            cases h
            obtain ⟨rfl, hmatches⟩ := ih hrest
            exact ⟨rfl, List.forall_mem_cons.mpr ⟨hmatch, hmatches⟩⟩

omit [NameChars] in
theorem createTableText_ok {table : Str} {schema : Dict Str Str} {text : Str}
    (h : createTableText table schema = .ok text) :
    text = createTableHead table ++ lit "(" ++ ((lit ", ").intercalate (schema.entries.map columnDefinition) ++ lit ")") ∧
      matchesIdentifier table = true ∧ ∀ e ∈ schema.entries, matchesIdentifier e.1 = true := by
  rw [createTableText] at h
  cases htable : duckValidateIdentifier table (lit "table name") with
  | error e => rw [htable] at h; cases h
  | ok validatedTable =>
    obtain ⟨hmatch, rfl⟩ := duckValidateIdentifier_ok htable
    cases hcolumns : columnDefinitions schema.entries with
    | error e => simp only [htable, hcolumns] at h; cases h
    | ok columns =>
      simp only [htable, hcolumns] at h
      cases h
      obtain ⟨rfl, hmatches⟩ := columnDefinitions_ok hcolumns
      exact ⟨List.append_assoc .., hmatch, hmatches⟩

/-- Words with a blank after each of them leave nothing open. -/
theorem scan_words {words : List Str} (h : ∀ w ∈ words, matchesIdentifier w = true) :
    scan start (words.flatMap (· ++ lit " ")) = some start := by
  induction words with
  | nil => rfl
  | cons w words ih =>
    rw [List.flatMap_cons, scan_append, scan_matchesIdentifier (h w List.mem_cons_self)]
    exact ih fun w' hw' => h w' (List.mem_cons_of_mem w hw')

theorem scan_createTableHead {table : Str} (h : matchesIdentifier table = true) :
    scan start (createTableHead table) = some start := by
  have hwords : createTableHead table =
      [lit "CREATE", lit "TABLE", lit "IF", lit "NOT", lit "EXISTS", table].flatMap (· ++ lit " ") := by
    rw [createTableHead, List.append_assoc]
    show _ = lit "CREATE TABLE IF NOT EXISTS " ++ ((table ++ lit " ") ++ [])
    rw [List.append_nil]
  rw [hwords]
  apply scan_words
  intro w hw
  simp only [List.mem_cons, List.not_mem_nil, or_false] at hw
  rcases hw with rfl | rfl | rfl | rfl | rfl | rfl
  · decide
  · decide
  · decide
  · decide
  · decide
  · exact h

omit [NameChars] in
theorem leadingName_append (x : Str) {c : CodePoint} (y : Str) (hc : (isLetter c || isDigit c) = false) :
    leadingName (x ++ c :: y) = leadingName x := by
  induction x with
  | nil =>
    show List.takeWhile _ (c :: y) = []
    rw [List.takeWhile_cons, hc]
    rfl
  | cons d x ih =>
    rw [List.cons_append, leadingName, leadingName, List.takeWhile_cons, List.takeWhile_cons]
    split
    · exact congrArg (List.cons d) ih
    · rfl

omit [NameChars] in
/-- The first name of a definition is the first name of its column. -/
theorem isTableElement_columnDefinition (e : Str × Str) : isTableElement (columnDefinition e) = isTableElement e.1 := by
  rw [isTableElement, columnDefinition, List.append_assoc]
  show decide (lower (leadingName (e.1 ++ cp ' ' :: e.2)) ∈ tableElementWords) = _
  rw [leadingName_append e.1 e.2 rfl, isTableElement]

/-- The text creates the table and does nothing else exactly when every type closes what it opens, without a comma
or a parenthesis that ends the definition, and no column is named like the beginning of a table constraint. -/
theorem create_table_only_iff {table : Str} {schema : Dict Str Str} {text : Str}
    (h : createTableText table schema = .ok text) :
    CreatesOnly table schema.entries text ↔
      ∀ e ∈ schema.entries, contained e.2 = true ∧ isTableElement e.1 = false := by
  obtain ⟨rfl, htable, hcols⟩ := createTableText_ok h
  have hbare : ∀ d ∈ schema.entries.map columnDefinition, Bare d := by
    intro d hd
    obtain ⟨e, he, rfl⟩ := List.mem_map.mp hd
    rw [columnDefinition, List.append_assoc]
    exact bare_matchesIdentifier _ (hcols e he)
  have hcontained : ∀ e ∈ schema.entries, contained (columnDefinition e) = contained e.2 := by
    intro e he
    exact contained_append e.2 (scan_matchesIdentifier (hcols e he))
  constructor
  · rintro ⟨⟨body, htext, hbody⟩, _, hcolumns⟩ e he
    rw [← List.append_cancel_left htext] at hbody
    have hall := (readList_iff hbare).mp hbody
    refine ⟨?_, ?_⟩
    · rw [← hcontained e he]
      exact hall _ (List.mem_map_of_mem he)
    · rw [← isTableElement_columnDefinition]
      exact hcolumns e he
  · intro hall
    refine ⟨⟨_, rfl, (readList_iff hbare).mpr ?_⟩, scan_createTableHead htable, ?_⟩
    · intro d hd
      obtain ⟨e, he, rfl⟩ := List.mem_map.mp hd
      rw [hcontained e he]
      exact (hall e he).1
    · intro e he
      rw [isTableElement_columnDefinition]
      exact (hall e he).2

end Reading

/-! ## A type that says more -/

section Example
attribute [local instance] wideNames

/-- A column for prices. -/
def priced : Dict Str Str := Dict.empty.set (lit "price") (lit "DECIMAL(10, 2) DEFAULT 0 /* none */")

theorem priced_table_only : CreatesOnly (lit "items") priced.entries
    (lit "CREATE TABLE IF NOT EXISTS items (price DECIMAL(10, 2) DEFAULT 0 /* none */)") :=
  have htext : createTableText (lit "items") priced =
      .ok (lit "CREATE TABLE IF NOT EXISTS items (price DECIMAL(10, 2) DEFAULT 0 /* none */)") := by decide
  (create_table_only_iff htext).mpr (by
    intro e he
    cases List.mem_singleton.mp he
    decide)

def dropping : Dict Str Str := Dict.empty.set (lit "id") (lit "INT ); DROP TABLE users; --")

theorem type_runs_other_statement :
    ∃ text, createTableText (lit "items") dropping = .ok text ∧
      text = lit "CREATE TABLE IF NOT EXISTS items (id INT ); DROP TABLE users; --)" ∧
      ¬ CreatesOnly (lit "items") dropping.entries text := by
  refine ⟨_, rfl, rfl, ?_⟩
  rintro ⟨⟨body, htext, hbody⟩, _, _⟩
  have hread : readList (lit "id INT ); DROP TABLE users; --)") = none := by decide
  have hsplit : createTableHead (lit "items") ++ lit "(" ++ lit "id INT ); DROP TABLE users; --)" =
      createTableHead (lit "items") ++ lit "(" ++ body := htext
  rw [← List.append_cancel_left hsplit, hread] at hbody
  cases hbody

end Example

end IsaCloud.Database
