import IsaCloud.Database.Batches
import IsaCloud.Database.StoredValues
import IsaCloud.Support.Selections
import IsaCloud.Support.PyBuiltins
import IsaCloud.Support.Reconcile
import IsaCloud.Support.JsonWellFormed

/-!
# The query builders of both clients

`select_from` writes the same clauses for both databases, each one only when it
has something to say. PostgreSQL takes OFFSET by itself; the grammar of SQLite has
it only as a part of LIMIT.
-/

namespace IsaCloud.Database

set_option autoImplicit false

open Support Support.Text Support.Python

/-! ## The clients -/

/-- A dictionary of the `where` list. -/
structure WhereDict (F : Type) where
  column : Option Str
  operator : Option Str
  value : Option (SqlValue F)

structure SelectCall (F : Type) where
  table : Str
  columns : Option (List Str)
  filters : Option (List (WhereDict F))
  orderBy : Option (List Str)
  limit : Int
  offset : Int
  schema : Str

namespace SelectCall
variable {F : Type}

def cols (call : SelectCall F) : Str :=
  match call.columns with
  | some (col :: columns) => (lit ", ").intercalate (col :: columns)
  | _ => lit "*"

def conditions (placeholder : Nat → Str) (paramIdx : Nat) : List (WhereDict F) → List Str
  | [] => []
  | w :: filters =>
    (w.column.getD [] ++ lit " " ++ w.operator.getD (lit "=") ++ lit " " ++ placeholder paramIdx) ::
      conditions placeholder (paramIdx + 1) filters

def whereClause (placeholder : Nat → Str) (call : SelectCall F) : Str :=
  match call.filters with
  | some (w :: filters) => lit " WHERE " ++ (lit " AND ").intercalate (conditions placeholder 1 (w :: filters))
  | _ => []

def orderClause (call : SelectCall F) : Str :=
  match call.orderBy with
  | some (o :: orderBy) => lit " ORDER BY " ++ (lit ", ").intercalate (o :: orderBy)
  | _ => []

/-- `f" LIMIT {limit}"`, or OFFSET, for a positive number. -/
def numberClause (keyword : Str) (n : Int) : Except PyError Str :=
  if 0 < n then (strOfInt n).map fun text => lit " " ++ keyword ++ lit " " ++ text else .ok []

/-- The statement, for a name of the table and placeholders numbered from 1. -/
def sql (placeholder : Nat → Str) (tableName : Str) (call : SelectCall F) : Except PyError Str :=
  match numberClause (lit "LIMIT") call.limit with
  | .error e => .error e
  | .ok limit =>
    (numberClause (lit "OFFSET") call.offset).map fun offset =>
      lit "SELECT " ++ call.cols ++ lit " FROM " ++ tableName ++ call.whereClause placeholder ++ call.orderClause ++
        limit ++ offset

/-- `w.get("value")` of every condition. -/
def params (call : SelectCall F) : List (SqlValue F) :=
  (call.filters.getD []).map fun w => w.value.getD (.value .none)

end SelectCall

def dollar (i : Nat) : Str := lit "$" ++ natText i

def questionMark (_ : Nat) : Str := lit "?"

section Clients
variable {F : Type} [PyFloat F]

def pgSelectFrom (call : SelectCall F) : PgCode F :=
  match call.sql dollar call.table with
  | .error _ => .ret (.rows none)
  | .ok sql => pgQuery sql (if call.params = [] then none else some call.params) call.schema

/-- `dict(row)`. -/
def rowDict (row : List (Str × SqlValue F)) : Dict Str (SqlValue F) := Dict.empty.putAll row

def PgReply.dicts : PgReply F → Option (List (Dict Str (SqlValue F)))
  | .rows r => r.map fun rows => rows.map rowDict
  | _ => none

def deserializeRows (nesting : Nat) : List (List (Str × SqlValue F)) → Except PyError (List (Dict Str (SqlValue F)))
  | [] => .ok []
  | row :: rows =>
    match deserializeRow nesting row with
    | .error e => .error e
    | .ok d => (deserializeRows nesting rows).map (d :: ·)

/-- `fetch` is what SQLite answers a statement that only reads: rows with the names of their columns. -/
def sqliteSelectFrom (fetch : Statement F → Except Str (List (List (Str × SqlValue F)))) (nesting : Nat)
    (call : SelectCall F) : Option (List (Dict Str (SqlValue F))) :=
  match serializeAll call.params with
  | .error _ => none
  | .ok params =>
    match call.sql questionMark (tableName call.schema call.table) with
    | .error _ => none
    | .ok sql =>
      match fetch ⟨sql, params⟩ with
      | .error _ => none
      | .ok rows => (deserializeRows nesting rows).toOption

end Clients

/-! ## Tables and what a SELECT means -/

inductive Cell where
  | int (n : Int)
  | text (s : Str)
  deriving DecidableEq

inductive ColumnType where
  | integer (bits : Nat)
  | text

/-- A text of a database: no NUL and no surrogates. -/
def ValidText (s : Str) : Prop := ∀ c ∈ s, c.val ≠ 0 ∧ ¬ (0xd800 ≤ c.val ∧ c.val ≤ 0xdfff)

namespace Cell

def value {F : Type} : Cell → SqlValue F
  | int n => .value (.int n)
  | text s => .value (.str s)

def HasType : Cell → ColumnType → Prop
  | int n, .integer bits => -2 ^ (bits - 1) ≤ n ∧ n < 2 ^ (bits - 1)
  | text s, .text => ValidText s
  | _, _ => False

/-- Not a text that the SQLite client would read as JSON. -/
def Plain : Cell → Prop
  | int _ => True
  | text s => looksLikeJson s = false

/-- Texts in an order of texts; cells of one column have one type. -/
def compare (textCmp : Str → Str → Ordering) : Cell → Cell → Ordering
  | int m, int n => Ord.compare m n
  | text s, text s' => textCmp s s'
  | int _, text _ => .lt
  | text _, int _ => .gt

end Cell

structure DataTable where
  columns : List (Str × ColumnType)
  rows : List (List Cell)
  nodup : (columns.map Prod.fst).Nodup
  typed : ∀ row ∈ rows, List.Forall₂ (fun cell column => cell.HasType column.2) row columns

def DataTable.names (t : DataTable) : List Str := t.columns.map Prod.fst

/-- The cell of a column of the table. -/
def DataTable.cell (t : DataTable) (row : List Cell) (column : Str) : Cell :=
  (Dict.find (t.names.zip row) column).getD (.text [])

inductive CompareOp where
  | eq
  | ne
  | lt
  | le
  | gt
  | ge

namespace CompareOp

def text : CompareOp → Str
  | eq => lit "="
  | ne => lit "<>"
  | lt => lit "<"
  | le => lit "<="
  | gt => lit ">"
  | ge => lit ">="

def holds : CompareOp → Ordering → Bool
  | eq, o => o.isEq
  | ne, o => o.isNe
  | lt, o => o.isLT
  | le, o => o.isLE
  | gt, o => o.isGT
  | ge, o => o.isGE

end CompareOp

structure Test where
  column : Str
  op : CompareOp
  value : Cell

inductive Direction where
  | unsaid
  | asc
  | desc

structure OrderTerm where
  column : Str
  direction : Direction

def OrderTerm.text (o : OrderTerm) : Str :=
  match o.direction with
  | .unsaid => o.column
  | .asc => o.column ++ lit " ASC"
  | .desc => o.column ++ lit " DESC"

/-- A SELECT from one table; without columns it selects all of them. -/
structure Select where
  columns : List Str
  tests : List Test
  order : List OrderTerm
  limit : Option Nat
  offset : Option Nat

namespace Select

def testTexts (placeholder : Nat → Str) (i : Nat) : List Test → List Str
  | [] => []
  | c :: tests =>
    (c.column ++ lit " " ++ c.op.text ++ lit " " ++ placeholder i) :: testTexts placeholder (i + 1) tests

def numberText (keyword : Str) : Option Nat → Str
  | none => []
  | some n => lit " " ++ keyword ++ lit " " ++ natText n

/-- The statement as it is written. -/
def text (placeholder : Nat → Str) (tableName : Str) (s : Select) : Str :=
  lit "SELECT " ++ (if s.columns = [] then lit "*" else (lit ", ").intercalate s.columns) ++ lit " FROM " ++ tableName ++
    (if s.tests.isEmpty then [] else lit " WHERE " ++ (lit " AND ").intercalate (testTexts placeholder 1 s.tests)) ++
    (if s.order.isEmpty then [] else lit " ORDER BY " ++ (lit ", ").intercalate (s.order.map OrderTerm.text)) ++
    numberText (lit "LIMIT") s.limit ++ numberText (lit "OFFSET") s.offset

def params {F : Type} (s : Select) : List (SqlValue F) := s.tests.map fun c => c.value.value

/-- The statement speaks of columns of the table and compares them with values of their types. -/
structure Fits (s : Select) (t : DataTable) : Prop where
  columns : ∀ column ∈ s.columns, column ∈ t.names
  tests : ∀ c ∈ s.tests, ∃ type, (c.column, type) ∈ t.columns ∧ c.value.HasType type
  order : ∀ o ∈ s.order, o.column ∈ t.names

/-- The numbers are integers of 64 bits. -/
def Bounded (s : Select) : Prop := (∀ n ∈ s.limit, n < 2 ^ 63) ∧ ∀ n ∈ s.offset, n < 2 ^ 63

/-- In SQLite the offset is a part of the limit. -/
def InSqlite (s : Select) : Prop := s.limit = none → s.offset = none

section Meaning
variable (textCmp : Str → Str → Ordering) (t : DataTable) (s : Select)

def keeps (row : List Cell) : Bool :=
  s.tests.all fun c => c.op.holds ((t.cell row c.column).compare textCmp c.value)

def termCmp (o : OrderTerm) (row row' : List Cell) : Ordering :=
  match o.direction with
  | .desc => (t.cell row' o.column).compare textCmp (t.cell row o.column)
  | _ => (t.cell row o.column).compare textCmp (t.cell row' o.column)

def rowCmp : List Cell → List Cell → Ordering := SortedPages.lexicographic (s.order.map (termCmp textCmp t))

def project {F : Type} (row : List Cell) : List (Str × SqlValue F) :=
  (if s.columns = [] then t.names else s.columns).map fun column => (column, (t.cell row column).value)

/-- The rows of the answer, from the selected rows in some order that ORDER BY allows. -/
def Answer {F : Type} (rows : List (List (Str × SqlValue F))) : Prop :=
  ∃ sorted, SortedPages.Arranged (s.rowCmp textCmp t) (t.rows.filter (s.keeps textCmp t)) sorted ∧
    rows = (SortedPages.page s.limit (s.offset.getD 0) sorted).map (s.project t)

end Meaning

end Select

/-! ## From the call to the statement -/

/-- The arguments of the call are those of the statement; an operator that is left out is `=`. -/
structure SelectCall.Spells {F : Type} (call : SelectCall F) (s : Select) : Prop where
  columns : call.columns.getD [] = s.columns
  filters : List.Forall₂ (fun w c => w.column = some c.column ∧ w.operator.getD (lit "=") = c.op.text ∧
    w.value = some c.value.value) (call.filters.getD []) s.tests
  order : call.orderBy.getD [] = s.order.map OrderTerm.text
  limit : s.limit = if 0 < call.limit then some call.limit.toNat else none
  offset : s.offset = if 0 < call.offset then some call.offset.toNat else none

section Spelling
variable {F : Type} {call : SelectCall F} {s : Select} {placeholder : Nat → Str} {tableName : Str}

theorem SelectCall.Spells.cols_eq (h : call.Spells s) :
    call.cols = if s.columns = [] then lit "*" else (lit ", ").intercalate s.columns := by
  rw [← h.columns, SelectCall.cols]
  cases call.columns with
  | none => rfl
  | some columns =>
    cases columns with
    | nil => rfl
    | cons col columns => rfl

theorem conditions_eq {filters : List (WhereDict F)} {tests : List Test}
    (h : List.Forall₂ (fun w c => w.column = some c.column ∧ w.operator.getD (lit "=") = c.op.text ∧
      w.value = some c.value.value) filters tests) (i : Nat) :
    SelectCall.conditions placeholder i filters = Select.testTexts placeholder i tests := by
  induction h generalizing i with
  | nil => rfl
  | cons hwc _ ih =>
    obtain ⟨hcolumn, hop, -⟩ := hwc
    rw [SelectCall.conditions, Select.testTexts, hcolumn, hop, ih, Option.getD_some]

theorem SelectCall.Spells.where_eq (h : call.Spells s) :
    call.whereClause placeholder =
      if s.tests.isEmpty then [] else lit " WHERE " ++ (lit " AND ").intercalate (Select.testTexts placeholder 1 s.tests) := by
  have hfilters := h.filters
  have hconditions : SelectCall.conditions placeholder 1 (call.filters.getD []) = Select.testTexts placeholder 1 s.tests :=
    conditions_eq hfilters 1
  rw [SelectCall.whereClause]
  cases hcall : call.filters with
  | none =>
    rw [hcall] at hfilters
    rw [List.forall₂_nil_left_iff.mp hfilters]
    rfl
  | some filters =>
    rw [hcall, Option.getD_some] at hfilters hconditions
    cases filters with
    | nil =>
      rw [List.forall₂_nil_left_iff.mp hfilters]
      rfl
    | cons w filters =>
      cases htests : s.tests with
      | nil =>
        rw [htests] at hfilters
        cases hfilters
      | cons c tests =>
        rw [htests] at hconditions
        dsimp only
        rw [hconditions]
        rfl

theorem SelectCall.Spells.order_eq (h : call.Spells s) :
    call.orderClause =
      if s.order.isEmpty then [] else lit " ORDER BY " ++ (lit ", ").intercalate (s.order.map OrderTerm.text) := by
  have horder := h.order
  rw [SelectCall.orderClause]
  cases hcall : call.orderBy with
  | none =>
    rw [hcall] at horder
    rw [List.map_eq_nil_iff.mp horder.symm]
    rfl
  | some orderBy =>
    rw [hcall, Option.getD_some] at horder
    cases orderBy with
    | nil =>
      rw [List.map_eq_nil_iff.mp horder.symm]
      rfl
    | cons o orderBy =>
      rw [← horder]
      cases hs : s.order with
      | nil =>
        rw [hs] at horder
        cases horder
      | cons o' order => rfl

theorem numberClause_eq (keyword : Str) (n : Int) :
    SelectCall.numberClause keyword n =
      if 0 < n ∧ TooLong n then .error Json.tooManyDigits
      else .ok (Select.numberText keyword (if 0 < n then some n.toNat else none)) := by
  rw [SelectCall.numberClause, strOfInt]
  by_cases hn : 0 < n
  · by_cases hlong : TooLong n
    · rw [if_pos hn, if_pos hlong, if_pos ⟨hn, hlong⟩]
      rfl
    · obtain ⟨m, rfl⟩ := Int.eq_ofNat_of_zero_le (Int.le_of_lt hn)
      rw [if_pos hn, if_neg hlong, if_neg fun h => hlong h.2, if_pos hn]
      rfl
  · rw [if_neg hn, if_neg fun h => hn h.1, if_neg hn]
    rfl

theorem not_tooLong_of_lt {n : Int} (hpos : 0 < n) (h : n.toNat < 2 ^ 63) : ¬ TooLong n := by
  have hdigits : (natText n.natAbs).length ≤ 19 := Json.natText_length_le (by omega) (by omega)
  have hlimit : 19 ≤ Json.intMaxStrDigits := by decide
  rw [TooLong]
  omega

/-- The text of the call is that of the statement, unless a number has too many digits. -/
theorem SelectCall.Spells.sql_eq (h : call.Spells s) (placeholder : Nat → Str) (tableName : Str) :
    call.sql placeholder tableName = .ok (s.text placeholder tableName) ∨
      ¬ s.Bounded ∧ ∃ e, call.sql placeholder tableName = .error e := by
  have hshort : ∀ {n : Int} {m : Option Nat}, m = (if 0 < n then some n.toNat else none) → (0 < n ∧ TooLong n) →
      ¬ ∀ k ∈ m, k < 2 ^ 63 := by
    rintro n m hm ⟨hpos, hlong⟩ hall
    rw [if_pos hpos] at hm
    exact not_tooLong_of_lt hpos (hall _ hm) hlong
  rw [SelectCall.sql, numberClause_eq, numberClause_eq]
  by_cases hlimit : 0 < call.limit ∧ TooLong call.limit
  · rw [if_pos hlimit]
    exact Or.inr ⟨fun hb => hshort h.limit hlimit hb.1, _, rfl⟩
  · rw [if_neg hlimit]
    by_cases hoffset : 0 < call.offset ∧ TooLong call.offset
    · rw [if_pos hoffset]
      exact Or.inr ⟨fun hb => hshort h.offset hoffset hb.2, _, rfl⟩
    · rw [if_neg hoffset]
      left
      dsimp only [Except.map]
      rw [Select.text, h.cols_eq, h.where_eq, h.order_eq, h.limit, h.offset]

theorem SelectCall.Spells.params_eq (h : call.Spells s) : call.params = s.params := by
  have hfilters := h.filters
  rw [SelectCall.params, Select.params]
  generalize call.filters.getD [] = filters at hfilters
  generalize s.tests = tests at hfilters
  induction hfilters with
  | nil => rfl
  | cons hwc _ ih =>
    rw [List.map_cons, List.map_cons, ih, hwc.2.2, Option.getD_some]

theorem inSqlite_iff (h : call.Spells s) : s.InSqlite ↔ (0 < call.offset → 0 < call.limit) := by
  rw [Select.InSqlite, h.limit, h.offset]
  by_cases hlimit : 0 < call.limit
  · simp [hlimit]
  · by_cases hoffset : 0 < call.offset
    · simp [hlimit, hoffset]
    · simp [hoffset]

theorem bounded_iff (h : call.Spells s) : s.Bounded ↔ call.limit < 2 ^ 63 ∧ call.offset < 2 ^ 63 := by
  have hone : ∀ n : Int, (∀ k ∈ (if 0 < n then some n.toNat else none), k < 2 ^ 63) ↔ n < 2 ^ 63 := by
    intro n
    by_cases hn : 0 < n
    · rw [if_pos hn]
      simp only [Option.mem_some_iff, forall_eq']
      omega
    · rw [if_neg hn]
      refine iff_of_true (fun k hk => nomatch hk) ?_
      omega
  rw [Select.Bounded, h.limit, h.offset, hone, hone]

end Spelling

/-! ## The databases -/

section Databases
variable {D F : Type}

/-- The server holds the table under this name on the search path, and answers the statement if its numbers
are of 64 bits and it is within the limits of the server. -/
structure PgAnswers (server : PostgresServer D F) (path : SearchPath) (d : D) (textCmp : Str → Str → Ordering)
    (t : DataTable) (limits : Select → Prop) (tableName : Str) (s : Select) : Prop where
  found : s.Fits t → s.Bounded → limits s →
    ∃ r, server.apply path ⟨s.text dollar tableName, s.params⟩ d = .ok (d, r) ∧ s.Answer textCmp t r.rows
  refused : s.Fits t → ¬ (s.Bounded ∧ limits s) → ∃ e, server.apply path ⟨s.text dollar tableName, s.params⟩ d = .error e
  commits : server.commitError d = none

/-- SQLite holds the table under this name, and also has to know the clauses. -/
structure SqliteAnswers (fetch : Statement F → Except Str (List (List (Str × SqlValue F))))
    (textCmp : Str → Str → Ordering) (t : DataTable) (limits : Select → Prop) (tableName : Str) (s : Select) : Prop where
  found : s.Fits t → s.InSqlite → s.Bounded → limits s →
    ∃ rows, fetch ⟨s.text questionMark tableName, s.params⟩ = .ok rows ∧ s.Answer textCmp t rows
  refused : s.Fits t → ¬ (s.InSqlite ∧ s.Bounded ∧ limits s) →
    ∃ e, fetch ⟨s.text questionMark tableName, s.params⟩ = .error e

/-- The selected rows in order, the first `offset` dropped and at most `limit` kept. -/
def selected (textCmp : Str → Str → Ordering) (t : DataTable) (s : Select) : List (Dict Str (SqlValue F)) :=
  (SortedPages.page s.limit (s.offset.getD 0)
    (SortedPages.sort (s.rowCmp textCmp t) (t.rows.filter (s.keeps textCmp t)))).map fun row => rowDict (s.project t row)

/-- What the PostgreSQL client returns on a connection with the default search path. -/
def pgAnswer (server : PostgresServer D F) (d : D) (call : SelectCall F) : Option (List (Dict Str (SqlValue F))) :=
  (Proc.exec server.engine.serve (pgSelectFrom call) ⟨d, server.defaultPath, none, []⟩).2.dicts

/-! ### The order of rows -/

theorem transCmp_compare {textCmp : Str → Str → Ordering} (h : Std.TransCmp textCmp) :
    Std.TransCmp (Cell.compare textCmp) where
  eq_swap {a b} := by
    cases a with
    | int m =>
      cases b with
      | int n => exact Std.OrientedOrd.eq_swap
      | text s => rfl
    | text s =>
      cases b with
      | int n => rfl
      | text s' => exact h.eq_swap
  isLE_trans {a b c} hab hbc := by
    cases a with
    | int m =>
      cases c with
      | text s => rfl
      | int k =>
        cases b with
        | int n => exact Std.TransOrd.isLE_trans hab hbc
        | text s => cases hbc
    | text s =>
      cases b with
      | int n => cases hab
      | text s' =>
        cases c with
        | int k => cases hbc
        | text s'' => exact h.isLE_trans hab hbc

theorem transCmp_rowCmp {textCmp : Str → Str → Ordering} (h : Std.TransCmp textCmp) (t : DataTable) (s : Select) :
    Std.TransCmp (s.rowCmp textCmp t) := by
  apply SortedPages.transCmp_lexicographic
  intro cmp hcmp
  obtain ⟨o, -, rfl⟩ := List.mem_map.mp hcmp
  have hcell : Std.TransCmp fun row row' => (t.cell row o.column).compare textCmp (t.cell row' o.column) :=
    SortedPages.transCmp_on (transCmp_compare h) fun row => t.cell row o.column
  cases hdirection : o.direction with
  | desc =>
    have hflip : Select.termCmp textCmp t o = fun row row' => (t.cell row' o.column).compare textCmp (t.cell row o.column) := by
      funext row row'
      rw [Select.termCmp, hdirection]
    rw [hflip]
    exact Std.TransCmp.opposite
  | _ =>
    have hsame : Select.termCmp textCmp t o = fun row row' => (t.cell row o.column).compare textCmp (t.cell row' o.column) := by
      funext row row'
      rw [Select.termCmp, hdirection]
    rw [hsame]
    exact hcell

/-- Under a total order there is one answer. -/
theorem Select.Answer.eq {textCmp : Str → Str → Ordering} (h : Std.TransCmp textCmp) {t : DataTable} {s : Select}
    (htotal : SortedPages.Total (s.rowCmp textCmp t) t.rows) {rows : List (List (Str × SqlValue F))}
    (ha : s.Answer textCmp t rows) :
    rows.map rowDict = selected textCmp t s ∧ ∀ row ∈ rows, ∃ cells ∈ t.rows, row = s.project t cells := by
  obtain ⟨sorted, harranged, rfl⟩ := ha
  have hsorted := harranged.eq_sort (transCmp_rowCmp h t s) (htotal.filter _)
  constructor
  · rw [selected, List.map_map, hsorted]
    rfl
  · intro row hrow
    obtain ⟨cells, hcells, rfl⟩ := List.mem_map.mp hrow
    have hfound := harranged.perm.subset (SortedPages.mem_of_mem_page hcells)
    exact ⟨cells, List.mem_of_mem_filter hfound, rfl⟩

/-! ### The PostgreSQL client -/

open Session in
theorem exec_pgQuery {server : PostgresServer D F} {path : SearchPath} {d : D} {schema : Str}
    (hpath : pathFor server server.defaultPath schema = some path) (hcommit : server.commitError d = none) (sql : Str)
    (params : Option (List (SqlValue F))) :
    (∀ r, server.apply path (pgStatement sql params) d = .ok (d, r) →
      (Proc.exec server.engine.serve (pgQuery sql params schema) ⟨d, server.defaultPath, none, []⟩).2 = .rows (some r.rows)) ∧
    ∀ e, server.apply path (pgStatement sql params) d = .error e →
      (Proc.exec server.engine.serve (pgQuery sql params schema) ⟨d, server.defaultPath, none, []⟩).2 = .rows none := by
  have hs : (⟨d, server.defaultPath, none, []⟩ : PgSession D F).txn = none := rfl
  rw [pgQuery, oneStatement, exec_inTransaction hs, hpath]
  dsimp only
  rw [Proc.exec_call]
  have hserve : server.engine.serve ⟨d, server.defaultPath, some ⟨d, path, false⟩, []⟩ (.statement (pgStatement sql params)) =
      server.engine.inside ⟨d, server.defaultPath, some ⟨d, path, false⟩, []⟩ ⟨d, path, false⟩
        (.statement (pgStatement sql params)) := rfl
  rw [hserve, Engine.inside]
  have hsame : server.engine.apply path (pgStatement sql params) d = server.apply path (pgStatement sql params) d := rfl
  dsimp only
  rw [hsame]
  constructor
  · intro r hr
    rw [hr]
    dsimp only
    rw [finish, Proc.exec_call]
    have hend : server.engine.serve ⟨d, server.defaultPath, some ⟨d, path, false⟩, [] ++ [(path, pgStatement sql params)]⟩
        .commit = (⟨d, path, none, [] ++ [(path, pgStatement sql params)]⟩, .ok none) := by
      have herror : server.engine.commitError d = none := hcommit
      simp only [Engine.serve, Bool.false_eq_true, if_false, Engine.inside, herror]
    rw [hend]
    rfl
  · intro e he
    rw [he]
    rfl

section Postgres
variable {server : PostgresServer D F} {path : SearchPath} {d : D} {call : SelectCall F} {s : Select}
  {textCmp : Str → Str → Ordering} {t : DataTable} {limits : Select → Prop}

/-- The parameters of the call, which are absent when there are none. -/
theorem pgStatement_params (h : call.Spells s) (sql : Str) :
    pgStatement sql (if call.params = [] then none else some call.params) = ⟨sql, s.params⟩ := by
  rw [h.params_eq, pgStatement]
  by_cases hparams : (s.params : List (SqlValue F)) = []
  · rw [if_pos hparams, hparams]
    rfl
  · rw [if_neg hparams]
    rfl

theorem pgAnswer_found (h : Std.TransCmp textCmp) (hspells : call.Spells s) (hfits : s.Fits t)
    (htotal : SortedPages.Total (s.rowCmp textCmp t) t.rows)
    (hpath : pathFor server server.defaultPath call.schema = some path)
    (hpg : PgAnswers server path d textCmp t limits call.table s) (hbounded : s.Bounded) (hlimits : limits s) :
    pgAnswer server d call = some (selected textCmp t s) := by
  obtain ⟨r, hr, hanswer⟩ := hpg.found hfits hbounded hlimits
  rcases hspells.sql_eq dollar call.table with hsql | ⟨hnot, -⟩
  · rw [← pgStatement_params hspells] at hr
    rw [pgAnswer, pgSelectFrom, hsql]
    dsimp only
    rw [(exec_pgQuery hpath hpg.commits _ _).1 r hr]
    exact congrArg some (hanswer.eq h htotal).1
  · exact absurd hbounded hnot

theorem pgAnswer_refused (hspells : call.Spells s) (hfits : s.Fits t)
    (hpath : pathFor server server.defaultPath call.schema = some path)
    (hpg : PgAnswers server path d textCmp t limits call.table s) (hnot : ¬ (s.Bounded ∧ limits s)) :
    pgAnswer server d call = none := by
  obtain ⟨e, he⟩ := hpg.refused hfits hnot
  rw [pgAnswer, pgSelectFrom]
  cases hsql : call.sql dollar call.table with
  | error x => rfl
  | ok sql =>
    rcases hspells.sql_eq dollar call.table with hsame | ⟨-, x, hx⟩
    · rw [hsql] at hsame
      rw [← pgStatement_params hspells, ← Except.ok.inj hsame] at he
      dsimp only
      rw [(exec_pgQuery hpath hpg.commits _ _).2 e he]
      rfl
    · rw [hsql] at hx
      cases hx

end Postgres

/-! ### The SQLite client -/

section Sqlite
variable [PyFloat F] {fetch : Statement F → Except Str (List (List (Str × SqlValue F)))} {nesting : Nat} {call : SelectCall F}
  {s : Select} {textCmp : Str → Str → Ordering} {t : DataTable} {limits : Select → Prop}

theorem deserializeFrom_plain {cells : List (Str × SqlValue F)} (h : ∀ kv ∈ cells, deserializeValue nesting kv.2 = .ok kv.2)
    (result : Dict Str (SqlValue F)) : deserializeFrom nesting result cells = .ok (result.putAll cells) := by
  induction cells generalizing result with
  | nil => rfl
  | cons kv cells ih =>
    rw [deserializeFrom, h kv List.mem_cons_self]
    exact ih (fun kv' hkv' => h kv' (List.mem_cons_of_mem kv hkv')) _

theorem deserializeRows_plain {rows : List (List (Str × SqlValue F))}
    (h : ∀ row ∈ rows, ∀ kv ∈ row, deserializeValue nesting kv.2 = .ok kv.2) :
    deserializeRows nesting rows = .ok (rows.map rowDict) := by
  induction rows with
  | nil => rfl
  | cons row rows ih =>
    have hrow : deserializeRow nesting row = .ok (rowDict row) := deserializeFrom_plain (h row List.mem_cons_self) _
    rw [deserializeRows, hrow, ih fun row' hrow' => h row' (List.mem_cons_of_mem row hrow')]
    rfl

theorem deserializeValue_plain {c : Cell} (h : c.Plain) :
    deserializeValue (F := F) nesting c.value = .ok c.value := by
  cases c with
  | int n => rfl
  | text s =>
    have hlooks : looksLikeJson s = false := h
    rw [Cell.value, deserializeValue, hlooks]
    rfl

theorem DataTable.plain_cell {row : List Cell} (h : ∀ c ∈ row, c.Plain) (column : Str) : (t.cell row column).Plain := by
  rw [DataTable.cell]
  cases hfind : Dict.find (t.names.zip row) column with
  | none => exact (rfl : looksLikeJson [] = false)
  | some c => exact h c (List.of_mem_zip (Dict.mem_of_find hfind)).2

theorem serializeAll_params (s : Select) : serializeAll (s.params : List (SqlValue F)) = .ok s.params := by
  rw [Select.params]
  induction s.tests with
  | nil => rfl
  | cons c tests ih =>
    have hvalue : serializeValue (c.value.value : SqlValue F) = .ok c.value.value := by
      cases c.value with
      | int n => rfl
      | text s => rfl
    rw [List.map_cons, serializeAll, hvalue, ih]
    rfl

theorem sqliteAnswer_found (h : Std.TransCmp textCmp) (hspells : call.Spells s) (hfits : s.Fits t)
    (htotal : SortedPages.Total (s.rowCmp textCmp t) t.rows) (hplain : ∀ row ∈ t.rows, ∀ c ∈ row, c.Plain)
    (hsqlite : SqliteAnswers fetch textCmp t limits (tableName call.schema call.table) s) (hin : s.InSqlite)
    (hbounded : s.Bounded) (hlimits : limits s) :
    sqliteSelectFrom fetch nesting call = some (selected textCmp t s) := by
  obtain ⟨rows, hrows, hanswer⟩ := hsqlite.found hfits hin hbounded hlimits
  obtain ⟨hselected, hproject⟩ := hanswer.eq h htotal
  rcases hspells.sql_eq questionMark (tableName call.schema call.table) with hsql | ⟨hnot, -⟩
  · have hread : deserializeRows nesting rows = .ok (rows.map rowDict) := by
      apply deserializeRows_plain
      intro row hrow kv hkv
      obtain ⟨cells, hcells, rfl⟩ := hproject row hrow
      obtain ⟨column, -, rfl⟩ := List.mem_map.mp hkv
      exact deserializeValue_plain (DataTable.plain_cell (hplain cells hcells) column)
    rw [sqliteSelectFrom, hspells.params_eq, serializeAll_params]
    dsimp only
    rw [hsql]
    dsimp only
    rw [hrows]
    dsimp only
    rw [hread, hselected]
    rfl
  · exact absurd hbounded hnot

theorem sqliteAnswer_refused (hspells : call.Spells s) (hfits : s.Fits t)
    (hsqlite : SqliteAnswers fetch textCmp t limits (tableName call.schema call.table) s)
    (hnot : ¬ (s.InSqlite ∧ s.Bounded ∧ limits s)) : sqliteSelectFrom fetch nesting call = none := by
  obtain ⟨e, he⟩ := hsqlite.refused hfits hnot
  rw [sqliteSelectFrom, hspells.params_eq, serializeAll_params]
  dsimp only
  rcases hspells.sql_eq questionMark (tableName call.schema call.table) with hsql | ⟨-, x, hx⟩
  · rw [hsql]
    dsimp only
    rw [he]
  · rw [hx]

end Sqlite

/-! ### Both -/

section Both
variable [PyFloat F] {server : PostgresServer D F} {path : SearchPath} {d : D}
  {fetch : Statement F → Except Str (List (List (Str × SqlValue F)))} {nesting : Nat} {call : SelectCall F} {s : Select}
  {textCmp : Str → Str → Ordering} {t : DataTable} {pgLimits sqliteLimits : Select → Prop}

end Both

end Databases

/-! ## A table of two rows -/

/-- Texts by code points. -/
def codePointCmp : Str → Str → Ordering := List.compareLex Ord.compare

theorem transCmp_codePointCmp : Std.TransCmp codePointCmp := inferInstanceAs (Std.TransCmp (List.compareLex Ord.compare))

theorem validText_of_all {s : Str}
    (h : (s.all fun c => decide (c.val ≠ 0 ∧ ¬ (0xd800 ≤ c.val ∧ c.val ≤ 0xdfff))) = true) : ValidText s :=
  fun c hc => of_decide_eq_true (List.all_eq_true.mp h c hc)

def stock : DataTable where
  columns := [(lit "name", .text), (lit "size", .integer 32)]
  rows := [[.text (lit "box"), .int 3], [.text (lit "lid"), .int 1]]
  nodup := by decide
  typed := by
    have hbox : ValidText (lit "box") := validText_of_all (by decide)
    have hlid : ValidText (lit "lid") := validText_of_all (by decide)
    simp only [List.forall_mem_cons, List.forall₂_cons, List.forall₂_nil_left_iff]
    exact ⟨⟨hbox, ⟨by decide, by decide⟩, trivial⟩, ⟨hlid, ⟨by decide, by decide⟩, trivial⟩, fun _ h => nomatch h⟩

/-- The sized rows by name. -/
def stockSelect (limit offset : Option Nat) : Select :=
  ⟨[], [⟨lit "size", .ge, .int 1⟩], [⟨lit "name", .unsaid⟩], limit, offset⟩

def stockCall (limit offset : Int) : SelectCall Unit where
  table := lit "stock"
  columns := none
  filters := some [⟨some (lit "size"), some (lit ">="), some (.value (.int 1))⟩]
  orderBy := some [lit "name"]
  limit := limit
  offset := offset
  schema := publicSchema

def stockRows (s : Select) : List (List (Str × SqlValue Unit)) :=
  (SortedPages.page s.limit (s.offset.getD 0) stock.rows).map (s.project stock)

/-- A server that knows one statement. -/
def stockServer (s : Select) : PostgresServer Unit Unit where
  apply _ q d := if q.sql = s.text dollar (lit "stock") then .ok (d, ⟨lit "SELECT", stockRows s⟩) else .error (lit "syntax error")
  reserved _ := none
  commitError _ := none
  defaultPath := [publicSchema]

def stockFetch (s : Select) (q : Statement Unit) : Except Str (List (List (Str × SqlValue Unit))) :=
  if q.sql = s.text questionMark (lit "stock") ∧ (s.limit.isSome = true ∨ s.offset = none) then .ok (stockRows s)
  else .error (lit "near \"OFFSET\": syntax error")

theorem stock_total (limit offset : Option Nat) :
    SortedPages.Total ((stockSelect limit offset).rowCmp codePointCmp stock) stock.rows := by
  have hrows : ∀ a ∈ stock.rows, ∀ b ∈ stock.rows, (stockSelect none none).rowCmp codePointCmp stock a b = .eq → a = b := by
    decide
  exact hrows

theorem stock_answer (limit offset : Option Nat) :
    (stockSelect limit offset).Answer codePointCmp stock (stockRows (stockSelect limit offset)) := by
  have hkept : stock.rows.filter ((stockSelect none none).keeps codePointCmp stock) = stock.rows := by decide
  have hordered : stock.rows.Pairwise fun a b => ((stockSelect none none).rowCmp codePointCmp stock a b).isLE = true := by
    decide
  exact ⟨stock.rows, ⟨List.Perm.of_eq hkept.symm, hordered⟩, rfl⟩

theorem stock_fits (limit offset : Option Nat) : (stockSelect limit offset).Fits stock where
  columns _ h := nomatch h
  tests c hc := by
    rw [List.mem_singleton.mp hc]
    exact ⟨.integer 32, List.mem_cons_of_mem _ List.mem_cons_self, by decide, by decide⟩
  order o ho := by
    rw [List.mem_singleton.mp ho]
    decide

theorem stock_spells {limit offset : Int} {limit' offset' : Option Nat}
    (hlimit : limit' = if 0 < limit then some limit.toNat else none)
    (hoffset : offset' = if 0 < offset then some offset.toNat else none) :
    (stockCall limit offset).Spells (stockSelect limit' offset') where
  columns := rfl
  filters := .cons ⟨rfl, rfl, rfl⟩ .nil
  order := rfl
  limit := hlimit
  offset := hoffset

theorem stockServer_answers {s : Select} (h : s.Answer codePointCmp stock (stockRows s)) (hb : s.Bounded) :
    PgAnswers (stockServer s) [publicSchema] () codePointCmp stock (fun _ => True) (lit "stock") s where
  found _ _ _ := ⟨_, if_pos rfl, h⟩
  refused _ hnot := absurd ⟨hb, trivial⟩ hnot
  commits := rfl

theorem stockFetch_answers {s : Select} (h : s.Answer codePointCmp stock (stockRows s)) (hb : s.Bounded) :
    SqliteAnswers (stockFetch s) codePointCmp stock (fun _ => True) (lit "stock") s where
  found _ hin _ _ := by
    refine ⟨_, if_pos ⟨rfl, ?_⟩, h⟩
    cases hlimit : s.limit with
    | none => exact Or.inr (hin hlimit)
    | some n => exact Or.inl rfl
  refused _ hnot := by
    refine ⟨_, if_neg ?_⟩
    rintro ⟨-, hin⟩
    refine hnot ⟨?_, hb, trivial⟩
    intro hlimit
    rw [hlimit] at hin
    exact hin.resolve_left Bool.false_ne_true

end IsaCloud.Database
