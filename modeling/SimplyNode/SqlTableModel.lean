import Mathlib.Data.Int.Notation
import SimplyNode.HttpRequest
import SimplyNode.Lib.KeyedList

/-!
# A Table Model over a Database

`SqlTableModel` (`SqlTableModel.h/.cpp`): the rows of a table as they have been read, and the edits
that `setData` keeps back by row and column until `submit` writes each edited row with one UPDATE
statement. The edits are in hash maps, whose order of iteration is that of the lists here. The
database is a function of its own state and the text of a statement, and may report an error for
any of them. Values are those of `Variant` (`Variant.h/.cpp`).

## Main results

* `Reached.sound`: edits are of cells that there are, and no cell has two.
* `progress`: what the loop of `submit` has done behind some of the edited rows.
* `submit_keeps`: no edit is lost or made twice, wherever the database fails.
-/

namespace SimplyNode

open Text

/-! ### Values -/

/-- `ModelColor`, by the bit patterns of its parts. -/
structure ModelColor where
  red : UInt32
  green : UInt32
  blue : UInt32
  alpha : UInt32
  deriving DecidableEq

/-- `Variant`; a floating-point value is its bit pattern. -/
inductive Variant
  | null
  | bool (value : Bool)
  | int64 (value : Int64)
  | double (bits : UInt64)
  | string (value : Bytes)
  | color (value : ModelColor)
  deriving DecidableEq

/-- `==` of two doubles: no value is equal to one that is not a number, and the zeros are equal. -/
def doubleEq (a b : UInt64) : Bool :=
  let magnitude (bits : UInt64) : UInt64 := bits &&& 0x7FFFFFFFFFFFFFFF
  magnitude a ≤ 0x7FF0000000000000 && magnitude b ≤ 0x7FF0000000000000 &&
    (a = b || magnitude a = 0 && magnitude b = 0)

/-- `==` of two floats. -/
def floatEq (a b : UInt32) : Bool :=
  let magnitude (bits : UInt32) : UInt32 := bits &&& 0x7FFFFFFF
  magnitude a ≤ 0x7F800000 && magnitude b ≤ 0x7F800000 &&
    (a = b || magnitude a = 0 && magnitude b = 0)

/-- `Variant::operator==`. -/
def Variant.eq : Variant → Variant → Bool
  | .null, .null => true
  | .bool a, .bool b => a = b
  | .int64 a, .int64 b => a = b
  | .double a, .double b => doubleEq a b
  | .string a, .string b => a = b
  | .color a, .color b =>
      floatEq a.red b.red && floatEq a.green b.green && floatEq a.blue b.blue &&
        floatEq a.alpha b.alpha
  | _, _ => false

/-- `SqlDatabase::DatabaseError`. -/
inductive DatabaseError
  | noError
  | openFailed
  | queryFailed
  | invalidOperation
  deriving DecidableEq

/-! ### The model -/

/-- The edits of a row: the new values by column. -/
abbrev RowEdits := List (ℤ × Variant)

/-- `SqlTableModel`, without its database. -/
structure SqlTableModel where
  tableName : Bytes := []
  primaryKeyColumn : Bytes := []
  columnNames : List Bytes := []
  rows : List (List Variant) := []
  pendingEdits : List (ℤ × RowEdits) := []
  lastError : DatabaseError := .noError
  errorString : Bytes := []
  deriving DecidableEq

/-- The value of a cell in some rows. -/
def cell (rows : List (List Variant)) (row column : ℤ) : Variant :=
  (rows.getD row.toNat []).getD column.toNat .null

/-- How a stream prints a double. -/
abbrev DoubleText := UInt64 → Bytes

/-- The doubling of quotes. -/
def escapeQuotes (s : Bytes) : Bytes := s.flatMap fun c => if c = 39 then [39, 39] else [c]

/-- `SqlTableModel::variantToSqlLiteral`. -/
def variantToSqlLiteral (doubleText : DoubleText) : Variant → Bytes
  | .null => bytes "NULL"
  | .bool b => if b then bytes "1" else bytes "0"
  | .int64 n => bytes (toString n.toInt)
  | .double bits => doubleText bits
  | .string s => 39 :: (escapeQuotes s ++ [39])
  | .color _ => bytes "NULL"

namespace SqlTableModel

variable (m : SqlTableModel)

def rowCount : ℤ := m.rows.length

def columnCount : ℤ := m.columnNames.length

/-- `SqlTableModel::setError`. -/
def setError (error : DatabaseError) (errorString : Bytes) : SqlTableModel :=
  { m with lastError := error, errorString := errorString }

/-- `SqlTableModel::clearError`. -/
def clearError : SqlTableModel := { m with lastError := .noError, errorString := [] }

/-- `SqlTableModel::cachedValue`. -/
def cachedValue (row column : ℤ) : Variant :=
  match (m.pendingEdits.lookup row).bind (·.lookup column) with
  | some value => value
  | none => cell m.rows row column

/-- `SqlTableModel::isEditable`. -/
def isEditable (row column : ℤ) : Bool :=
  0 ≤ row && row < m.rowCount && 0 ≤ column && column < m.columnCount

/-- `SqlTableModel::data`, of a cell of the model. -/
def data (row column : ℤ) : Variant :=
  if row < 0 || m.rowCount ≤ row || column < 0 || m.columnCount ≤ column then .null
  else m.cachedValue row column

/-- `SqlTableModel::setData`, in the edit role: whether there is such a cell. -/
def setData (row column : ℤ) (value : Variant) : Bool × SqlTableModel :=
  if !m.isEditable row column then (false, m)
  else if (m.cachedValue row column).eq value then (true, m)
  else
    (true, { m with
      pendingEdits := KeyedList.assign row
        (fun edits => KeyedList.assign column (fun _ => value) (edits.getD [])) m.pendingEdits })

/-- `SqlTableModel::revert`. -/
def revert : SqlTableModel := { m with pendingEdits := [] }

/-- `SqlTableModel::primaryKeyColumnIndex`; `none` stands for -1. -/
def primaryKeyColumnIndex : Option ℕ :=
  if m.primaryKeyColumn = [] then
    if m.columnNames = [] then none else some 0
  else m.columnNames.findIdx? (· = m.primaryKeyColumn)

/-- What a query for all rows comes back with: an error, or the names of the columns, the rows that
were fetched as functions of the column, and an error that ended the fetching. -/
inductive Selected
  | failed (error : DatabaseError) (errorString : Bytes)
  | fetched (columnNames : List Bytes) (rows : List (ℕ → Variant))
      (ended : DatabaseError × Bytes)

/-- `SqlTableModel::select`. -/
def select (query : Bytes → Selected) : Bool × SqlTableModel :=
  if m.tableName = [] then (false, m.setError .invalidOperation (bytes "No table name set"))
  else
    match query (bytes "SELECT * FROM " ++ m.tableName) with
    | .failed error errorString => (false, m.setError error errorString)
    | .fetched columnNames rows ended =>
        if ended.1 ≠ .noError then (false, m.setError ended.1 ended.2)
        else
          (true, { m with
            columnNames := columnNames
            rows := rows.map fun row => (List.range columnNames.length).map row
            pendingEdits := [] }.clearError)

/-! ### Submitting -/

/-- The assignments of an UPDATE statement, with commas between them. -/
def setClauses (doubleText : DoubleText) (edits : RowEdits) : Bytes :=
  let known := edits.filter fun e => 0 ≤ e.1 && e.1 < m.columnCount
  (bytes ", ").intercalate (known.map fun e =>
    m.columnNames.getD e.1.toNat [] ++ bytes " = " ++ variantToSqlLiteral doubleText e.2)

/-- The UPDATE statement for a row with some assignments. -/
def updateStatement (doubleText : DoubleText) (setClauses : Bytes) (pkIndex : ℕ)
    (key : Variant) : Bytes :=
  bytes "UPDATE " ++ m.tableName ++ bytes " SET " ++ setClauses ++ bytes " WHERE " ++
    m.columnNames.getD pkIndex [] ++ bytes " = " ++ variantToSqlLiteral doubleText key

/-- The UPDATE statement for an edited row. -/
def rowStatement (doubleText : DoubleText) (pkIndex : ℕ) (entry : ℤ × RowEdits) : Bytes :=
  m.updateStatement doubleText (m.setClauses doubleText entry.2) pkIndex
    (cell m.rows entry.1 pkIndex)

/-- A row with some edits. -/
def applyEdits (edits : RowEdits) (row : List Variant) : List Variant :=
  edits.foldl (fun row e =>
    if 0 ≤ e.1 ∧ e.1 < (row.length : ℤ) then row.set e.1.toNat e.2 else row) row

/-- What the loop of `submit` holds, with the database and the rows it has been asked to update,
each with whether it did. -/
structure Submission (σ : Type) where
  rows : List (List Variant)
  failedEdits : List (ℤ × RowEdits) := []
  success : Bool := true
  error : DatabaseError × Bytes
  database : σ
  asked : List (ℤ × Bool) := []

section Submit

variable {σ : Type} (doubleText : DoubleText)
  (exec : σ → Bytes → Option (DatabaseError × Bytes) × σ)

/-- A pass of the loop over the edited rows. -/
def submitRow (pkIndex : ℕ) (s : Submission σ) (entry : ℤ × RowEdits) : Submission σ :=
  if !s.success then { s with failedEdits := s.failedEdits ++ [entry] }
  else if entry.1 < 0 || s.rows.length ≤ entry.1 then s
  else
    let setClauses := m.setClauses doubleText entry.2
    if setClauses = [] then s
    else
      let sql := m.updateStatement doubleText setClauses pkIndex (cell s.rows entry.1 pkIndex)
      match exec s.database sql with
      | (some error, database) =>
          { s with
            failedEdits := s.failedEdits ++ [entry]
            success := false
            error := error
            database := database
            asked := s.asked ++ [(entry.1, false)] }
      | (none, database) =>
          { s with
            rows := s.rows.modify entry.1.toNat (applyEdits entry.2)
            database := database
            asked := s.asked ++ [(entry.1, true)] }

/-- What the loop begins with. -/
def submission (database : σ) : Submission σ where
  rows := m.rows
  error := (m.lastError, m.errorString)
  database := database

/-- `SqlTableModel::submit`: whether it succeeds, the model, and what the loop has come to. -/
def submit (database : σ) : Bool × SqlTableModel × Submission σ :=
  let start := m.submission database
  if m.pendingEdits = [] then (true, m, start)
  else if m.tableName = [] then
    (false, m.setError .invalidOperation (bytes "No table name set"), start)
  else
    match m.primaryKeyColumnIndex with
    | none =>
        (false, m.setError .invalidOperation
          (if m.primaryKeyColumn = [] then bytes "Cannot submit: the table has no columns"
          else bytes "Primary key column '" ++ m.primaryKeyColumn ++
            bytes "' not found in table '" ++ m.tableName ++ bytes "'"), start)
    | some pkIndex =>
        let s := m.pendingEdits.foldl (m.submitRow doubleText exec pkIndex) start
        let m' := { m with
          rows := s.rows
          pendingEdits := s.failedEdits
          lastError := s.error.1
          errorString := s.error.2 }
        if !s.success then (false, m', s) else (true, m'.clearError, s)

end Submit

/-! ### Models that have been reached -/

/-- The hash maps are iterated in some other order. -/
def Reordered (edits edits' : List (ℤ × RowEdits)) : Prop :=
  ∃ moved, edits.Perm moved ∧ List.Forall₂ (fun e e' => e.1 = e'.1 ∧ e.2.Perm e'.2) moved edits'

/-- **A model that has been reached**, by any calls. -/
inductive Reached : SqlTableModel → Prop
  | empty : Reached {}
  | setTable {m : SqlTableModel} (tableName : Bytes) :
      Reached m → Reached { m with tableName := tableName }
  | setPrimaryKeyColumn {m : SqlTableModel} (columnName : Bytes) :
      Reached m → Reached { m with primaryKeyColumn := columnName }
  | select {m : SqlTableModel} (query : Bytes → Selected) : Reached m → Reached (m.select query).2
  | setData {m : SqlTableModel} (row column : ℤ) (value : Variant) :
      Reached m → Reached (m.setData row column value).2
  | revert {m : SqlTableModel} : Reached m → Reached m.revert
  | submit {m : SqlTableModel} {σ : Type} (doubleText : DoubleText)
      (exec : σ → Bytes → Option (DatabaseError × Bytes) × σ) (database : σ) :
      Reached m → Reached (m.submit doubleText exec database).2.1
  | rehash {m : SqlTableModel} {edits : List (ℤ × RowEdits)} :
      Reached m → Reordered m.pendingEdits edits → Reached { m with pendingEdits := edits }

/-- The edits of a row that there is. -/
structure EditsOf (rows columns : ℕ) (entry : ℤ × RowEdits) : Prop where
  row : 0 ≤ entry.1 ∧ entry.1 < rows
  column : ∀ e ∈ entry.2, 0 ≤ e.1 ∧ e.1 < columns
  some : entry.2 ≠ []
  distinct : KeyedList.Distinct entry.2

/-- **What a model keeps**: rows have all columns, and edits are of cells that there are, one of
each. -/
structure Sound (m : SqlTableModel) : Prop where
  width : ∀ row ∈ m.rows, row.length = m.columnNames.length
  edits : ∀ entry ∈ m.pendingEdits, EditsOf m.rows.length m.columnNames.length entry
  distinct : KeyedList.Distinct m.pendingEdits

/-! ### Cells -/

theorem length_applyEdits (edits : RowEdits) (row : List Variant) :
    (applyEdits edits row).length = row.length := by
  induction edits generalizing row with
  | nil => rfl
  | cons e edits ih =>
      rw [applyEdits, List.foldl_cons, ← applyEdits, ih]
      split
      · exact List.length_set
      · rfl

/-- The cells of a row with some edits. -/
theorem getD_applyEdits {edits : RowEdits} (h : KeyedList.Distinct edits) {row : List Variant}
    {column : ℤ} (hcolumn : 0 ≤ column ∧ column < row.length) :
    (applyEdits edits row).getD column.toNat .null =
      (edits.lookup column).getD (row.getD column.toNat .null) := by
  induction edits generalizing row with
  | nil => rfl
  | cons e edits ih =>
      obtain ⟨c, value⟩ := e
      obtain ⟨hnew, hdistinct⟩ := List.nodup_cons.mp h
      rw [applyEdits, List.foldl_cons, ← applyEdits, List.lookup_cons]
      by_cases hc : column = c
      · subst hc
        have hnone : edits.lookup column = none :=
          KeyedList.lookup_eq_none_iff_notMem.mpr hnew
        have hlt : column.toNat < row.length := by omega
        rw [if_pos hcolumn, ih hdistinct (by rwa [List.length_set]), hnone, beq_self_eq_true]
        simp [List.getD_eq_getElem?_getD, hlt]
      · rw [beq_eq_false_iff_ne.mpr hc]
        split
        · rename_i hrange
          have hne : c.toNat ≠ column.toNat := by
            dsimp only at hrange
            omega
          rw [ih hdistinct (by rwa [List.length_set])]
          simp [List.getD_eq_getElem?_getD, List.getElem?_set_ne hne]
        · exact ih hdistinct hcolumn

/-- The cells of rows one of which has been changed. -/
theorem cell_modify {rows : List (List Variant)} (f : List Variant → List Variant) {row changed : ℤ}
    (hrow : 0 ≤ row) (hchanged : 0 ≤ changed ∧ changed < rows.length) (column : ℤ) :
    cell (rows.modify changed.toNat f) row column =
      if row = changed then (f (rows.getD changed.toNat [])).getD column.toNat .null
      else cell rows row column := by
  have hget (l : List (List Variant)) (i : ℕ) : l.getD i [] = l[i]?.getD [] :=
    List.getD_eq_getElem?_getD
  rw [cell, cell, hget, hget, hget, List.getElem?_modify]
  by_cases heq : row = changed
  · subst heq
    have hlt : row.toNat < rows.length := by omega
    rw [if_pos rfl, List.getElem?_eq_getElem hlt]
    simp
  · have hne : ¬changed.toNat = row.toNat := by omega
    rw [if_neg heq]
    simp [hne]

/-- An edited row has assignments. -/
theorem setClauses_ne_nil {m : SqlTableModel} {rows : ℕ} {entry : ℤ × RowEdits}
    (h : EditsOf rows m.columnNames.length entry) (doubleText : DoubleText) :
    m.setClauses doubleText entry.2 ≠ [] := by
  have hknown : entry.2.filter (fun e => 0 ≤ e.1 && e.1 < m.columnCount) = entry.2 := by
    refine List.filter_eq_self.mpr fun e he => ?_
    have hcolumn := h.column e he
    rw [columnCount, Bool.and_eq_true, decide_eq_true_eq, decide_eq_true_eq]
    exact hcolumn
  rw [setClauses, hknown]
  cases hedits : entry.2 with
  | nil => exact absurd hedits h.some
  | cons e edits =>
      have hassignment : m.columnNames.getD e.1.toNat [] ++ bytes " = " ++
          variantToSqlLiteral doubleText e.2 ≠ [] :=
        List.append_ne_nil_of_left_ne_nil
          (List.append_ne_nil_of_right_ne_nil _ (by decide)) _
      cases edits with
      | nil =>
          rw [List.map_singleton, List.intercalate_singleton]
          exact hassignment
      | cons e' edits =>
          rw [List.map_cons, List.map_cons, List.intercalate_cons_cons]
          exact List.append_ne_nil_of_left_ne_nil
            (List.append_ne_nil_of_left_ne_nil hassignment _) _

/-! ### The loop of `submit` -/

section Progress

variable {σ : Type}

/-- **What the loop has done** behind some of the edited rows: the cells of a row that the database
has updated have their new values, other rows are as they were, and the edits of these are kept. -/
structure Progress (m : SqlTableModel) (seen : List (ℤ × RowEdits)) (s : Submission σ) :
    Prop where
  length : s.rows.length = m.rows.length
  width : ∀ row ∈ s.rows, row.length = m.columnNames.length
  updated : ∀ entry ∈ seen, (entry.1, true) ∈ s.asked → ∀ column : ℤ,
    0 ≤ column ∧ column < m.columnNames.length →
      cell s.rows entry.1 column = (entry.2.lookup column).getD (cell m.rows entry.1 column)
  untouched : ∀ row : ℤ, 0 ≤ row → (row, true) ∉ s.asked → ∀ column,
    cell s.rows row column = cell m.rows row column
  failed : s.failedEdits = seen.filter fun entry => (entry.1, true) ∉ s.asked
  asked : ∀ a ∈ s.asked, a.1 ∈ seen.map Prod.fst
  once : KeyedList.Distinct s.asked
  success : s.success = true ↔ s.failedEdits = []

theorem progress_submission {m : SqlTableModel} (h : m.Sound) (database : σ) :
    m.Progress [] (m.submission database) where
  length := rfl
  width := h.width
  updated _ hmem := absurd hmem List.not_mem_nil
  untouched _ _ _ _ := rfl
  failed := rfl
  asked _ hmem := absurd hmem List.not_mem_nil
  once := List.nodup_nil
  success := Iff.intro (fun _ => rfl) fun _ => rfl

variable {m : SqlTableModel} {seen : List (ℤ × RowEdits)} {s : Submission σ} {entry : ℤ × RowEdits}

/-- A row that has not been seen has not been asked for. -/
theorem Progress.notMem (h : m.Progress seen s) (hnew : entry.1 ∉ seen.map Prod.fst) (b : Bool) :
    (entry.1, b) ∉ s.asked := fun hmem => hnew (h.asked _ hmem)

/-- Asking for another row does not change which of the rows are kept. -/
theorem filter_asked (hnew : entry.1 ∉ seen.map Prod.fst) (asked : List (ℤ × Bool)) (b : Bool) :
    (seen.filter fun e => (e.1, true) ∉ asked ++ [(entry.1, b)]) =
      seen.filter fun e => (e.1, true) ∉ asked := by
  refine List.filter_congr fun e he => decide_eq_decide.mpr (not_congr ?_)
  rw [List.mem_append, List.mem_singleton]
  refine or_iff_left fun heq => hnew ?_
  rw [← (Prod.mk.inj heq).1]
  exact List.mem_map_of_mem he

theorem asked_append (h : m.Progress seen s) (hnew : entry.1 ∉ seen.map Prod.fst) (b : Bool) :
    (∀ a ∈ s.asked ++ [(entry.1, b)], a.1 ∈ (seen ++ [entry]).map Prod.fst) ∧
      KeyedList.Distinct (s.asked ++ [(entry.1, b)]) := by
  refine ⟨fun a ha => ?_, ?_⟩
  · rw [List.map_append, List.mem_append]
    rcases List.mem_append.mp ha with ha | ha
    · exact Or.inl (h.asked a ha)
    · rw [List.mem_singleton.mp ha]
      exact Or.inr List.mem_cons_self
  · rw [KeyedList.Distinct, List.map_append]
    refine List.nodup_append.mpr ⟨h.once, List.nodup_singleton _, ?_⟩
    intro row hrow other hother heq
    obtain ⟨a, ha, rfl⟩ := List.mem_map.mp hrow
    rw [List.map_singleton, List.mem_singleton] at hother
    exact hnew (hother ▸ heq ▸ h.asked a ha)

/-- A row is kept back behind a failure. -/
theorem Progress.skip (h : m.Progress seen s) (hnew : entry.1 ∉ seen.map Prod.fst) :
    m.Progress (seen ++ [entry]) { s with
      failedEdits := s.failedEdits ++ [entry], success := false } where
  length := h.length
  width := h.width
  updated e he hasked := by
    rcases List.mem_append.mp he with he | he
    · exact h.updated e he hasked
    · rw [List.mem_singleton.mp he] at hasked
      exact absurd hasked (h.notMem hnew true)
  untouched := h.untouched
  failed := by
    rw [List.filter_append, ← h.failed, List.filter_singleton,
      decide_eq_true (h.notMem hnew true)]
    rfl
  asked a ha := by
    rw [List.map_append]
    exact List.mem_append_left _ (h.asked a ha)
  once := h.once
  success := Iff.intro (fun hfalse => by cases hfalse) fun hnil => by simp at hnil

theorem Progress.failed_append (h : m.Progress seen s) (hnew : entry.1 ∉ seen.map Prod.fst)
    (b : Bool) : ((seen ++ [entry]).filter fun e => (e.1, true) ∉ s.asked ++ [(entry.1, b)]) =
      s.failedEdits ++ if b then [] else [entry] := by
  rw [List.filter_append, filter_asked hnew, ← h.failed, List.filter_singleton]
  cases b with
  | false =>
      have hkept : (entry.1, true) ∉ s.asked ++ [(entry.1, false)] := by
        simpa using h.notMem hnew true
      rw [decide_eq_true hkept]
      rfl
  | true =>
      have hwritten : (entry.1, true) ∈ s.asked ++ [(entry.1, true)] := by simp
      rw [decide_eq_false (not_not_intro hwritten)]
      rfl

/-- A row for which the database reports an error is the first to be kept. -/
theorem Progress.fail (h : m.Progress seen s) (hnew : entry.1 ∉ seen.map Prod.fst)
    (error : DatabaseError × Bytes) (database : σ) :
    m.Progress (seen ++ [entry]) { s with
      failedEdits := s.failedEdits ++ [entry]
      success := false
      error := error
      database := database
      asked := s.asked ++ [(entry.1, false)] } where
  length := h.length
  width := h.width
  updated e he hmem := by
    have hmem : (e.1, true) ∈ s.asked := by simpa using hmem
    exact (h.skip hnew).updated e he hmem
  untouched row hnonneg hmem :=
    h.untouched row hnonneg fun hold => hmem (List.mem_append_left _ hold)
  failed := (h.failed_append hnew false).symm
  asked := (asked_append h hnew false).1
  once := (asked_append h hnew false).2
  success := by simp

/-- A row that the database takes has its new values. -/
theorem Progress.write (h : m.Progress seen s) (hold : ∀ e ∈ seen, 0 ≤ e.1)
    (hentry : EditsOf m.rows.length m.columnNames.length entry)
    (hnew : entry.1 ∉ seen.map Prod.fst) (hsuccess : s.success = true) (database : σ) :
    m.Progress (seen ++ [entry]) { s with
      rows := s.rows.modify entry.1.toNat (applyEdits entry.2)
      database := database
      asked := s.asked ++ [(entry.1, true)] } := by
  have hrow := hentry.row
  have hin : 0 ≤ entry.1 ∧ entry.1 < s.rows.length := by
    rw [h.length]
    exact hrow
  have hlt : entry.1.toNat < s.rows.length := by omega
  have hget : s.rows.getD entry.1.toNat [] ∈ s.rows := by
    rw [List.getD_eq_getElem?_getD, List.getElem?_eq_getElem hlt]
    exact List.getElem_mem hlt
  exact
    { length := by rw [List.length_modify, h.length]
      width := fun row hmem => by
        obtain ⟨i, hi, rfl⟩ := List.mem_iff_getElem.mp hmem
        rw [List.length_modify] at hi
        rw [List.getElem_modify]
        split
        · rw [length_applyEdits]
          exact h.width _ (List.getElem_mem hi)
        · exact h.width _ (List.getElem_mem hi)
      updated := fun e he hmem column hcolumn => by
        rcases List.mem_append.mp he with he | he
        · have hne : e.1 ≠ entry.1 := fun heq => hnew (heq ▸ List.mem_map_of_mem he)
          have hmem : (e.1, true) ∈ s.asked := by simpa [hne] using hmem
          rw [cell_modify _ (hold e he) hin, if_neg hne, h.updated e he hmem column hcolumn]
        · rw [List.mem_singleton.mp he, cell_modify _ hrow.1 hin, if_pos rfl,
            getD_applyEdits hentry.distinct, ← cell,
            h.untouched _ hrow.1 (h.notMem hnew true)]
          rw [h.width _ hget]
          exact hcolumn
      untouched := fun row hnonneg hmem column => by
        rw [List.mem_append, not_or] at hmem
        rw [cell_modify _ hnonneg hin, if_neg, h.untouched row hnonneg hmem.1]
        rintro rfl
        exact hmem.2 List.mem_cons_self
      failed := by
        rw [h.failed_append hnew true]
        exact (List.append_nil _).symm
      asked := (asked_append h hnew true).1
      once := (asked_append h hnew true).2
      success := iff_of_true hsuccess (h.success.mp hsuccess) }

variable (doubleText : DoubleText) (exec : σ → Bytes → Option (DatabaseError × Bytes) × σ)

/-- A row behind a failure is kept, and the database is not asked for it. -/
theorem submitRow_of_failed (m : SqlTableModel) (hfailed : s.success = false) (pkIndex : ℕ)
    (entry : ℤ × RowEdits) : m.submitRow doubleText exec pkIndex s entry =
      { s with failedEdits := s.failedEdits ++ [entry] } := by
  rw [SqlTableModel.submitRow, hfailed, Bool.not_false, if_pos rfl]

/-- As long as nothing has failed, the database is asked for the row as it was read. -/
theorem Progress.submitRow_eq (h : m.Progress seen s)
    (hentry : EditsOf m.rows.length m.columnNames.length entry)
    (hnew : entry.1 ∉ seen.map Prod.fst) (hsuccess : s.success = true) (pkIndex : ℕ) :
    m.submitRow doubleText exec pkIndex s entry =
      match exec s.database (m.rowStatement doubleText pkIndex entry) with
      | (some error, database) =>
          { s with
            failedEdits := s.failedEdits ++ [entry]
            success := false
            error := error
            database := database
            asked := s.asked ++ [(entry.1, false)] }
      | (none, database) =>
          { s with
            rows := s.rows.modify entry.1.toNat (applyEdits entry.2)
            database := database
            asked := s.asked ++ [(entry.1, true)] } := by
  have hrow := hentry.row
  have hrange : (entry.1 < 0 || (s.rows.length : ℤ) ≤ entry.1) = false := by
    rw [h.length, Bool.or_eq_false_iff, decide_eq_false_iff_not, decide_eq_false_iff_not]
    omega
  rw [SqlTableModel.submitRow, hrange, hsuccess, Bool.not_true, if_neg Bool.false_ne_true,
    if_neg Bool.false_ne_true, h.untouched _ hrow.1 (h.notMem hnew true)]
  exact if_neg (setClauses_ne_nil hentry doubleText)

/-- **One row** of the loop. -/
theorem Progress.submitRow (h : m.Progress seen s)
    (hold : ∀ e ∈ seen, 0 ≤ e.1) (hentry : EditsOf m.rows.length m.columnNames.length entry)
    (hnew : entry.1 ∉ seen.map Prod.fst) (pkIndex : ℕ) :
    m.Progress (seen ++ [entry]) (m.submitRow doubleText exec pkIndex s entry) := by
  by_cases hsuccess : s.success = true
  · rw [h.submitRow_eq doubleText exec hentry hnew hsuccess]
    split
    · exact h.fail hnew _ _
    · exact h.write hold hentry hnew hsuccess _
  · have hskip := h.skip hnew
    rw [Bool.not_eq_true] at hsuccess
    rw [submitRow_of_failed doubleText exec m hsuccess]
    rw [hsuccess]
    exact hskip

/-- The next row has not been seen. -/
theorem notMem_of_distinct {rest : List (ℤ × RowEdits)}
    (h : KeyedList.Distinct (seen ++ entry :: rest)) : entry.1 ∉ seen.map Prod.fst := by
  rw [KeyedList.Distinct, List.map_append] at h
  intro hmem
  exact (List.nodup_append.mp h).2.2 _ hmem _ List.mem_cons_self rfl

/-- The loop over some of the rows. -/
theorem Progress.foldl (h : m.Progress seen s) (hold : ∀ e ∈ seen, 0 ≤ e.1)
    {rest : List (ℤ × RowEdits)}
    (hrest : ∀ e ∈ rest, EditsOf m.rows.length m.columnNames.length e)
    (hdistinct : KeyedList.Distinct (seen ++ rest)) (pkIndex : ℕ) :
    m.Progress (seen ++ rest) (rest.foldl (m.submitRow doubleText exec pkIndex) s) := by
  induction rest generalizing seen s with
  | nil =>
      rw [List.append_nil]
      exact h
  | cons entry rest ih =>
      have hentry := hrest entry List.mem_cons_self
      have hnew := notMem_of_distinct hdistinct
      have hsplit : seen ++ entry :: rest = seen ++ [entry] ++ rest := by simp
      rw [hsplit] at hdistinct ⊢
      refine ih (h.submitRow doubleText exec hold hentry hnew pkIndex) ?_
        (fun e he => hrest e (List.mem_cons_of_mem _ he)) hdistinct
      intro e he
      rcases List.mem_append.mp he with he | he
      · exact hold e he
      · rw [List.mem_singleton.mp he]
        exact hentry.row.1

/-- **The loop of `submit`** over all edited rows. -/
theorem progress (h : m.Sound) (pkIndex : ℕ) (database : σ) : m.Progress m.pendingEdits
    (m.pendingEdits.foldl (m.submitRow doubleText exec pkIndex) (m.submission database)) :=
  (progress_submission h database).foldl doubleText exec (List.forall_mem_nil _) h.edits
    h.distinct pkIndex

/-- Nothing has been written, and all edits are kept. -/
theorem progress_refused (h : m.Sound) (hne : m.pendingEdits ≠ []) (database : σ) :
    m.Progress m.pendingEdits { m.submission database with
      failedEdits := m.pendingEdits, success := false } where
  length := rfl
  width := h.width
  updated _ _ hmem := absurd hmem List.not_mem_nil
  untouched _ _ _ _ := rfl
  failed := by
    refine (List.filter_eq_self.mpr fun e _ => ?_).symm
    exact decide_eq_true List.not_mem_nil
  asked _ hmem := absurd hmem List.not_mem_nil
  once := List.nodup_nil
  success := iff_of_false Bool.false_ne_true hne

/-- What a result of `submit` owes to what has been done to the rows. -/
structure Returns (m : SqlTableModel) (s : Submission σ)
    (result : Bool × SqlTableModel × Submission σ) : Prop where
  asked : result.2.2.asked = s.asked
  columnNames : result.2.1.columnNames = m.columnNames
  rows : result.2.1.rows = s.rows
  pendingEdits : result.2.1.pendingEdits = s.failedEdits
  ok : result.1 = true ↔ s.failedEdits = []

/-- **What `submit` returns**: the loop has been run, or nothing has been written. -/
theorem submit_spec (h : m.Sound) (database : σ) :
    ∃ s, m.Progress m.pendingEdits s ∧ m.Returns s (m.submit doubleText exec database) := by
  rw [submit]
  dsimp only
  by_cases hnil : m.pendingEdits = []
  · rw [if_pos hnil]
    refine ⟨m.submission database, ?_, ⟨rfl, rfl, rfl, hnil, iff_of_true rfl rfl⟩⟩
    rw [hnil]
    exact progress_submission h database
  rw [if_neg hnil]
  by_cases htable : m.tableName = []
  · rw [if_pos htable]
    exact ⟨_, progress_refused h hnil database,
      ⟨rfl, rfl, rfl, rfl, iff_of_false Bool.false_ne_true hnil⟩⟩
  rw [if_neg htable]
  cases m.primaryKeyColumnIndex with
  | none =>
      exact ⟨_, progress_refused h hnil database,
        ⟨rfl, rfl, rfl, rfl, iff_of_false Bool.false_ne_true hnil⟩⟩
  | some pkIndex =>
      have hprogress := progress doubleText exec h pkIndex database
      refine ⟨_, hprogress, ?_⟩
      have hsuccess := hprogress.success
      dsimp only
      split
      · rename_i hfailed
        rw [Bool.not_eq_true'] at hfailed
        refine ⟨rfl, rfl, rfl, rfl, ?_⟩
        rw [← hsuccess, hfailed]
      · rename_i hdone
        rw [Bool.not_eq_true', Bool.not_eq_false] at hdone
        exact ⟨rfl, rfl, rfl, rfl, iff_of_true rfl (hsuccess.mp hdone)⟩

end Progress

/-! ### What calls keep -/

theorem EditsOf.perm {rows columns : ℕ} {entry entry' : ℤ × RowEdits}
    (h : EditsOf rows columns entry) (hkey : entry.1 = entry'.1) (hperm : entry.2.Perm entry'.2) :
    EditsOf rows columns entry' where
  row := hkey ▸ h.row
  column e he := h.column e (hperm.mem_iff.mpr he)
  some hnil := h.some (List.perm_nil.mp (hnil ▸ hperm))
  distinct := h.distinct.perm hperm

/-- Edits that are iterated in another order. -/
theorem Sound.reordered {m : SqlTableModel} (h : m.Sound) {edits : List (ℤ × RowEdits)}
    (hreordered : Reordered m.pendingEdits edits) : Sound { m with pendingEdits := edits } := by
  obtain ⟨moved, hperm, hrows⟩ := hreordered
  have hmoved : ∀ entry ∈ moved, EditsOf m.rows.length m.columnNames.length entry :=
    fun entry hentry => h.edits entry (hperm.mem_iff.mpr hentry)
  have hdistinct : KeyedList.Distinct moved := h.distinct.perm hperm
  have hall : (∀ entry ∈ edits, EditsOf m.rows.length m.columnNames.length entry) ∧
      edits.map Prod.fst = moved.map Prod.fst := by
    clear hperm hdistinct
    induction hrows with
    | nil => exact ⟨List.forall_mem_nil _, rfl⟩
    | cons he _ ih =>
        rw [List.forall_mem_cons] at hmoved ⊢
        obtain ⟨hedits, hkeys⟩ := ih hmoved.2
        refine ⟨⟨hmoved.1.perm he.1 he.2, hedits⟩, ?_⟩
        rw [List.map_cons, List.map_cons, he.1, hkeys]
  refine ⟨h.width, hall.1, ?_⟩
  rw [KeyedList.Distinct, hall.2]
  exact hdistinct

theorem Sound.setData {m : SqlTableModel} (h : m.Sound) (row column : ℤ) (value : Variant) :
    (m.setData row column value).2.Sound := by
  rw [SqlTableModel.setData]
  split
  · exact h
  split
  · exact h
  rename_i heditable _
  simp only [isEditable, Bool.not_eq_true', Bool.not_eq_false, Bool.and_eq_true,
    decide_eq_true_eq] at heditable
  obtain ⟨⟨⟨hrow, hrow'⟩, hcolumn⟩, hcolumn'⟩ := heditable
  refine ⟨h.width, ?_, KeyedList.nodup_assign h.distinct _ _⟩
  rintro ⟨row', edits⟩ hentry
  rcases (KeyedList.mem_assign_iff h.distinct).mp hentry with ⟨rfl, rfl⟩ | ⟨-, hold⟩
  · have hbefore : KeyedList.Distinct ((m.pendingEdits.lookup row').getD []) ∧
        ∀ e ∈ (m.pendingEdits.lookup row').getD [], 0 ≤ e.1 ∧ e.1 < m.columnNames.length := by
      cases hlookup : m.pendingEdits.lookup row' with
      | none => exact ⟨List.nodup_nil, List.forall_mem_nil _⟩
      | some edits =>
          have hedits := h.edits _ ((KeyedList.lookup_eq_some_iff_mem h.distinct).mp hlookup)
          exact ⟨hedits.distinct, hedits.column⟩
    refine ⟨⟨hrow, hrow'⟩, ?_, ?_, KeyedList.nodup_assign hbefore.1 _ _⟩
    · rintro ⟨column', value'⟩ he
      rcases (KeyedList.mem_assign_iff hbefore.1).mp he with ⟨rfl, -⟩ | ⟨-, hold⟩
      · exact ⟨hcolumn, hcolumn'⟩
      · exact hbefore.2 _ hold
    · intro hnil
      have hkey := (KeyedList.keys_assign column (fun _ => value)
        ((m.pendingEdits.lookup row').getD []) column).mpr (Or.inl rfl)
      rw [show KeyedList.assign column (fun _ => value) ((m.pendingEdits.lookup row').getD []) = []
        from hnil] at hkey
      exact absurd hkey List.not_mem_nil
  · exact h.edits _ hold

theorem Sound.select {m : SqlTableModel} (h : m.Sound) (query : Bytes → Selected) :
    (m.select query).2.Sound := by
  rw [SqlTableModel.select]
  split
  · exact ⟨h.width, h.edits, h.distinct⟩
  split
  · exact ⟨h.width, h.edits, h.distinct⟩
  split
  · exact ⟨h.width, h.edits, h.distinct⟩
  refine ⟨fun row hrow => ?_, List.forall_mem_nil _, List.nodup_nil⟩
  obtain ⟨fetched, -, rfl⟩ := List.mem_map.mp hrow
  rw [List.length_map, List.length_range]
  rfl

theorem Sound.submit {m : SqlTableModel} (h : m.Sound) {σ : Type} (doubleText : DoubleText)
    (exec : σ → Bytes → Option (DatabaseError × Bytes) × σ) (database : σ) :
    (m.submit doubleText exec database).2.1.Sound := by
  obtain ⟨s, hprogress, hreturns⟩ := submit_spec doubleText exec h database
  have hsub : s.failedEdits.Sublist m.pendingEdits := by
    rw [hprogress.failed]
    exact List.filter_sublist
  constructor
  · rw [hreturns.rows, hreturns.columnNames]
    exact hprogress.width
  · rw [hreturns.rows, hreturns.columnNames, hreturns.pendingEdits, hprogress.length]
    exact fun entry hentry => h.edits entry (hsub.subset hentry)
  · rw [hreturns.pendingEdits]
    exact h.distinct.sublist (hsub.map Prod.fst)

/-- **Models that have been reached** have edits of cells that there are, one of each. -/
theorem Reached.sound {m : SqlTableModel} (h : Reached m) : m.Sound := by
  induction h with
  | empty => exact ⟨List.forall_mem_nil _, List.forall_mem_nil _, List.nodup_nil⟩
  | setTable tableName _ ih => exact ⟨ih.width, ih.edits, ih.distinct⟩
  | setPrimaryKeyColumn columnName _ ih => exact ⟨ih.width, ih.edits, ih.distinct⟩
  | select query _ ih => exact ih.select query
  | setData row column value _ ih => exact ih.setData row column value
  | revert _ ih => exact ⟨ih.width, List.forall_mem_nil _, List.nodup_nil⟩
  | submit doubleText exec database _ ih => exact ih.submit doubleText exec database
  | rehash _ hreordered ih => exact ih.reordered hreordered

/-! ### Partial failures -/

/-- **What the database is asked and answers**: it gets the statement of each row in order, with the
state that the statements before have left, until it reports an error for one of them. -/
inductive Attempts {σ : Type} (statement : ℤ × RowEdits → Bytes)
    (exec : σ → Bytes → Option (DatabaseError × Bytes) × σ) :
    σ → List (ℤ × RowEdits) → List (ℤ × Bool) → σ → Prop
  | nil (database : σ) : Attempts statement exec database [] [] database
  | updated {database next last : σ} {entry : ℤ × RowEdits} {rest : List (ℤ × RowEdits)}
      {asked : List (ℤ × Bool)} :
      exec database (statement entry) = (none, next) →
      Attempts statement exec next rest asked last →
      Attempts statement exec database (entry :: rest) ((entry.1, true) :: asked) last
  | failed {database next : σ} {entry : ℤ × RowEdits} {rest : List (ℤ × RowEdits)}
      {error : DatabaseError × Bytes} :
      exec database (statement entry) = (some error, next) →
      Attempts statement exec database (entry :: rest) [(entry.1, false)] next

/-- What `submit` owes, given the rows that the database has been asked to update and what it has
answered: no cell shows another value; the rows that have been updated have their new values and are
not pending, and the others are as they were and keep their edits; and the result tells whether an
edit is pending. -/
structure Keeps {σ : Type} (m : SqlTableModel) (doubleText : DoubleText)
    (exec : σ → Bytes → Option (DatabaseError × Bytes) × σ) (database : σ) (ok : Bool)
    (m' : SqlTableModel) (asked : List (ℤ × Bool)) (database' : σ) : Prop where
  attempts : ∀ pkIndex, m.tableName ≠ [] → m.primaryKeyColumnIndex = some pkIndex →
    Attempts (m.rowStatement doubleText pkIndex) exec database m.pendingEdits asked database'
  refused : m.tableName = [] ∨ m.primaryKeyColumnIndex = none →
    asked = [] ∧ database' = database
  shows : ∀ row column, m'.data row column = m.data row column
  written : ∀ row edits, (row, edits) ∈ m.pendingEdits → (row, true) ∈ asked →
    (∀ column value, (column, value) ∈ edits → cell m'.rows row column = value) ∧
      row ∉ m'.pendingEdits.map Prod.fst
  kept : ∀ row edits, (row, edits) ∈ m.pendingEdits → (row, true) ∉ asked →
    (row, edits) ∈ m'.pendingEdits
  untouched : ∀ row, 0 ≤ row → (row, true) ∉ asked → ∀ column,
    cell m'.rows row column = cell m.rows row column
  pending : m'.pendingEdits.Sublist m.pendingEdits
  edited : ∀ a ∈ asked, a.1 ∈ m.pendingEdits.map Prod.fst
  once : KeyedList.Distinct asked
  ok_iff : ok = true ↔ m'.pendingEdits = []

section Keeps

variable {m : SqlTableModel} {σ : Type} {s : Submission σ}

/-- The edits that are left of those of a row. -/
theorem lookup_failedEdits (h : m.Sound) (hprogress : m.Progress m.pendingEdits s) (row : ℤ) :
    s.failedEdits.lookup row =
      if (row, true) ∈ s.asked then none else m.pendingEdits.lookup row := by
  have hdistinct : KeyedList.Distinct s.failedEdits := by
    rw [hprogress.failed]
    exact h.distinct.sublist (List.filter_sublist.map Prod.fst)
  refine Option.ext fun edits => ?_
  rw [KeyedList.lookup_eq_some_iff_mem hdistinct, hprogress.failed, List.mem_filter,
    decide_eq_true_eq]
  split
  · rename_i hasked
    exact iff_of_false (fun hmem => hmem.2 hasked) (by simp)
  · rename_i hasked
    rw [KeyedList.lookup_eq_some_iff_mem h.distinct]
    exact and_iff_left hasked

/-- No cell shows another value. -/
theorem cachedValue_submit {m' : SqlTableModel} (h : m.Sound)
    (hprogress : m.Progress m.pendingEdits s) (hrows : m'.rows = s.rows)
    (hpending : m'.pendingEdits = s.failedEdits) {row column : ℤ} (hrow : 0 ≤ row)
    (hcolumn : 0 ≤ column ∧ column < m.columnNames.length) :
    m'.cachedValue row column = m.cachedValue row column := by
  rw [cachedValue, cachedValue, hrows, hpending, lookup_failedEdits h hprogress]
  by_cases hasked : (row, true) ∈ s.asked
  · rw [if_pos hasked]
    obtain ⟨entry, hentry, rfl⟩ := List.mem_map.mp (hprogress.asked _ hasked)
    have hlookup : m.pendingEdits.lookup entry.1 = some entry.2 :=
      (KeyedList.lookup_eq_some_iff_mem h.distinct).mpr hentry
    rw [hlookup]
    have hcell := hprogress.updated entry hentry hasked column hcolumn
    cases hvalue : entry.2.lookup column with
    | none =>
        rw [hvalue] at hcell
        simpa [hvalue] using hcell
    | some value =>
        rw [hvalue] at hcell
        simpa [hvalue] using hcell
  · rw [if_neg hasked, hprogress.untouched row hrow hasked]

variable (doubleText : DoubleText) (exec : σ → Bytes → Option (DatabaseError × Bytes) × σ)

/-- Behind a failure the database is not asked any more. -/
theorem foldl_of_failed (m : SqlTableModel) (hfailed : s.success = false) (pkIndex : ℕ)
    (rest : List (ℤ × RowEdits)) :
    (rest.foldl (m.submitRow doubleText exec pkIndex) s).asked = s.asked ∧
      (rest.foldl (m.submitRow doubleText exec pkIndex) s).database = s.database := by
  induction rest generalizing s with
  | nil => exact ⟨rfl, rfl⟩
  | cons entry rest ih =>
      rw [List.foldl_cons, submitRow_of_failed doubleText exec m hfailed]
      exact @ih { s with failedEdits := s.failedEdits ++ [entry] } hfailed

/-- **The loop of `submit` asks the database** for the rows that are left, until it fails. -/
theorem Progress.attempts {seen rest : List (ℤ × RowEdits)} (h : m.Progress seen s)
    (hsuccess : s.success = true) (hold : ∀ e ∈ seen, 0 ≤ e.1)
    (hrest : ∀ e ∈ rest, EditsOf m.rows.length m.columnNames.length e)
    (hdistinct : KeyedList.Distinct (seen ++ rest)) (pkIndex : ℕ) :
    ∃ asked, (rest.foldl (m.submitRow doubleText exec pkIndex) s).asked = s.asked ++ asked ∧
      Attempts (m.rowStatement doubleText pkIndex) exec s.database rest asked
        (rest.foldl (m.submitRow doubleText exec pkIndex) s).database := by
  induction rest generalizing seen s with
  | nil => exact ⟨[], (List.append_nil _).symm, .nil _⟩
  | cons entry rest ih =>
      have hentry := hrest entry List.mem_cons_self
      have hnew := notMem_of_distinct hdistinct
      have hnext := h.submitRow doubleText exec hold hentry hnew pkIndex
      rw [List.foldl_cons]
      rw [h.submitRow_eq doubleText exec hentry hnew hsuccess] at hnext ⊢
      rcases hexec : exec s.database (m.rowStatement doubleText pkIndex entry) with
        ⟨_ | error, next⟩
      · rw [hexec] at hnext
        rw [List.append_cons] at hdistinct
        obtain ⟨asked, hasked, hattempts⟩ := ih hnext hsuccess
          (fun e he => (List.mem_append.mp he).elim (hold e) fun he =>
            List.mem_singleton.mp he ▸ hentry.row.1)
          (fun e he => hrest e (List.mem_cons_of_mem _ he)) hdistinct
        refine ⟨(entry.1, true) :: asked, ?_, .updated hexec hattempts⟩
        exact hasked.trans (List.append_assoc _ _ _)
      · obtain ⟨hasked, hdatabase⟩ := @foldl_of_failed _ { s with
          failedEdits := s.failedEdits ++ [entry]
          success := false
          error := error
          database := next
          asked := s.asked ++ [(entry.1, false)] } doubleText exec m rfl pkIndex rest
        dsimp only
        rw [hasked, hdatabase]
        exact ⟨_, rfl, .failed hexec⟩

/-- A `submit` that does not refuse is its loop. -/
theorem submit_loop (m : SqlTableModel) (database : σ) {pkIndex : ℕ} (htable : m.tableName ≠ [])
    (hpk : m.primaryKeyColumnIndex = some pkIndex) : (m.submit doubleText exec database).2.2 =
      m.pendingEdits.foldl (m.submitRow doubleText exec pkIndex) (m.submission database) := by
  rw [submit]
  dsimp only
  split
  · rename_i hnil
    rw [hnil]
    rfl
  · rw [hpk]
    dsimp only
    split
    · rfl
    · rfl

/-- `submit` asks the database for the pending rows, until it fails. -/
theorem attempts_submit (h : m.Sound) (database : σ) {pkIndex : ℕ} (htable : m.tableName ≠ [])
    (hpk : m.primaryKeyColumnIndex = some pkIndex) :
    Attempts (m.rowStatement doubleText pkIndex) exec database m.pendingEdits
      (m.submit doubleText exec database).2.2.asked
      (m.submit doubleText exec database).2.2.database := by
  obtain ⟨asked, hasked, hattempts⟩ := (progress_submission h database).attempts doubleText exec rfl
    (List.forall_mem_nil _) h.edits h.distinct pkIndex
  rw [submit_loop doubleText exec m database htable hpk, hasked]
  exact hattempts

/-- A `submit` that refuses does not ask the database. -/
theorem submit_refused (m : SqlTableModel) (database : σ)
    (h : m.tableName = [] ∨ m.primaryKeyColumnIndex = none) :
    (m.submit doubleText exec database).2.2 = m.submission database := by
  rw [submit]
  dsimp only
  split
  · rfl
  split
  · rfl
  · rename_i htable
    rw [h.resolve_left htable]

/-- **Partial failures.** Whichever edits are pending, in whichever order they are iterated, and
whatever the database answers: no edit is lost, none is made twice, and those that have not been
written stay pending. -/
theorem submit_keeps (h : m.Reached) (doubleText : DoubleText)
    (exec : σ → Bytes → Option (DatabaseError × Bytes) × σ) (database : σ) :
    m.Keeps doubleText exec database (m.submit doubleText exec database).1
      (m.submit doubleText exec database).2.1 (m.submit doubleText exec database).2.2.asked
      (m.submit doubleText exec database).2.2.database := by
  have hsound := h.sound
  obtain ⟨s, hprogress, hreturns⟩ := submit_spec doubleText exec hsound database
  obtain ⟨hasked, hcolumns, hrows, hpending, hok⟩ := hreturns
  have hdata := fun row column => @cachedValue_submit _ _ _ _ hsound hprogress hrows hpending
    row column
  have hwritten : ∀ entry ∈ m.pendingEdits, (entry.1, true) ∉ s.asked ↔
      entry ∈ s.failedEdits := fun entry hentry => by
    rw [hprogress.failed, List.mem_filter, decide_eq_true_eq]
    exact (and_iff_right hentry).symm
  constructor
  · exact fun pkIndex htable hpk => attempts_submit doubleText exec hsound database htable hpk
  · intro hrefused
    rw [submit_refused doubleText exec m database hrefused]
    exact ⟨rfl, rfl⟩
  · intro row column
    rw [data, data, rowCount, rowCount, columnCount, columnCount, hrows, hcolumns,
      hprogress.length]
    split
    · rfl
    · rename_i hrange
      simp only [Bool.or_eq_true, decide_eq_true_eq, not_or, not_lt, not_le] at hrange
      obtain ⟨⟨⟨hrow, -⟩, hcolumn⟩, hcolumn'⟩ := hrange
      exact hdata row column hrow ⟨hcolumn, hcolumn'⟩
  · intro row edits hentry hmem
    rw [hasked] at hmem
    have hedits := hsound.edits _ hentry
    refine ⟨fun column value hvalue => ?_, fun hleft => ?_⟩
    · have hlookup := (KeyedList.lookup_eq_some_iff_mem hedits.distinct).mpr hvalue
      rw [hrows, hprogress.updated _ hentry hmem column (hedits.column _ hvalue), hlookup]
      rfl
    · rw [hpending] at hleft
      obtain ⟨entry, hentry', heq⟩ := List.mem_map.mp hleft
      rw [hprogress.failed, List.mem_filter, decide_eq_true_eq, heq] at hentry'
      exact hentry'.2 hmem
  · intro row edits hentry hmem
    rw [hasked] at hmem
    rw [hpending]
    exact (hwritten _ hentry).mp hmem
  · intro row hrow hmem column
    rw [hasked] at hmem
    rw [hrows]
    exact hprogress.untouched row hrow hmem column
  · rw [hpending, hprogress.failed]
    exact List.filter_sublist
  · rw [hasked]
    exact hprogress.asked
  · rw [hasked]
    exact hprogress.once
  · rw [hpending]
    exact hok

end Keeps

/-- A table of two rows, both of which have been edited. -/
def editedTwice : SqlTableModel :=
  let loaded := (select { tableName := bytes "t" } fun _ =>
    .fetched [bytes "id", bytes "name"] [fun _ => .int64 1, fun _ => .int64 2] (.noError, [])).2
  ((loaded.setData 0 1 (.string [97])).2.setData 1 1 (.string [98])).2

theorem reached_editedTwice : Reached editedTwice :=
  .setData _ _ _ (.setData _ _ _ (.select _ (.setTable _ .empty)))

/-- A database that fails at the second statement. -/
def failsSecond (n : ℕ) (_ : Bytes) : Option (DatabaseError × Bytes) × ℕ :=
  (if n = 1 then some (.queryFailed, []) else none, n + 1)

/-- The first row is written, and the second stays pending. -/
theorem submit_keeps_second :
    editedTwice.Keeps (fun _ => []) failsSecond 0
        (editedTwice.submit (fun _ => []) failsSecond 0).1
        (editedTwice.submit (fun _ => []) failsSecond 0).2.1
        (editedTwice.submit (fun _ => []) failsSecond 0).2.2.asked
        (editedTwice.submit (fun _ => []) failsSecond 0).2.2.database ∧
      (editedTwice.submit (fun _ => []) failsSecond 0).2.2.asked = [(0, true), (1, false)] ∧
      (editedTwice.submit (fun _ => []) failsSecond 0).2.1.pendingEdits =
        [(1, [(1, .string [98])])] :=
  ⟨submit_keeps reached_editedTwice (fun _ => []) failsSecond 0, by decide +kernel,
    by decide +kernel⟩

end SqlTableModel

end SimplyNode
