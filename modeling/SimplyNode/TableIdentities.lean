import SimplyNode.Lib.Renumbering
import SimplyNode.Lib.Transition
import SimplyNode.TableSelection

/-!
# What Views Refer to

The rows and the columns of a model have identities that stay with them when others are inserted or
removed. A `TableView` and a `DataWidgetMapper` keep numbers, which change at every signal of the
model: what a number refers to is the identity that has it.

## Main results

* `TableView.handleSignal_eq`, `Gui.handleSignal_mapper`: what a signal makes of the numbers.
* `Views.notify_follows`: what one signal makes of the identities.
* `views_follow`: views refer to the same rows and columns all along a run, but for removed ones.
-/

namespace SimplyNode

open Renumbering

/-- The identities of the rows and the columns of a model, in their order. -/
structure Identities (ι : Type) where
  rows : List ι
  columns : List ι

/-- Rows or columns are inserted or removed. -/
inductive TableChange (ι : Type)
  | insertRows (first : ℕ) (new : List ι)
  | removeRows (first count : ℕ)
  | insertColumns (first : ℕ) (new : List ι)
  | removeColumns (first count : ℕ)

variable {ι : Type}

namespace Identities

variable (t : Identities ι)

/-- No two rows and no two columns have the same identity. -/
structure Distinct : Prop where
  rows : t.rows.Nodup
  columns : t.columns.Nodup

/-- The identities after a change. -/
def apply : TableChange ι → Identities ι
  | .insertRows first new => { t with rows := t.rows.take first ++ new ++ t.rows.drop first }
  | .removeRows first count => { t with rows := t.rows.take first ++ t.rows.drop (first + count) }
  | .insertColumns first new =>
      { t with columns := t.columns.take first ++ new ++ t.columns.drop first }
  | .removeColumns first count =>
      { t with columns := t.columns.take first ++ t.columns.drop (first + count) }

/-- The range of a change is one of the model, and what is inserted is new. -/
def Valid : TableChange ι → Prop
  | .insertRows first new => first ≤ t.rows.length ∧ (t.rows ++ new).Nodup
  | .removeRows first count => first + count ≤ t.rows.length
  | .insertColumns first new => first ≤ t.columns.length ∧ (t.columns ++ new).Nodup
  | .removeColumns first count => first + count ≤ t.columns.length

instance [DecidableEq ι] (c : TableChange ι) : Decidable (t.Valid c) :=
  match c with
  | .insertRows first new =>
      inferInstanceAs (Decidable (first ≤ t.rows.length ∧ (t.rows ++ new).Nodup))
  | .removeRows first count => inferInstanceAs (Decidable (first + count ≤ t.rows.length))
  | .insertColumns first new =>
      inferInstanceAs (Decidable (first ≤ t.columns.length ∧ (t.columns ++ new).Nodup))
  | .removeColumns first count => inferInstanceAs (Decidable (first + count ≤ t.columns.length))

end Identities

namespace TableChange

/-- The signal that the model emits after a change. -/
def signal : TableChange ι → ModelSignal
  | insertRows first new => .rowsInserted first new.length
  | removeRows first count => .rowsRemoved first count
  | insertColumns first new => .columnsInserted first new.length
  | removeColumns first count => .columnsRemoved first count

/-- The rows that are not removed. -/
def keptRow : TableChange ι → ℤ → Bool
  | removeRows first count => fun n => !TableView.isRemoved first count n
  | _ => fun _ => true

/-- The number that a row gets. -/
def newRow : TableChange ι → ℤ → ℤ
  | insertRows first new => TableView.insertedAt first new.length
  | removeRows first count => TableView.removedAt first count
  | _ => id

/-- The columns that are not removed. -/
def keptColumn : TableChange ι → ℤ → Bool
  | removeColumns first count => fun n => !TableView.isRemoved first count n
  | _ => fun _ => true

/-- The number that a column gets. -/
def newColumn : TableChange ι → ℤ → ℤ
  | insertColumns first new => TableView.insertedAt first new.length
  | removeColumns first count => TableView.removedAt first count
  | _ => id

end TableChange

/-! ### Changes of identities -/

/-- The numbers behind elements that are inserted. -/
theorem renumbers_insert {l new : List ι} {first : ℕ} (h : first ≤ l.length) :
    Renumbers l (l.take first ++ new ++ l.drop first) (fun _ => true)
      (TableView.insertedAt first new.length) := by
  have hr := Renumbers.insert (l.take first) new (l.drop first)
  rw [List.take_append_drop, List.length_take_of_le h] at hr
  exact hr

/-- The numbers behind elements that are removed. -/
theorem renumbers_remove {l : List ι} {first count : ℕ} (h : first + count ≤ l.length)
    (hl : l.Nodup) :
    Renumbers l (l.take first ++ l.drop (first + count))
      (fun n => !TableView.isRemoved first count n) (TableView.removedAt first count) := by
  have hsplit : l.take first ++ (l.drop first).take count ++ l.drop (first + count) = l := by
    rw [List.append_assoc, ← List.drop_drop, List.take_append_drop, List.take_append_drop]
  have hcount : ((l.drop first).take count).length = count :=
    List.length_take_of_le (by rw [List.length_drop]; omega)
  have hr := Renumbers.remove (hsplit.symm ▸ hl)
  rw [hsplit, hcount, List.length_take_of_le (by omega)] at hr
  exact hr

/-- What is inserted is new, so that nothing is there twice. -/
theorem nodup_insert {l new : List ι} (h : (l ++ new).Nodup) (first : ℕ) :
    (l.take first ++ new ++ l.drop first).Nodup := by
  have hperm : (l.take first ++ new ++ l.drop first).Perm (l ++ new) := by
    calc (l.take first ++ new ++ l.drop first).Perm (l.take first ++ (l.drop first ++ new)) := by
          rw [List.append_assoc]
          exact List.perm_append_comm.append_left _
      _ = l ++ new := by rw [← List.append_assoc, List.take_append_drop]
  exact hperm.nodup_iff.mpr h

/-- Nothing is there twice when some of it has been removed. -/
theorem nodup_remove {l : List ι} (h : l.Nodup) (first count : ℕ) :
    (l.take first ++ l.drop (first + count)).Nodup := by
  have hsub : (l.take first ++ l.drop (first + count)).Sublist l := by
    conv_rhs => rw [← List.take_append_drop first l]
    rw [← List.drop_drop]
    exact (List.drop_sublist count _).append_left _
  exact h.sublist hsub

namespace Identities

variable {t : Identities ι} {c : TableChange ι}

/-- A valid change puts nothing in the table twice. -/
theorem Distinct.apply (h : t.Distinct) (hc : t.Valid c) : (t.apply c).Distinct := by
  cases c with
  | insertRows first new => exact ⟨nodup_insert hc.2 first, h.columns⟩
  | removeRows first count => exact ⟨nodup_remove h.rows first count, h.columns⟩
  | insertColumns first new => exact ⟨h.rows, nodup_insert hc.2 first⟩
  | removeColumns first count => exact ⟨h.rows, nodup_remove h.columns first count⟩

/-- The rows that are kept, under their new indices. -/
theorem Distinct.renumbers_rows (h : t.Distinct) (hc : t.Valid c) :
    Renumbers t.rows (t.apply c).rows c.keptRow c.newRow := by
  cases c with
  | insertRows first new => exact renumbers_insert hc.1
  | removeRows first count => exact renumbers_remove hc h.rows
  | insertColumns first new => exact .refl _
  | removeColumns first count => exact .refl _

/-- The columns that are kept, under their new indices. -/
theorem Distinct.renumbers_columns (h : t.Distinct) (hc : t.Valid c) :
    Renumbers t.columns (t.apply c).columns c.keptColumn c.newColumn := by
  cases c with
  | insertRows first new => exact .refl _
  | removeRows first count => exact .refl _
  | insertColumns first new => exact renumbers_insert hc.1
  | removeColumns first count => exact renumbers_remove hc h.columns

end Identities

/-! ### The view -/

/-- Nothing is inserted. -/
theorem insertedAt_zero (first : ℤ) : TableView.insertedAt first 0 = id := by
  funext n
  rw [TableView.insertedAt]
  split
  · exact Int.add_zero n
  · rfl

/-- Nothing is removed. -/
theorem removedAt_zero (first : ℤ) : TableView.removedAt first 0 = id := by
  funext n
  rw [TableView.removedAt]
  split
  · exact Int.sub_zero n
  · rfl

/-- Nothing is removed. -/
theorem isRemoved_zero (first n : ℤ) : TableView.isRemoved first 0 n = false := by
  rw [Bool.eq_false_iff, ne_eq, TableView.isRemoved_iff]
  omega

namespace TableView

variable (v : TableView)

/-- Whether a row and a column are kept. -/
def keeps (c : TableChange ι) (row column : ℤ) : Bool := c.keptRow row && c.keptColumn column

/-- The numbers of a view after a change. -/
def moved (c : TableChange ι) : TableView := { v with
  selection := List.map (fun key => ⟨c.newRow key.row, c.newColumn key.column⟩)
    (v.selection.filter fun key => keeps c key.row key.column)
  hiddenColumns := (v.hiddenColumns.filter c.keptColumn).map c.newColumn
  currentRow := if keeps c v.currentRow v.currentColumn then c.newRow v.currentRow else -1
  currentColumn :=
    if keeps c v.currentRow v.currentColumn then c.newColumn v.currentColumn else -1 }

variable {v}

/-- A change that renumbers nothing. -/
theorem moved_of_id {c : TableChange ι} (hkeeps : ∀ row column, keeps c row column = true)
    (hcolumns : ∀ column, c.keptColumn column = true) (hrow : c.newRow = id)
    (hcolumn : c.newColumn = id) : v.moved c = v := by
  have hselection : (v.selection.filter fun key => keeps c key.row key.column) = v.selection :=
    List.filter_eq_self.mpr fun key _ => hkeeps _ _
  have hhidden : v.hiddenColumns.filter c.keptColumn = v.hiddenColumns :=
    List.filter_eq_self.mpr fun column _ => hcolumns column
  rw [moved, hselection, hhidden, hrow, hcolumn, hkeeps, if_pos rfl, if_pos rfl]
  simp only [id_eq, List.map_id_fun, List.map_id_fun']

/-- The view, when rows have been inserted: only row indices are shifted. -/
theorem moved_insertRows (first : ℕ) (new : List ι) :
    v.moved (.insertRows first new) = { v with
      selection := v.selection.map (.mapRow (insertedAt first new.length))
      currentRow := insertedAt first new.length v.currentRow } := by
  simp only [moved, keeps, TableChange.keptRow, TableChange.keptColumn, Bool.and_self,
    List.filter_true, TableChange.newColumn, List.map_id, if_true, id_eq]
  rfl

/-- The view, when rows have been removed. -/
theorem moved_removeRows (first count : ℕ) :
    v.moved (.removeRows first count : TableChange ι) = { v with
      selection := List.map (.mapRow (removedAt first count))
        (v.selection.filter fun key => !isRemoved first count key.row)
      currentRow :=
        if isRemoved first count v.currentRow then -1 else removedAt first count v.currentRow
      currentColumn := if isRemoved first count v.currentRow then -1 else v.currentColumn } := by
  simp only [moved, keeps, TableChange.keptRow, TableChange.keptColumn, Bool.and_true,
    List.filter_true, TableChange.newRow, TableChange.newColumn, List.map_id, id_eq]
  cases isRemoved first count v.currentRow
  · rfl
  · rfl

/-- The view, when columns have been inserted: only column indices are shifted. -/
theorem moved_insertColumns (first : ℕ) (new : List ι) :
    v.moved (.insertColumns first new) = { v with
      hiddenColumns := v.hiddenColumns.map (insertedAt first new.length)
      selection := v.selection.map (.mapColumn (insertedAt first new.length))
      currentColumn := insertedAt first new.length v.currentColumn } := by
  simp only [moved, keeps, TableChange.keptRow, TableChange.keptColumn, Bool.and_self,
    List.filter_true, TableChange.newRow, if_true, id_eq]
  rfl

/-- The view, when columns have been removed. -/
theorem moved_removeColumns (first count : ℕ) :
    v.moved (.removeColumns first count : TableChange ι) = { v with
      hiddenColumns := List.map (removedAt first count)
        (v.hiddenColumns.filter fun column => !isRemoved first count column)
      selection := List.map (.mapColumn (removedAt first count))
        (v.selection.filter fun key => !isRemoved first count key.column)
      currentRow := if isRemoved first count v.currentColumn then -1 else v.currentRow
      currentColumn := if isRemoved first count v.currentColumn then -1 else
        removedAt first count v.currentColumn } := by
  simp only [moved, keeps, TableChange.keptRow, TableChange.keptColumn, Bool.true_and,
    TableChange.newRow, TableChange.newColumn, id_eq]
  cases isRemoved first count v.currentColumn
  · rfl
  · rfl

/-- The view follows an insertion of rows. -/
theorem handleRowsInserted_eq (v : TableView) (first : ℕ) (new : List ι) :
    v.handleRowsInserted first new.length =
      (v.moved (.insertRows first new)).validateSelection := by
  rw [handleRowsInserted]
  split
  · rename_i hnone
    rw [moved_of_id]
    · exact fun _ _ => rfl
    · exact fun _ => rfl
    · rw [TableChange.newRow, show (new.length : ℤ) = 0 by omega, insertedAt_zero]
    · rfl
  · rw [moved_insertRows]
    dsimp only
    split
    · rename_i hbehind
      rw [insertedAt, if_pos hbehind]
      rfl
    · rename_i hbefore
      rw [insertedAt, if_neg hbefore]

/-- The view follows a removal of rows. -/
theorem handleRowsRemoved_eq (v : TableView) (first count : ℕ) :
    v.handleRowsRemoved first count =
      (v.moved (.removeRows first count : TableChange ι)).validateSelection := by
  rw [handleRowsRemoved]
  split
  · rename_i hnone
    have hzero : (count : ℤ) = 0 := by omega
    rw [moved_of_id]
    · simp only [keeps, TableChange.keptRow, TableChange.keptColumn, hzero, isRemoved_zero,
        Bool.not_false, Bool.and_self, implies_true]
    · exact fun _ => rfl
    · rw [TableChange.newRow, hzero, removedAt_zero]
    · rfl
  · rw [moved_removeRows]
    dsimp only
    split
    · rename_i hin
      rw [if_pos (isRemoved_iff.mpr hin), if_pos (isRemoved_iff.mpr hin)]
      rfl
    · rename_i hin
      rw [if_neg (hin ∘ isRemoved_iff.mp), if_neg (hin ∘ isRemoved_iff.mp), removedAt]
      split
      · rfl
      · rfl

/-- The view follows an insertion of columns. -/
theorem handleColumnsInserted_eq (v : TableView) (first : ℕ) (new : List ι) :
    v.handleColumnsInserted first new.length =
      (v.moved (.insertColumns first new)).validateSelection := by
  rw [handleColumnsInserted]
  split
  · rename_i hnone
    rw [moved_of_id]
    · exact fun _ _ => rfl
    · exact fun _ => rfl
    · rfl
    · rw [TableChange.newColumn, show (new.length : ℤ) = 0 by omega, insertedAt_zero]
  · rw [moved_insertColumns]
    dsimp only
    split
    · rename_i hbehind
      rw [insertedAt, if_pos hbehind]
      rfl
    · rename_i hbefore
      rw [insertedAt, if_neg hbefore]

/-- The view follows a removal of columns. -/
theorem handleColumnsRemoved_eq (v : TableView) (first count : ℕ) :
    v.handleColumnsRemoved first count =
      (v.moved (.removeColumns first count : TableChange ι)).validateSelection := by
  rw [handleColumnsRemoved]
  split
  · rename_i hnone
    have hzero : (count : ℤ) = 0 := by omega
    rw [moved_of_id]
    · simp only [keeps, TableChange.keptRow, TableChange.keptColumn, hzero, isRemoved_zero,
        Bool.not_false, Bool.and_self, implies_true]
    · simp only [TableChange.keptColumn, hzero, isRemoved_zero, Bool.not_false, implies_true]
    · rfl
    · rw [TableChange.newColumn, hzero, removedAt_zero]
  · rw [moved_removeColumns]
    dsimp only
    split
    · rename_i hin
      rw [if_pos (isRemoved_iff.mpr hin), if_pos (isRemoved_iff.mpr hin)]
      rfl
    · rename_i hin
      rw [if_neg (hin ∘ isRemoved_iff.mp), if_neg (hin ∘ isRemoved_iff.mp), removedAt]
      split
      · rfl
      · rfl

/-- **A signal** changes the numbers of a view and validates them. -/
theorem handleSignal_eq (v : TableView) (c : TableChange ι) :
    v.handleSignal c.signal = (v.moved c).validateSelection := by
  cases c with
  | insertRows first new => exact v.handleRowsInserted_eq first new
  | removeRows first count => exact v.handleRowsRemoved_eq first count
  | insertColumns first new => exact v.handleColumnsInserted_eq first new
  | removeColumns first count => exact v.handleColumnsRemoved_eq first count

/-! ### Validating -/

/-- The model has the rows and the columns of `t`. -/
def Shows (v : TableView) (t : Identities ι) : Prop :=
  ∃ id, v.model = some ⟨id, t.rows.length, t.columns.length⟩

/-- The hidden columns and the current cell of a view are there. -/
structure InTable (v : TableView) : Prop where
  hidden : ∀ column ∈ v.hiddenColumns, v.isValidColumn column = true
  current : v.currentRow = -1 ∧ v.currentColumn = -1 ∨
    v.isValidRow v.currentRow = true ∧
      (v.currentColumn = -1 ∨ v.isValidColumn v.currentColumn = true)

variable {t : Identities ι} {c : TableChange ι}

/-- The rows of the view are those of the table. -/
theorem Shows.isValidRow_iff (h : v.Shows t) {row : ℤ} :
    v.isValidRow row = true ↔ 0 ≤ row ∧ row < t.rows.length := by
  obtain ⟨id, hmodel⟩ := h
  rw [isValidRow, hmodel, Option.any_some, Bool.and_eq_true, decide_eq_true_eq,
    decide_eq_true_eq, max_eq_right (Int.natCast_nonneg _)]

/-- The columns of the view are those of the table. -/
theorem Shows.isValidColumn_iff (h : v.Shows t) {column : ℤ} :
    v.isValidColumn column = true ↔ 0 ≤ column ∧ column < t.columns.length := by
  obtain ⟨id, hmodel⟩ := h
  rw [isValidColumn, hmodel, Option.any_some, Bool.and_eq_true, decide_eq_true_eq,
    decide_eq_true_eq, max_eq_right (Int.natCast_nonneg _)]

/-- The current cell is set to what it is. -/
theorem updateCurrent_self {row column : ℤ} (hrow : v.currentRow = row)
    (hcolumn : v.currentColumn = column) : v.updateCurrent row column = v := by
  subst hrow hcolumn
  rfl

/-- Nothing is dropped where all that a view refers to is there. -/
theorem InTable.validateSelection_eq (h : v.InTable) (hshows : v.Shows t)
    (hkeys : ∀ key ∈ v.selection, v.HasKey key) : v.validateSelection = v := by
  obtain ⟨id, hmodel⟩ := hshows
  have hselection : v.selection.filter v.isValidSelectionKey = v.selection :=
    List.filter_eq_self.mpr fun key hkey =>
      (isValidSelectionKey_iff (hkeys key hkey).bounds.1 (hkeys key hkey).bounds.2).mpr
        (hkeys key hkey)
  rw [validateSelection_some hmodel, hselection]
  dsimp only
  split
  · rename_i hrow
    rcases h.current with ⟨hnone, hnone'⟩ | ⟨hvalid, -⟩
    · exact updateCurrent_self hnone hnone'
    · exact absurd (hrow.symm.trans hvalid) Bool.false_ne_true
  rename_i hrow
  split
  · rename_i hcell
    rcases h.current with ⟨-, hnone⟩ | ⟨hvalid, hnone | hvalid'⟩
    · exact absurd hnone hcell.1
    · exact absurd hnone hcell.1
    · have htrue : v.isValidCell v.currentRow v.currentColumn = true := by
        rw [isValidCell, hvalid, hvalid']
        rfl
      exact absurd (hcell.2.symm.trans htrue) Bool.false_ne_true
  · rfl

/-- The view after a change, before it is validated. -/
def changed (v : TableView) (t : Identities ι) (c : TableChange ι) : TableView :=
  (v.resized (t.apply c).rows.length (t.apply c).columns.length).moved c

/-- The view shows the table after the change. -/
theorem Shows.changed (h : v.Shows t) (c : TableChange ι) :
    (v.changed t c).Shows (t.apply c) := by
  obtain ⟨id, hmodel⟩ := h
  refine ⟨id, ?_⟩
  rw [TableView.changed, moved, resized, hmodel]
  rfl

section Changed

variable (h : v.Shows t) (ht : t.Distinct) (hc : t.Valid c)

include h ht hc

/-- A row that is kept has a valid new index. -/
theorem isValidRow_changed {row : ℤ} (hkept : c.keptRow row = true)
    (hrow : v.isValidRow row = true) : (v.changed t c).isValidRow (c.newRow row) = true := by
  obtain ⟨hrow₀, hlt⟩ := h.isValidRow_iff.mp hrow
  exact (h.changed c).isValidRow_iff.mpr ((ht.renumbers_rows hc).bounds hkept hrow₀ hlt)

/-- A column that is kept has a valid new index. -/
theorem isValidColumn_changed {column : ℤ} (hkept : c.keptColumn column = true)
    (hcolumn : v.isValidColumn column = true) :
    (v.changed t c).isValidColumn (c.newColumn column) = true := by
  obtain ⟨hcolumn₀, hlt⟩ := h.isValidColumn_iff.mp hcolumn
  exact (h.changed c).isValidColumn_iff.mpr
    ((ht.renumbers_columns hc).bounds hkept hcolumn₀ hlt)

/-- A column that is kept is as visible as before. -/
theorem isVisibleColumn_changed {column : ℤ} (hkept : c.keptColumn column = true)
    (hcolumn : v.isVisibleColumn column = true) :
    (v.changed t c).isVisibleColumn (c.newColumn column) = true := by
  obtain ⟨hvalid, hhidden⟩ := isVisibleColumn_iff.mp hcolumn
  rw [← Bool.not_eq_true, isColumnHidden_iff] at hhidden
  refine isVisibleColumn_iff.mpr ⟨isValidColumn_changed h ht hc hkept hvalid, ?_⟩
  rw [← Bool.not_eq_true, isColumnHidden_iff]
  intro hmem
  obtain ⟨old, hold, heq⟩ := List.mem_map.mp hmem
  obtain ⟨hold, hkept'⟩ := List.mem_filter.mp hold
  obtain ⟨hcolumn₀, hlt⟩ := h.isValidColumn_iff.mp hvalid
  have hsame := (ht.renumbers_columns hc).inj ht.columns hkept hkept' hcolumn₀ hlt heq.symm
  exact hhidden (hsame ▸ hold)

/-- What the changed view refers to is there. -/
theorem InTable.changed (hin : v.InTable) : (v.changed t c).InTable where
  hidden column hcolumn := by
    obtain ⟨old, hold, rfl⟩ := List.mem_map.mp hcolumn
    obtain ⟨hold, hkept⟩ := List.mem_filter.mp hold
    exact isValidColumn_changed h ht hc hkept (hin.hidden old hold)
  current := by
    have hnone := ((ht.renumbers_rows hc).none (-1) (by decide)).2
    have hnone' := ((ht.renumbers_columns hc).none (-1) (by decide)).2
    by_cases hkeeps : keeps c v.currentRow v.currentColumn = true
    · have hrow : (v.changed t c).currentRow = c.newRow v.currentRow := if_pos hkeeps
      have hcolumn : (v.changed t c).currentColumn = c.newColumn v.currentColumn := if_pos hkeeps
      rw [hrow, hcolumn]
      rw [keeps, Bool.and_eq_true] at hkeeps
      refine hin.current.imp (fun ⟨hr, hcol⟩ => ?_) fun ⟨hr, hcol⟩ => ⟨?_, ?_⟩
      · rw [hr, hcol]
        exact ⟨hnone, hnone'⟩
      · exact isValidRow_changed h ht hc hkeeps.1 hr
      · refine hcol.imp (fun hcol => ?_) (isValidColumn_changed h ht hc hkeeps.2)
        rw [hcol, hnone']
    · exact Or.inl ⟨if_neg hkeeps, if_neg hkeeps⟩

/-- The changed selection holds what is there and is shown. -/
theorem hasKey_changed (hkeys : ∀ key ∈ v.selection, v.HasKey key) :
    ∀ key ∈ (v.changed t c).selection, (v.changed t c).HasKey key := by
  intro key hkey
  obtain ⟨old, hold, rfl⟩ := List.mem_map.mp hkey
  obtain ⟨hold, hkept⟩ := List.mem_filter.mp hold
  rw [keeps, Bool.and_eq_true] at hkept
  have hkey := hkeys old hold
  have hnone := ((ht.renumbers_rows hc).none (-1) (by decide)).2
  have hnone' := ((ht.renumbers_columns hc).none (-1) (by decide)).2
  have hrow := hkey.row.imp_right (isValidRow_changed h ht hc hkept.1)
  have hcolumn := hkey.column.imp_right (isVisibleColumn_changed h ht hc hkept.2)
  refine ⟨hrow.imp_left fun heq => ?_, hcolumn.imp_left fun heq => ?_, fun hr hcol => ?_⟩
  · rw [heq, hnone]
  · rw [heq, hnone']
  · have hr : c.newRow old.row = -1 := hr
    have hcol : c.newColumn old.column = -1 := hcol
    refine hkey.some (hrow.resolve_right fun hvalid => ?_)
      (hcolumn.resolve_right fun hvisible => ?_)
    · have := nonneg_of_isValidRow hvalid
      omega
    · have := nonneg_of_isValidColumn (isVisibleColumn_iff.mp hvisible).1
      omega

end Changed

end TableView

/-! ### What a view refers to -/

/-- What a selection, hidden columns and a current cell refer to. -/
@[ext]
structure Denoted (ι : Type) where
  selection : List (Option ι × Option ι)
  hidden : List (Option ι)
  current : Option ι × Option ι

variable [DecidableEq ι]

/-- A row and a column that a model still has, where none is never missing. -/
def Identities.has (t : Identities ι) (cell : Option ι × Option ι) : Bool :=
  cell.1.all t.rows.contains && cell.2.all t.columns.contains

/-- Only what a model still has. -/
def Denoted.keep (d : Denoted ι) (t : Identities ι) : Denoted ι where
  selection := d.selection.filter t.has
  hidden := d.hidden.filter fun column => column.all t.columns.contains
  current := if t.has d.current then d.current else (none, none)

namespace TableView

variable {v : TableView} {t : Identities ι} {c : TableChange ι}

omit [DecidableEq ι] in
/-- What the numbers of a view refer to. -/
def denoted (v : TableView) (t : Identities ι) : Denoted ι where
  selection := v.selection.map fun key => (elementAt t.rows key.row, elementAt t.columns key.column)
  hidden := v.hiddenColumns.map (elementAt t.columns)
  current := (elementAt t.rows v.currentRow, elementAt t.columns v.currentColumn)

/-- A cell is kept if its row and its column are there after the change. -/
theorem keeps_eq (ht : t.Distinct) (hc : t.Valid c) (row column : ℤ) :
    keeps c row column =
      (t.apply c).has (elementAt t.rows row, elementAt t.columns column) := by
  rw [keeps, Identities.has, (ht.renumbers_rows hc).kept_eq, (ht.renumbers_columns hc).kept_eq]

/-- **The changed view** refers to what the view has referred to, but for what is removed. -/
theorem denoted_changed (ht : t.Distinct) (hc : t.Valid c) :
    (v.changed t c).denoted (t.apply c) = (v.denoted t).keep (t.apply c) := by
  have hrows := ht.renumbers_rows hc
  have hcolumns := ht.renumbers_columns hc
  refine Denoted.ext ?_ ?_ ?_
  · rw [denoted, Denoted.keep, denoted]
    dsimp only
    rw [List.filter_map, changed, moved, List.map_map]
    have hkeeps : (fun key : SelectionKey => keeps c key.row key.column) = (t.apply c).has ∘
        fun key => (elementAt t.rows key.row, elementAt t.columns key.column) :=
      funext fun key => keeps_eq ht hc key.row key.column
    rw [← hkeeps]
    refine List.map_congr_left fun key hkey => ?_
    have hkept := (List.mem_filter.mp hkey).2
    rw [keeps, Bool.and_eq_true] at hkept
    exact Prod.ext (hrows.element _ hkept.1) (hcolumns.element _ hkept.2)
  · rw [denoted, Denoted.keep, denoted]
    dsimp only
    rw [List.filter_map, changed, moved, List.map_map]
    have hkept : c.keptColumn =
        (fun column => column.all (t.apply c).columns.contains) ∘ elementAt t.columns :=
      funext hcolumns.kept_eq
    rw [← hkept]
    exact List.map_congr_left fun column hcolumn =>
      hcolumns.element _ (List.mem_filter.mp hcolumn).2
  · rw [denoted, Denoted.keep, denoted]
    dsimp only
    rw [← keeps_eq ht hc]
    cases hkeeps : keeps c v.currentRow v.currentColumn with
    | false =>
        have hnot : ¬ keeps c v.currentRow v.currentColumn = true := Bool.eq_false_iff.mp hkeeps
        have hrow : (v.changed t c).currentRow = -1 := if_neg hnot
        have hcolumn : (v.changed t c).currentColumn = -1 := if_neg hnot
        rw [hrow, hcolumn, elementAt_none _ (by decide), elementAt_none _ (by decide)]
        rfl
    | true =>
        have hrow : (v.changed t c).currentRow = c.newRow v.currentRow := if_pos hkeeps
        have hcolumn : (v.changed t c).currentColumn = c.newColumn v.currentColumn :=
          if_pos hkeeps
        rw [keeps, Bool.and_eq_true] at hkeeps
        rw [hrow, hcolumn, hrows.element _ hkeeps.1, hcolumns.element _ hkeeps.2]
        rfl

end TableView

/-! ### The mapper -/

namespace Gui

variable {σ : Type} {M : TableModel σ} {s : Gui σ} {t : Identities ι} {c : TableChange ι}

omit [DecidableEq ι] in
/-- The row that the current row of the mapper refers to. -/
def denotedRow (s : Gui σ) (t : Identities ι) : Option ι := elementAt t.rows s.mapper.currentRow

omit [DecidableEq ι] in
/-- The columns that the mappings refer to, with their widgets and roles. -/
def denotedColumns (s : Gui σ) (t : Identities ι) : List (NodePtr × ModelDataRole × Option ι) :=
  s.mapper.mappings.map fun m => (m.widget, m.role, elementAt t.columns m.column)

omit [DecidableEq ι] in
/-- The rows of the mapper are those of the model. -/
theorem isValidRow_iff {m : σ} {rows : ℕ} (hmodel : s.mapper.model = some m)
    (hrows : M.rowCount m = rows) {row : ℤ} :
    s.isValidRow M row = true ↔ 0 ≤ row ∧ row < rows := by
  rw [isValidRow, hmodel, Option.any_some, decide_eq_true_eq, hrows,
    max_eq_right (Int.natCast_nonneg _)]

omit [DecidableEq ι] in
/-- The columns of the mapper are those of the model. -/
theorem isValidColumn_iff {m : σ} {columns : ℕ} (hmodel : s.mapper.model = some m)
    (hcolumns : M.columnCount m = columns) {column : ℤ} :
    s.isValidColumn M column = true ↔ 0 ≤ column ∧ column < columns := by
  rw [isValidColumn, hmodel, Option.any_some, decide_eq_true_eq, hcolumns,
    max_eq_right (Int.natCast_nonneg _)]

/-- A mapping with the number that its column gets. -/
def movedMapping (c : TableChange ι) (m : Mapping) : Mapping :=
  { m with column := move c.keptColumn c.newColumn m.column }

omit [DecidableEq ι]

/-- Refreshing the mapped widgets changes neither row nor mappings. -/
theorem refresh_mapper (s : Gui σ) : (s.refresh M).mapper.model = s.mapper.model ∧
    (s.refresh M).mapper.currentRow = s.mapper.currentRow ∧
    (s.refresh M).mapper.mappings = s.mapper.mappings :=
  ⟨model_refreshMappings, (SameForm.refresh s).currentRow, (SameForm.refresh s).mappings⟩

/-- The current row is set, and the mappings stay. -/
theorem setCurrentRowInternal_mapper (s : Gui σ) (row : ℤ) :
    (s.setCurrentRowInternal M row).mapper.model = s.mapper.model ∧
      (s.setCurrentRowInternal M row).mapper.currentRow = row ∧
      (s.setCurrentRowInternal M row).mapper.mappings = s.mapper.mappings := by
  rw [setCurrentRowInternal]
  dsimp only
  split
  · exact refresh_mapper _
  · exact refresh_mapper _

/-- An index that does not change. -/
theorem move_of_id {kept : ℤ → Bool} (hkept : ∀ n, kept n = true) (n : ℤ) :
    move kept id n = n := if_pos (hkept n)

/-- Mappings of columns that do not change. -/
theorem map_movedMapping_of_id {c : TableChange ι} (hkept : ∀ n, c.keptColumn n = true)
    (hnew : c.newColumn = id) (mappings : List Mapping) :
    mappings.map (movedMapping c) = mappings := by
  have hid : movedMapping c = id := by
    funext m
    rw [movedMapping, hnew, move_of_id hkept]
    rfl
  rw [hid, List.map_id]

/-- The data of a mapper have changed as the numbers of the rows and the columns have. -/
structure Moved (s s' : Gui σ) (c : TableChange ι) : Prop where
  model : s'.mapper.model = s.mapper.model
  currentRow : s'.mapper.currentRow = move c.keptRow c.newRow s.mapper.currentRow
  mappings : s'.mapper.mappings = s.mapper.mappings.map (movedMapping c)

/-- The current row moves with the change, and no column does. -/
theorem Moved.setCurrentRowInternal {row : ℤ}
    (hrow : row = move c.keptRow c.newRow s.mapper.currentRow)
    (hmappings : s.mapper.mappings = s.mapper.mappings.map (movedMapping c)) :
    Moved s (s.setCurrentRowInternal M row) c := by
  obtain ⟨hmodel, hcurrent, hkept⟩ := setCurrentRowInternal_mapper (M := M) s row
  exact ⟨hmodel, hcurrent.trans hrow, hkept.trans hmappings⟩

/-- The mappings move with the change, and so does the row. -/
theorem Moved.refresh_withMappings {ms : List Mapping}
    (hrow : s.mapper.currentRow = move c.keptRow c.newRow s.mapper.currentRow)
    (hmappings : ms = s.mapper.mappings.map (movedMapping c)) :
    Moved s ((s.withMappings ms).refresh M) c := by
  obtain ⟨hmodel, hcurrent, hkept⟩ := refresh_mapper (M := M) (s.withMappings ms)
  exact ⟨hmodel, hcurrent.trans hrow, hkept.trans hmappings⟩

/-- Neither the row nor the mappings have to move. -/
theorem Moved.refresh (hrow : s.mapper.currentRow = move c.keptRow c.newRow s.mapper.currentRow)
    (hmappings : s.mapper.mappings = s.mapper.mappings.map (movedMapping c)) :
    Moved s (s.refresh M) c := .refresh_withMappings hrow hmappings

/-- What becomes of a number when `count` numbers from `first` on are removed. -/
theorem move_removedAt (first count n : ℤ) :
    move (fun n => !TableView.isRemoved first count n) (TableView.removedAt first count) n =
      if n ≥ first ∧ n ≤ first + count - 1 then -1 else TableView.removedAt first count n := by
  rw [move]
  split
  · rename_i hkept
    rw [Bool.not_eq_true', ← Bool.not_eq_true, TableView.isRemoved_iff] at hkept
    exact (if_neg hkept).symm
  · rename_i hgone
    rw [Bool.not_eq_true', Bool.not_eq_false, TableView.isRemoved_iff] at hgone
    exact (if_pos hgone).symm

/-- The mapper follows an insertion of rows. -/
theorem handleRowsInserted_moved (s : Gui σ) (first : ℕ) (new : List ι) :
    Moved s (s.handleRowsInserted M first new.length) (.insertRows first new) := by
  have hmappings := (@map_movedMapping_of_id ι (.insertRows first new) (fun _ => rfl) rfl
    s.mapper.mappings).symm
  rw [handleRowsInserted]
  split
  · rename_i hnone
    refine .refresh ?_ hmappings
    rw [TableChange.newRow, show (new.length : ℤ) = 0 by omega, insertedAt_zero]
    rfl
  split
  · rename_i hbehind
    exact .setCurrentRowInternal (if_pos hbehind).symm hmappings
  · rename_i hbefore
    exact .refresh (if_neg hbefore).symm hmappings

/-- The mapper follows a removal of rows. -/
theorem handleRowsRemoved_moved (s : Gui σ) (first count : ℕ) :
    Moved s (s.handleRowsRemoved M first count) (.removeRows first count : TableChange ι) := by
  have hmappings := (@map_movedMapping_of_id ι (.removeRows first count) (fun _ => rfl) rfl
    s.mapper.mappings).symm
  have hrow := move_removedAt first count s.mapper.currentRow
  rw [handleRowsRemoved]
  split
  · rename_i hnone
    rw [if_neg (by omega), show (count : ℤ) = 0 by omega, removedAt_zero] at hrow
    refine .refresh ?_ hmappings
    rw [TableChange.keptRow, TableChange.newRow, show (count : ℤ) = 0 by omega,
      removedAt_zero, hrow]
    rfl
  split
  · rename_i hin
    rw [if_pos hin] at hrow
    exact .setCurrentRowInternal hrow.symm hmappings
  rename_i hin
  rw [if_neg hin, TableView.removedAt] at hrow
  split
  · rename_i hbehind
    rw [if_pos hbehind] at hrow
    exact .setCurrentRowInternal hrow.symm hmappings
  · rename_i hbefore
    rw [if_neg hbefore] at hrow
    exact .refresh hrow.symm hmappings

/-- The mapper follows an insertion of columns. -/
theorem handleColumnsInserted_moved (s : Gui σ) (first : ℕ) (new : List ι) :
    Moved s (s.handleColumnsInserted M first new.length) (.insertColumns first new) := by
  rw [handleColumnsInserted]
  split
  · rename_i hnone
    refine .refresh rfl (map_movedMapping_of_id (fun _ => rfl) ?_ _).symm
    rw [TableChange.newColumn, show (new.length : ℤ) = 0 by omega, insertedAt_zero]
  · refine .refresh_withMappings rfl (List.map_congr_left fun m _ => ?_)
    have hcolumn : move (fun _ => true) (TableView.insertedAt first new.length) m.column =
        if m.column ≥ first then m.column + new.length else m.column := rfl
    split
    · rename_i hbehind
      rw [if_pos hbehind] at hcolumn
      exact (congrArg (fun column => { m with column := column }) hcolumn).symm
    · rename_i hbefore
      rw [if_neg hbefore] at hcolumn
      exact (congrArg (fun column => { m with column := column }) hcolumn).symm

/-- The mapper follows a removal of columns. -/
theorem handleColumnsRemoved_moved (s : Gui σ) (first count : ℕ) :
    Moved s (s.handleColumnsRemoved M first count)
      (.removeColumns first count : TableChange ι) := by
  rw [handleColumnsRemoved]
  split
  · rename_i hnone
    refine .refresh rfl (map_movedMapping_of_id (fun n => ?_) ?_ _).symm
    · have hzero : (count : ℤ) = 0 := by omega
      simp only [TableChange.keptColumn, hzero, isRemoved_zero, Bool.not_false]
    · rw [TableChange.newColumn, show (count : ℤ) = 0 by omega, removedAt_zero]
  · refine .refresh_withMappings rfl (List.map_congr_left fun m _ => ?_)
    have hcolumn := move_removedAt first count m.column
    rw [movedMapping, TableChange.keptColumn, TableChange.newColumn, hcolumn]
    split
    · rfl
    · rw [TableView.removedAt]
      split
      · rfl
      · rfl

/-- **A signal** changes the numbers of a mapper. -/
theorem handleSignal_moved (s : Gui σ) (c : TableChange ι) :
    Moved s (s.handleSignal M c.signal) c := by
  cases c with
  | insertRows first new => exact handleRowsInserted_moved s first new
  | removeRows first count => exact handleRowsRemoved_moved s first count
  | insertColumns first new => exact handleColumnsInserted_moved s first new
  | removeColumns first count => exact handleColumnsRemoved_moved s first count

end Gui

/-! ### Runs -/

/-- A model, given by its identities, with a view and a mapper of it. -/
structure Views (ι σ : Type) where
  table : Identities ι
  view : TableView
  gui : Gui σ

namespace Views

variable {σ : Type} (M : TableModel σ)

omit [DecidableEq ι]

/-- A change, the state of the model after it, and the signal of the model. -/
def notify (s : Views ι σ) (change : TableChange ι × σ) : Views ι σ :=
  let table := s.table.apply change.1
  { table := table
    view := s.view.step (.signal table.rows.length table.columns.length change.1.signal)
    gui := (s.gui.withModel (some change.2)).handleSignal M change.1.signal }

/-- The change is one of the model, which has as many rows and columns by then. -/
def Valid (s : Views ι σ) (change : TableChange ι × σ) : Prop :=
  s.table.Valid change.1 ∧ M.rowCount change.2 = (s.table.apply change.1).rows.length ∧
    M.columnCount change.2 = (s.table.apply change.1).columns.length

/-- The rows and the columns that a mapper refers to are there. -/
structure Mapped (s : Gui σ) : Prop where
  row : s.mapper.currentRow = -1 ∨ s.isValidRow M s.mapper.currentRow = true
  columns : ∀ m ∈ s.mapper.mappings, m.column < 0 ∨ s.isValidColumn M m.column = true

/-- **What there is**: no identity twice, and the view and the mapper, which show the model, refer
to rows and columns that it has. -/
structure Existing (s : Views ι σ) : Prop where
  distinct : s.table.Distinct
  view : s.view.Shows s.table
  model : ∃ m, s.gui.mapper.model = some m ∧ M.rowCount m = s.table.rows.length ∧
    M.columnCount m = s.table.columns.length
  inTable : s.view.InTable
  mapped : Mapped M s.gui

variable {M} {s : Views ι σ} {change : TableChange ι × σ}

/-- The view after a signal is the one with the changed numbers, from which nothing is dropped. -/
theorem notify_view (h : s.Existing M) (hkeys : s.view.Selected) (hvalid : s.Valid M change) :
    (s.notify M change).view = s.view.changed s.table change.1 := by
  have hshows := h.view.changed change.1
  have hin := TableView.InTable.changed h.view h.distinct hvalid.1 h.inTable
  have hkey := TableView.hasKey_changed h.view h.distinct hvalid.1 hkeys.keys
  rw [← hin.validateSelection_eq hshows hkey, notify]
  dsimp only
  rw [TableView.step, if_neg, TableView.handleSignal_eq]
  · rfl
  · obtain ⟨id, hmodel⟩ := h.view
    rw [hmodel]
    exact Bool.false_ne_true

/-- What the mapper refers to after a signal is there. -/
theorem mapped_notify (h : s.Existing M) (hvalid : s.Valid M change) :
    Mapped M (s.notify M change).gui := by
  obtain ⟨hchange, hrows, hcolumns⟩ := hvalid
  obtain ⟨m, hmodel, hrowCount, hcolumnCount⟩ := h.model
  have hmoved := Gui.handleSignal_moved (M := M) (s.gui.withModel (some change.2)) change.1
  have hnew : (s.notify M change).gui.mapper.model = some change.2 := hmoved.model
  have hr := h.distinct.renumbers_rows hchange
  have hc := h.distinct.renumbers_columns hchange
  refine ⟨?_, fun mapping hmapping => ?_⟩
  · have hrow : (s.notify M change).gui.mapper.currentRow =
        move change.1.keptRow change.1.newRow s.gui.mapper.currentRow := hmoved.currentRow
    rw [hrow, Gui.isValidRow_iff hnew hrows]
    rcases h.mapped.row with hnone | hthere
    · rw [hnone]
      exact Or.inl (hr.move_neg (by decide))
    · obtain ⟨hrow₀, hlt⟩ := (Gui.isValidRow_iff hmodel hrowCount).mp hthere
      exact hr.move_bounds hrow₀ hlt
  · have hmappings : (s.notify M change).gui.mapper.mappings =
        s.gui.mapper.mappings.map (Gui.movedMapping change.1) := hmoved.mappings
    rw [hmappings] at hmapping
    obtain ⟨old, hold, rfl⟩ := List.mem_map.mp hmapping
    rw [Gui.isValidColumn_iff hnew hcolumns, Gui.movedMapping]
    dsimp only
    rcases h.mapped.columns old hold with hnone | hthere
    · rw [hc.move_neg hnone]
      exact Or.inl hnone
    · obtain ⟨hcolumn₀, hlt⟩ := (Gui.isValidColumn_iff hmodel hcolumnCount).mp hthere
      exact (hc.move_bounds hcolumn₀ hlt).imp_left fun heq => by omega

/-- What is selected and mapped exists after a valid change. -/
theorem Existing.notify (h : s.Existing M) (hkeys : s.view.Selected)
    (hvalid : s.Valid M change) : (s.notify M change).Existing M where
  distinct := h.distinct.apply hvalid.1
  view := by
    rw [notify_view h hkeys hvalid]
    exact h.view.changed change.1
  model := ⟨change.2, (Gui.handleSignal_moved (M := M) (s.gui.withModel (some change.2))
    change.1).model, hvalid.2⟩
  inTable := by
    rw [notify_view h hkeys hvalid]
    exact TableView.InTable.changed h.view h.distinct hvalid.1 h.inTable
  mapped := mapped_notify h hvalid

variable [DecidableEq ι]

/-- **What follows**: the view and the mapper refer to what they have referred to, but for rows and
columns that the model has no more, for which there is none. -/
structure Follows (s s' : Views ι σ) : Prop where
  view : s'.view.denoted s'.table = (s.view.denoted s.table).keep s'.table
  row : s'.gui.denotedRow s'.table = (s.gui.denotedRow s.table).filter s'.table.rows.contains
  columns : s'.gui.denotedColumns s'.table = (s.gui.denotedColumns s.table).map fun m =>
    (m.1, m.2.1, m.2.2.filter s'.table.columns.contains)

/-- **One signal**. -/
theorem notify_follows (h : s.Existing M) (hkeys : s.view.Selected) (hvalid : s.Valid M change) :
    s.Follows (s.notify M change) := by
  have hmoved := Gui.handleSignal_moved (M := M) (s.gui.withModel (some change.2)) change.1
  refine ⟨?_, ?_, ?_⟩
  · rw [notify_view h hkeys hvalid]
    exact TableView.denoted_changed h.distinct hvalid.1
  · rw [Gui.denotedRow, show (s.notify M change).gui.mapper.currentRow =
      move change.1.keptRow change.1.newRow s.gui.mapper.currentRow from hmoved.currentRow]
    exact (h.distinct.renumbers_rows hvalid.1).elementAt_move _
  · rw [Gui.denotedColumns, show (s.notify M change).gui.mapper.mappings =
      s.gui.mapper.mappings.map (Gui.movedMapping change.1) from hmoved.mappings,
      Gui.denotedColumns, List.map_map, List.map_map]
    refine List.map_congr_left fun m _ => ?_
    have hcolumn := (h.distinct.renumbers_columns hvalid.1).elementAt_move m.column
    exact congrArg (fun column => (m.widget, m.role, column)) hcolumn

end Views

/-- **Views follow rows and columns**: from a view after any calls, and a mapper, that refer to rows
and columns of the model, all along a run of changes, each followed by its signal. -/
theorem views_follow {σ : Type} (M : TableModel σ) (calls : List TableView.Call)
    {s s' : Views ι σ} (hview : s.view = TableView.run {} calls) (h : s.Existing M)
    {changes : List (TableChange ι × σ)}
    (hrun : Transition.Run (fun s change s' => s' = s.notify M change) (Views.Valid M) s changes s')
    {change : TableChange ι × σ} (hvalid : s'.Valid M change) :
    s'.Follows (s'.notify M change) ∧ (s'.notify M change).Existing M := by
  have hinit : s.Existing M ∧ s.view.Selected := ⟨h, hview ▸ TableView.selected_run calls⟩
  obtain ⟨hexisting, hkeys⟩ := hrun.invariant
    (I := fun s => s.Existing M ∧ s.view.Selected) (fun s change s' hI hok hstep => by
      subst hstep
      exact ⟨hI.1.notify hI.2 hok, hI.2.step (.signal _ _ _)⟩) hinit
  exact ⟨Views.notify_follows hexisting hkeys hvalid, hexisting.notify hkeys hvalid⟩

/-- A model that has numbers of rows and columns, and no values. -/
def sizes : TableModel (ℤ × ℤ) where
  rowCount m := m.1
  columnCount m := m.2
  data _ _ _ _ := none
  setData m _ _ _ := (false, m, [])
  rowCount_setData _ _ _ _ := rfl
  columnCount_setData _ _ _ _ := rfl

/-- The calls of a view of two rows and three columns, the last of which is hidden. -/
def hidingCalls : List TableView.Call :=
  [.setModel (some ⟨0, 2, 3⟩), .hideColumn 2, .selectCell 1 1]

/-- A view and a mapper of a model with two rows and three columns. Two of them are mapped. -/
def twoByThree : Views ℕ (ℤ × ℤ) where
  table := ⟨[10, 11], [20, 21, 22]⟩
  view := TableView.run {} hidingCalls
  gui :=
    { world := World.initial 0 0
      mapper :=
        { model := some (2, 3)
          currentRow := 1
          mappings := [{ widget := ⟨7, none⟩, column := 0 },
            { widget := ⟨8, none⟩, column := 1, role := .display }] } }

/-- The view of two rows and three columns shows them. -/
theorem twoByThree_existing : twoByThree.Existing sizes where
  distinct := ⟨by decide, by decide⟩
  view := ⟨0, rfl⟩
  model := ⟨(2, 3), rfl, rfl, rfl⟩
  inTable := ⟨by decide, by decide⟩
  mapped := ⟨Or.inr (by decide), by decide⟩

/-- A row and a column are inserted in front of the current cell, and then its column is removed,
which is mapped. -/
theorem views_follow_three :
    let s := (twoByThree.notify sizes (.insertRows 0 [12], (3, 3))).notify sizes
      (.insertColumns 1 [23], (3, 4))
    let s' := s.notify sizes (.removeColumns 2 1, (3, 3))
    (s.Follows s' ∧ s'.Existing sizes) ∧ s.view.hiddenColumns = [3] ∧ s.view.currentColumn = 2 ∧
      s.gui.denotedRow s.table = some 11 ∧
      s.gui.denotedColumns s.table =
        [(⟨7, none⟩, .edit, some 20), (⟨8, none⟩, .display, some 21)] ∧
      s'.view.hiddenColumns = [2] ∧ s'.gui.denotedColumns s'.table =
        [(⟨7, none⟩, .edit, some 20), (⟨8, none⟩, .display, none)] :=
  ⟨views_follow sizes hidingCalls rfl twoByThree_existing
    (.cons (⟨by decide, rfl, rfl⟩ : Views.Valid sizes twoByThree (.insertRows 0 [12], (3, 3))) rfl
      (.single ⟨by decide, rfl, rfl⟩ rfl))
    ⟨by decide, rfl, rfl⟩, by decide, by decide, by decide, by decide, by decide,
    by decide⟩

end SimplyNode
