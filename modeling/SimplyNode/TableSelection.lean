import SimplyNode.Lib.Transition
import SimplyNode.TableView

/-!
# What a Selection Keeps

The selection of a `TableView` holds rows, columns and cells that there are, each once, as many as
the mode of selection allows and none in a hidden column, whatever is called and whatever its model
tells. The current cell is checked in fewer places: `hideColumn` looks at the selection only, and
`selectColumn` takes the row 0 where there is no current row.

## Main results

* `selected_run`: what the selection keeps, in every run.
* `shown_step_iff`: the calls that keep the current cell on a row and a column that are shown.
* `selection_iff`: a run keeps all of it exactly when it hides no current column and selects no
  column while there are no rows.
-/

namespace SimplyNode

namespace TableView

/-- A key of rows and columns that there are, not in a hidden column. -/
structure HasKey (v : TableView) (key : SelectionKey) : Prop where
  row : key.row = -1 ∨ v.isValidRow key.row = true
  column : key.column = -1 ∨ v.isVisibleColumn key.column = true
  some : key.row = -1 → key.column ≠ -1

/-- **What a selection keeps.** -/
structure Selected (v : TableView) : Prop where
  keys : ∀ key ∈ v.selection, v.HasKey key
  nodup : v.selection.Nodup
  single : v.selectionMode = .single → v.selection.length ≤ 1
  none : v.selectionMode = .none → v.selection = []

/-- The current cell is none, or a row that there is, with no column or one that is shown. -/
def Shown (v : TableView) : Prop :=
  v.currentRow = -1 ∧ v.currentColumn = -1 ∨
    v.isValidRow v.currentRow = true ∧
      (v.currentColumn = -1 ∨ v.isVisibleColumn v.currentColumn = true)

/-- A call that hides no current column and selects no column while there are no rows. -/
def Keeping (v : TableView) : Call → Prop
  | .hideColumn column => column = v.currentColumn → v.isValidColumn column = false
  | .selectColumn column => v.isVisibleColumn column = true → v.isValidRow 0 = true
  | _ => True

variable {v : TableView}

/-! ### Rows and columns -/

/-- A valid row is a number. -/
theorem nonneg_of_isValidRow {row : ℤ} (h : v.isValidRow row = true) : 0 ≤ row := by
  rw [isValidRow, Option.any_eq_true] at h
  obtain ⟨m, -, hrow⟩ := h
  rw [Bool.and_eq_true, decide_eq_true_eq] at hrow
  exact hrow.1

/-- A valid column is a number. -/
theorem nonneg_of_isValidColumn {column : ℤ} (h : v.isValidColumn column = true) : 0 ≤ column := by
  rw [isValidColumn, Option.any_eq_true] at h
  obtain ⟨m, -, hcolumn⟩ := h
  rw [Bool.and_eq_true, decide_eq_true_eq] at hcolumn
  exact hcolumn.1

/-- A column is visible when it is there and not hidden. -/
theorem isVisibleColumn_iff {column : ℤ} : v.isVisibleColumn column = true ↔
    v.isValidColumn column = true ∧ v.isColumnHidden column = false := by
  rw [isVisibleColumn, Bool.and_eq_true, Bool.not_eq_true']

/-- The hidden columns are those of the list. -/
theorem isColumnHidden_iff {column : ℤ} :
    v.isColumnHidden column = true ↔ column ∈ v.hiddenColumns := by
  rw [isColumnHidden, List.contains_iff_mem]

/-- The valid keys are those of rows and columns that there are, up to what stands for none. -/
theorem isValidSelectionKey_iff {key : SelectionKey} (hrow : -1 ≤ key.row)
    (hcolumn : -1 ≤ key.column) : v.isValidSelectionKey key = true ↔ v.HasKey key := by
  rw [isValidSelectionKey]
  split
  · rename_i hboth
    rw [isValidCell, Bool.and_eq_true, Bool.and_eq_true, Bool.not_eq_true', and_assoc,
      ← isVisibleColumn_iff]
    refine ⟨fun h => ⟨Or.inr h.1, Or.inr h.2, fun heq => by omega⟩, fun h => ?_⟩
    exact ⟨h.row.resolve_left (by omega), h.column.resolve_left (by omega)⟩
  split
  · have hnone : key.column = -1 := by omega
    refine ⟨fun h => ⟨Or.inr h, Or.inl hnone, fun heq => by omega⟩, fun h => ?_⟩
    exact h.row.resolve_left (by omega)
  split
  · have hnone : key.row = -1 := by omega
    refine ⟨fun h => ⟨Or.inl hnone, Or.inr h, fun _ => by omega⟩, fun h => ?_⟩
    exact h.column.resolve_left (by omega)
  · exact iff_of_false Bool.false_ne_true fun h => h.some (by omega) (by omega)

/-- What a selection holds is a row, a column, or `-1`. -/
theorem HasKey.bounds {key : SelectionKey} (h : v.HasKey key) :
    -1 ≤ key.row ∧ -1 ≤ key.column := by
  constructor
  · rcases h.row with heq | hvalid
    · omega
    · have := nonneg_of_isValidRow hvalid
      omega
  · rcases h.column with heq | hvisible
    · omega
    · have := nonneg_of_isValidColumn (isVisibleColumn_iff.mp hvisible).1
      omega

/-- What a key refers to in another view of the same size with the same hidden columns. -/
theorem HasKey.congr {v' : TableView} {key : SelectionKey} (h : v.HasKey key)
    (hmodel : v'.model = v.model) (hhidden : v'.hiddenColumns = v.hiddenColumns) :
    v'.HasKey key := by
  have hrow : v'.isValidRow key.row = v.isValidRow key.row := by
    rw [isValidRow, isValidRow, hmodel]
  have hcolumn : v'.isVisibleColumn key.column = v.isVisibleColumn key.column := by
    rw [isVisibleColumn, isVisibleColumn, isValidColumn, isValidColumn, isColumnHidden,
      isColumnHidden, hmodel, hhidden]
  exact ⟨by rw [hrow]; exact h.row, by rw [hcolumn]; exact h.column, h.some⟩

/-! ### The selection -/

/-- `clearSelection` selects nothing. -/
theorem Selected.clearSelection : Selected v.clearSelection where
  keys _ h := absurd h List.not_mem_nil
  nodup := List.nodup_nil
  single _ := Nat.zero_le _
  none _ := rfl

/-- Another current cell. -/
theorem Selected.updateCurrent (h : v.Selected) (row column : ℤ) :
    (v.updateCurrent row column).Selected where
  keys key hkey := (h.keys key hkey).congr rfl rfl
  nodup := h.nodup
  single := h.single
  none := h.none

/-- A key is applied to the selection. -/
theorem Selected.applySelection (h : v.Selected) {key : SelectionKey} (hkey : -1 ≤ key.row)
    (hkey' : -1 ≤ key.column) (operation : SelectionOperation) :
    (v.applySelection key operation).Selected := by
  unfold TableView.applySelection
  split
  · exact h
  rename_i hvalid
  rw [not_or, Bool.not_eq_false] at hvalid
  have hhas : v.HasKey key := (isValidSelectionKey_iff hkey hkey').mp hvalid.2
  split
  · refine ⟨fun k hk => ?_, List.nodup_singleton _, fun _ => Nat.le_refl _, fun hnone => ?_⟩
    · rw [List.mem_singleton.mp hk]
      exact hhas.congr rfl rfl
    · exact absurd hnone hvalid.1
  rename_i hmultiple
  rw [not_or] at hmultiple
  have happend : key ∉ v.selection →
      Selected { v with selection := v.selection ++ [key] } := fun hnew =>
    { keys := fun k hk => by
        rcases List.mem_append.mp hk with hk | hk
        · exact (h.keys k hk).congr rfl rfl
        · rw [List.mem_singleton.mp hk]
          exact hhas.congr rfl rfl
      nodup := List.nodup_append_comm.mp (List.nodup_cons.mpr ⟨hnew, h.nodup⟩)
      single := fun hsingle => absurd hsingle hmultiple.2
      none := fun hnone => absurd hnone hvalid.1 }
  split
  · split
    · exact h
    · exact happend ‹_›
  · split
    · exact
        { keys := fun k hk => (h.keys k (List.mem_of_mem_erase hk)).congr rfl rfl
          nodup := h.nodup.erase _
          single := fun hsingle => absurd hsingle hmultiple.2
          none := fun hnone => absurd hnone hvalid.1 }
    · exact happend ‹_›
  · exact h

/-! ### Validating -/

/-- What a selection keeps before it is validated: its keys may refer to nothing. -/
structure Kept (v : TableView) : Prop where
  bounds : ∀ key ∈ v.selection, -1 ≤ key.row ∧ -1 ≤ key.column
  nodup : v.selection.Nodup
  single : v.selectionMode = .single → v.selection.length ≤ 1
  none : v.selectionMode = .none → v.selection = []

/-- What is selected can be renumbered. -/
theorem Selected.kept (h : v.Selected) : v.Kept where
  bounds key hkey := (h.keys key hkey).bounds
  nodup := h.nodup
  single := h.single
  none := h.none

/-- Keys are left out, and the others are changed. -/
theorem Kept.map (h : v.Kept) {v' : TableView} {keys : List SelectionKey}
    {f : SelectionKey → SelectionKey} (hkeys : keys.Sublist v.selection)
    (hf : ∀ x ∈ keys, ∀ y ∈ keys, f x = f y → x = y)
    (hbounds : ∀ key ∈ keys, -1 ≤ (f key).row ∧ -1 ≤ (f key).column)
    (hselection : v'.selection = keys.map f) (hmode : v'.selectionMode = v.selectionMode) :
    v'.Kept where
  bounds key hkey := by
    rw [hselection] at hkey
    obtain ⟨old, hold, rfl⟩ := List.mem_map.mp hkey
    exact hbounds old hold
  nodup := by
    rw [hselection]
    exact (h.nodup.sublist hkeys).map_on hf
  single hsingle := by
    rw [hselection, List.length_map]
    exact hkeys.length_le.trans (h.single (hmode ▸ hsingle))
  none hnone := by
    have hnil := h.none (hmode ▸ hnone)
    rw [hnil, List.sublist_nil] at hkeys
    rw [hselection, hkeys]
    rfl

/-- `validateSelection` with a model drops the keys that are not valid. -/
theorem validateSelection_some {m : ViewedModel} (h : v.model = some m) :
    v.validateSelection =
      let v := { v with selection := v.selection.filter v.isValidSelectionKey }
      if v.isValidRow v.currentRow = false then v.updateCurrent (-1) (-1)
      else if v.currentColumn ≠ -1 ∧ v.isValidCell v.currentRow v.currentColumn = false then
        v.updateCurrent v.currentRow (-1)
      else v := by
  rw [validateSelection]
  split
  · rename_i hnone
    rw [h] at hnone
    cases hnone
  · rfl

/-- `validateSelection` without a model selects nothing. -/
theorem validateSelection_none (h : v.model = none) :
    v.validateSelection = v.clearSelection := by
  rw [validateSelection]
  split
  · rfl
  · rename_i hsome
    rw [h] at hsome
    cases hsome

/-- **`validateSelection` selects** out of what is kept. -/
theorem Kept.validateSelection (h : v.Kept) : v.validateSelection.Selected := by
  cases hmodel : v.model with
  | none =>
      rw [validateSelection_none hmodel]
      exact .clearSelection
  | some m =>
      have hvalid : Selected { v with selection := v.selection.filter v.isValidSelectionKey } :=
        { keys := fun key hkey => by
            obtain ⟨hkey, hvalid⟩ := List.mem_filter.mp hkey
            obtain ⟨hrow, hcolumn⟩ := h.bounds key hkey
            exact ((isValidSelectionKey_iff hrow hcolumn).mp hvalid).congr rfl rfl
          nodup := h.nodup.filter _
          single := fun hsingle => (List.length_filter_le _ _).trans (h.single hsingle)
          none := fun hnone => by
            have hnil : v.selection = [] := h.none hnone
            rw [hnil]
            rfl }
      rw [validateSelection_some hmodel]
      dsimp only
      split
      · exact hvalid.updateCurrent _ _
      split
      · exact hvalid.updateCurrent _ _
      · exact hvalid

/-- The current cell is not in a hidden column. -/
def Unhidden (v : TableView) : Prop :=
  v.currentColumn = -1 ∨ v.isColumnHidden v.currentColumn = false

/-- A current cell that is shown is not hidden. -/
theorem Shown.unhidden (h : v.Shown) : v.Unhidden := by
  rcases h with ⟨-, hnone⟩ | ⟨-, hnone | hvisible⟩
  · exact Or.inl hnone
  · exact Or.inl hnone
  · exact Or.inr (isVisibleColumn_iff.mp hvisible).2

/-- `clearSelection` leaves no current cell. -/
theorem shown_clearSelection : v.clearSelection.Shown := Or.inl ⟨rfl, rfl⟩

/-- A current cell that is not in a hidden column is shown once it has been validated. -/
theorem Unhidden.validateSelection (h : v.Unhidden) : v.validateSelection.Shown := by
  cases hmodel : v.model with
  | none =>
      rw [validateSelection_none hmodel]
      exact shown_clearSelection
  | some m =>
      rw [validateSelection_some hmodel]
      dsimp only
      split
      · exact Or.inl ⟨rfl, rfl⟩
      rename_i hrow
      rw [Bool.not_eq_false] at hrow
      split
      · exact Or.inr ⟨hrow, Or.inl rfl⟩
      rename_i hcell
      refine Or.inr ⟨hrow, ?_⟩
      rw [not_and_or, not_not, Bool.not_eq_false, isValidCell, Bool.and_eq_true] at hcell
      rcases hcell with hnone | ⟨-, hvalid⟩
      · exact Or.inl hnone
      · exact h.imp_right fun hhidden => isVisibleColumn_iff.mpr ⟨hvalid, hhidden⟩

/-! ### Numbers that are shifted -/

/-- Numbers that make room stay different. -/
theorem insertedAt_injective {first count : ℤ} (hcount : 0 < count) :
    Function.Injective (insertedAt first count) := by
  intro m n heq
  rw [insertedAt, insertedAt] at heq
  split at heq <;> split at heq <;> omega

/-- Numbers that make room stay at least `-1`. -/
theorem insertedAt_bound {first count n : ℤ} (hfirst : 0 ≤ first) (hcount : 0 < count)
    (h : -1 ≤ n) : -1 ≤ insertedAt first count n := by
  rw [insertedAt]
  split <;> omega

/-- The numbers that are removed are those of the range. -/
theorem isRemoved_iff {first count n : ℤ} :
    isRemoved first count n = true ↔ first ≤ n ∧ n ≤ first + count - 1 := by
  rw [isRemoved, Bool.and_eq_true, decide_eq_true_eq, decide_eq_true_eq]

/-- Numbers that close up stay different. -/
theorem removedAt_inj {first count m n : ℤ} (hm : isRemoved first count m = false)
    (hn : isRemoved first count n = false)
    (heq : removedAt first count m = removedAt first count n) : m = n := by
  rw [← Bool.not_eq_true, isRemoved_iff] at hm hn
  rw [removedAt, removedAt] at heq
  split at heq <;> split at heq <;> omega

/-- Numbers that close up stay at least `-1`. -/
theorem removedAt_bound {first count n : ℤ} (hfirst : 0 ≤ first) (h : -1 ≤ n) :
    -1 ≤ removedAt first count n := by
  rw [removedAt]
  split <;> omega

/-- Keys whose rows are renumbered stay different. -/
theorem mapRow_inj {f : ℤ → ℤ} {x y : SelectionKey}
    (hf : f x.row = f y.row → x.row = y.row) (h : x.mapRow f = y.mapRow f) : x = y := by
  obtain ⟨row, column⟩ := x
  obtain ⟨row', column'⟩ := y
  obtain ⟨hrow, rfl⟩ := SelectionKey.mk.inj h
  rw [show row = row' from hf hrow]

/-- Keys whose columns are renumbered stay different. -/
theorem mapColumn_inj {f : ℤ → ℤ} {x y : SelectionKey}
    (hf : f x.column = f y.column → x.column = y.column) (h : x.mapColumn f = y.mapColumn f) :
    x = y := by
  obtain ⟨row, column⟩ := x
  obtain ⟨row', column'⟩ := y
  obtain ⟨rfl, hcolumn⟩ := SelectionKey.mk.inj h
  rw [show column = column' from hf hcolumn]

/-! ### Signals -/

/-- The current cell is not part of the selection. -/
theorem Kept.updateCurrent (h : v.Kept) (row column : ℤ) : (v.updateCurrent row column).Kept :=
  ⟨h.bounds, h.nodup, h.single, h.none⟩

/-- The size of the model is not part of the selection. -/
theorem Kept.resized (h : v.Kept) (rowCount columnCount : ℤ) :
    (v.resized rowCount columnCount).Kept :=
  ⟨h.bounds, h.nodup, h.single, h.none⟩

/-- Rows are inserted. -/
theorem Kept.handleRowsInserted (h : v.Kept) (first count : ℤ) :
    (v.handleRowsInserted first count).Selected := by
  rw [TableView.handleRowsInserted]
  split
  · exact h.validateSelection
  rename_i hrange
  have hmoved : Kept { v with selection := v.selection.map (.mapRow (insertedAt first count)) } :=
    h.map (.refl _) (fun x _ y _ => mapRow_inj fun heq => insertedAt_injective (by omega) heq)
      (fun key hkey => ⟨insertedAt_bound (by omega) (by omega) (h.bounds key hkey).1,
        (h.bounds key hkey).2⟩) rfl rfl
  dsimp only
  split
  · exact (hmoved.updateCurrent _ _).validateSelection
  · exact hmoved.validateSelection

/-- Rows are removed. -/
theorem Kept.handleRowsRemoved (h : v.Kept) (first count : ℤ) :
    (v.handleRowsRemoved first count).Selected := by
  rw [TableView.handleRowsRemoved]
  split
  · exact h.validateSelection
  rename_i hrange
  have hmoved : Kept { v with
      selection := List.map (.mapRow (removedAt first count))
        (v.selection.filter fun key => !isRemoved first count key.row) } := by
    refine h.map List.filter_sublist (fun x hx y hy => mapRow_inj ?_) (fun key hkey => ?_) rfl rfl
    · have hx := (List.mem_filter.mp hx).2
      have hy := (List.mem_filter.mp hy).2
      rw [Bool.not_eq_true'] at hx hy
      exact removedAt_inj hx hy
    · obtain ⟨hrow, hcolumn⟩ := h.bounds key (List.mem_of_mem_filter hkey)
      exact ⟨removedAt_bound (by omega) hrow, hcolumn⟩
  dsimp only
  split
  · exact (hmoved.updateCurrent _ _).validateSelection
  split
  · exact (hmoved.updateCurrent _ _).validateSelection
  · exact hmoved.validateSelection

/-- Columns are inserted. -/
theorem Kept.handleColumnsInserted (h : v.Kept) (first count : ℤ) :
    (v.handleColumnsInserted first count).Selected := by
  rw [TableView.handleColumnsInserted]
  split
  · exact h.validateSelection
  rename_i hrange
  have hmoved : Kept { v with
      hiddenColumns := v.hiddenColumns.map (insertedAt first count)
      selection := v.selection.map (.mapColumn (insertedAt first count)) } :=
    h.map (.refl _) (fun x _ y _ => mapColumn_inj fun heq => insertedAt_injective (by omega) heq)
      (fun key hkey => ⟨(h.bounds key hkey).1,
        insertedAt_bound (by omega) (by omega) (h.bounds key hkey).2⟩) rfl rfl
  dsimp only
  split
  · exact (hmoved.updateCurrent _ _).validateSelection
  · exact hmoved.validateSelection

/-- Columns are removed. -/
theorem Kept.handleColumnsRemoved (h : v.Kept) (first count : ℤ) :
    (v.handleColumnsRemoved first count).Selected := by
  rw [TableView.handleColumnsRemoved]
  split
  · exact h.validateSelection
  rename_i hrange
  have hmoved : Kept { v with
      hiddenColumns := List.map (removedAt first count)
        (v.hiddenColumns.filter fun column => !isRemoved first count column)
      selection := List.map (.mapColumn (removedAt first count))
        (v.selection.filter fun key => !isRemoved first count key.column) } := by
    refine h.map List.filter_sublist (fun x hx y hy => mapColumn_inj ?_) (fun key hkey => ?_)
      rfl rfl
    · have hx := (List.mem_filter.mp hx).2
      have hy := (List.mem_filter.mp hy).2
      rw [Bool.not_eq_true'] at hx hy
      exact removedAt_inj hx hy
    · obtain ⟨hrow, hcolumn⟩ := h.bounds key (List.mem_of_mem_filter hkey)
      exact ⟨hrow, removedAt_bound (by omega) hcolumn⟩
  dsimp only
  split
  · exact (hmoved.updateCurrent _ _).validateSelection
  split
  · exact (hmoved.updateCurrent _ _).validateSelection
  · exact hmoved.validateSelection

/-- **Signals** keep the selection. -/
theorem Kept.handleSignal (h : v.Kept) (signal : ModelSignal) :
    (v.handleSignal signal).Selected := by
  cases signal with
  | modelReset => exact h.validateSelection
  | dataChanged row column => exact h.validateSelection
  | rowsInserted first count => exact h.handleRowsInserted first count
  | rowsRemoved first count => exact h.handleRowsRemoved first count
  | columnsInserted first count => exact h.handleColumnsInserted first count
  | columnsRemoved first count => exact h.handleColumnsRemoved first count

/-- A current cell without a column is in no hidden one. -/
theorem unhidden_updateCurrent_none (v : TableView) (row : ℤ) :
    (v.updateCurrent row (-1)).Unhidden := Or.inl rfl

/-- The current column is none, or is not hidden. -/
theorem unhidden_iff :
    v.Unhidden ↔ v.currentColumn = -1 ∨ v.currentColumn ∉ v.hiddenColumns := by
  rw [Unhidden, ← Bool.not_eq_true, isColumnHidden_iff]

/-- A column that is not hidden is not hidden when room is made. -/
theorem insertedAt_not_mem {first count n : ℤ} (hcount : 0 < count) {hidden : List ℤ}
    (h : n ∉ hidden) : insertedAt first count n ∉ hidden.map (insertedAt first count) := by
  rwa [List.mem_map_of_injective (insertedAt_injective hcount)]

/-- A column that is not hidden is not hidden when the others close up. -/
theorem removedAt_not_mem {first count n : ℤ} (hn : isRemoved first count n = false)
    {hidden : List ℤ} (h : n ∉ hidden) : removedAt first count n ∉
      (hidden.filter fun column => !isRemoved first count column).map (removedAt first count) := by
  intro hmem
  obtain ⟨m, hm, heq⟩ := List.mem_map.mp hmem
  obtain ⟨hm, hkept⟩ := List.mem_filter.mp hm
  rw [Bool.not_eq_true'] at hkept
  exact h (removedAt_inj hkept hn heq ▸ hm)

/-- Rows are inserted: the current cell is shown. -/
theorem Unhidden.handleRowsInserted (h : v.Unhidden) (first count : ℤ) :
    (v.handleRowsInserted first count).Shown := by
  rw [TableView.handleRowsInserted]
  split
  · exact h.validateSelection
  dsimp only
  split
  · exact Unhidden.validateSelection h
  · exact Unhidden.validateSelection h

/-- Rows are removed: the current cell is shown. -/
theorem Unhidden.handleRowsRemoved (h : v.Unhidden) (first count : ℤ) :
    (v.handleRowsRemoved first count).Shown := by
  rw [TableView.handleRowsRemoved]
  split
  · exact h.validateSelection
  dsimp only
  split
  · exact (unhidden_updateCurrent_none _ _).validateSelection
  split
  · exact Unhidden.validateSelection h
  · exact Unhidden.validateSelection h

/-- The current column and the hidden ones are renumbered in the same way. -/
theorem Unhidden.handleColumnsInserted (h : v.Unhidden) (first count : ℤ) :
    (v.handleColumnsInserted first count).Shown := by
  rw [TableView.handleColumnsInserted]
  split
  · exact h.validateSelection
  rename_i hrange
  dsimp only
  rw [unhidden_iff] at h
  have hnew := h.imp_right (@insertedAt_not_mem first count _ (by omega) _)
  rw [insertedAt] at hnew
  split
  · rename_i hbehind
    rw [if_pos hbehind] at hnew
    exact Unhidden.validateSelection (unhidden_iff.mpr (Or.inr (hnew.resolve_left (by omega))))
  · rename_i hbefore
    rw [if_neg hbefore] at hnew
    exact Unhidden.validateSelection (unhidden_iff.mpr hnew)

/-- Columns are removed: the current cell is shown. -/
theorem Unhidden.handleColumnsRemoved (h : v.Unhidden) (first count : ℤ) :
    (v.handleColumnsRemoved first count).Shown := by
  rw [TableView.handleColumnsRemoved]
  split
  · exact h.validateSelection
  rename_i hrange
  dsimp only
  split
  · exact (unhidden_updateCurrent_none _ _).validateSelection
  rename_i hin
  rw [unhidden_iff] at h
  have hin : isRemoved first count v.currentColumn = false :=
    Bool.eq_false_iff.mpr fun htrue => hin (isRemoved_iff.mp htrue)
  have hnew := h.imp_right (removedAt_not_mem hin)
  rw [removedAt] at hnew
  split
  · rename_i hbehind
    rw [if_pos hbehind] at hnew
    exact Unhidden.validateSelection (unhidden_iff.mpr (Or.inr (hnew.resolve_left (by omega))))
  · rename_i hbefore
    rw [if_neg hbefore] at hnew
    exact Unhidden.validateSelection (unhidden_iff.mpr hnew)

/-- **Signals** keep a current cell that is not in a hidden column on one. -/
theorem Unhidden.handleSignal (h : v.Unhidden) (signal : ModelSignal) :
    (v.handleSignal signal).Shown := by
  cases signal with
  | modelReset => exact h.validateSelection
  | dataChanged row column => exact h.validateSelection
  | rowsInserted first count => exact h.handleRowsInserted first count
  | rowsRemoved first count => exact h.handleRowsRemoved first count
  | columnsInserted first count => exact h.handleColumnsInserted first count
  | columnsRemoved first count => exact h.handleColumnsRemoved first count

/-! ### Calls and the selection -/

/-- The first of the selected keys. -/
theorem Selected.take (h : v.Selected) (mode : TableSelectionMode) (hmode : mode = .single) :
    Selected { v with selectionMode := mode, selection := v.selection.take 1 } where
  keys key hkey := (h.keys key (List.mem_of_mem_take hkey)).congr rfl rfl
  nodup := h.nodup.sublist (List.take_sublist _ _)
  single _ := List.length_take_le _ _
  none hnone := by
    rw [hmode] at hnone
    cases hnone

/-- `setSelectionMode`. -/
theorem Selected.setSelectionMode (h : v.Selected) (mode : TableSelectionMode) :
    (v.setSelectionMode mode).Selected := by
  rw [TableView.setSelectionMode]
  split
  · exact h
  dsimp only
  split
  · exact .clearSelection
  rename_i hmode
  split
  · rename_i hmany
    exact h.take mode hmany.1
  · rename_i hfew
    exact
      { keys := fun key hkey => (h.keys key hkey).congr rfl rfl
        nodup := h.nodup
        single := fun hsingle => Nat.le_of_not_lt fun hmany => hfew ⟨hsingle, hmany⟩
        none := fun hnone => absurd hnone hmode }

/-- A current cell, and a key that is selected unless nothing can be. -/
theorem Selected.select (h : v.Selected) (row column : ℤ) {key : SelectionKey}
    (hrow : -1 ≤ key.row) (hcolumn : -1 ≤ key.column) :
    (if (v.updateCurrent row column).selectionMode = .none then v.updateCurrent row column
      else (v.updateCurrent row column).applySelection key
        (v.updateCurrent row column).operation).Selected := by
  have hmoved := h.updateCurrent row column
  split
  · exact hmoved
  · exact hmoved.applySelection hrow hcolumn _

/-- `selectCell`. -/
theorem Selected.selectCell (h : v.Selected) (row column : ℤ) :
    (v.selectCell row column).Selected := by
  rw [TableView.selectCell]
  split
  · exact .clearSelection
  rename_i hcell
  rw [not_or, Bool.not_eq_false, isValidCell, Bool.and_eq_true] at hcell
  have hrow := nonneg_of_isValidRow hcell.1.1
  have hcolumn := nonneg_of_isValidColumn hcell.1.2
  have hbounds : -1 ≤ (v.keyForCell row column).row ∧ -1 ≤ (v.keyForCell row column).column := by
    rw [keyForCell]
    split <;> constructor <;> dsimp only <;> omega
  exact h.select row column hbounds.1 hbounds.2

/-- `hideColumn` and `showColumn`. -/
theorem Selected.setColumnHidden (h : v.Selected) (column : ℤ) (hidden : Bool) :
    (v.setColumnHidden column hidden).Selected := by
  rw [TableView.setColumnHidden]
  split
  · exact h
  split
  · exact h
  split
  · exact Kept.validateSelection ⟨h.kept.bounds, h.nodup, h.single, h.none⟩
  · refine ⟨fun key hkey => ?_, h.nodup, h.single, h.none⟩
    have hold := h.keys key hkey
    refine ⟨hold.row, hold.column.imp_right fun hvisible => ?_, hold.some⟩
    obtain ⟨hvalid, hshown⟩ := isVisibleColumn_iff.mp hvisible
    rw [← Bool.not_eq_true, isColumnHidden_iff] at hshown
    refine isVisibleColumn_iff.mpr ⟨hvalid, ?_⟩
    rw [← Bool.not_eq_true, isColumnHidden_iff]
    exact fun hmem => hshown (List.mem_of_mem_filter hmem)

/-- **The selection** is kept by every call. -/
theorem Selected.step (h : v.Selected) (call : Call) : (v.step call).Selected := by
  cases call with
  | setModel model =>
      rw [TableView.step, TableView.setModel]
      split
      · exact h
      · exact Kept.validateSelection ⟨h.kept.bounds, h.nodup, h.single, h.none⟩
  | setSelectionMode mode => exact h.setSelectionMode mode
  | setSelectionBehavior behavior =>
      rw [TableView.step, TableView.setSelectionBehavior]
      split
      · exact h
      · exact .clearSelection
  | setCurrentRow row =>
      rw [TableView.step, TableView.setCurrentRow]
      split
      · exact .clearSelection
      rename_i hrow
      have hrow := nonneg_of_isValidRow (Bool.eq_true_of_not_eq_false hrow)
      exact h.select row _ (by dsimp only; omega) (Int.le_refl _)
  | setCurrentCell row column =>
      rw [TableView.step, TableView.setCurrentCell]
      split
      · exact .clearSelection
      · exact h.selectCell row column
  | selectRow row =>
      rw [TableView.step, TableView.selectRow]
      split
      · exact .clearSelection
      rename_i hrow
      have hrow := nonneg_of_isValidRow (Bool.eq_true_of_not_eq_false hrow)
      exact h.select row _ (by dsimp only; omega) (Int.le_refl _)
  | selectColumn column =>
      rw [TableView.step, TableView.selectColumn]
      split
      · exact .clearSelection
      rename_i hcolumn
      have hcolumn := nonneg_of_isValidColumn
        (isVisibleColumn_iff.mp (Bool.eq_true_of_not_eq_false hcolumn)).1
      exact h.select _ column (Int.le_refl _) (by dsimp only; omega)
  | selectCell row column => exact h.selectCell row column
  | clearSelection => exact .clearSelection
  | hideColumn column => exact h.setColumnHidden column true
  | showColumn column => exact h.setColumnHidden column false
  | signal rowCount columnCount signal =>
      rw [TableView.step]
      split
      · exact h
      · exact (h.kept.resized rowCount columnCount).handleSignal signal

/-- A new view selects nothing. -/
theorem selected_default : Selected {} where
  keys _ h := absurd h List.not_mem_nil
  nodup := List.nodup_nil
  single _ := Nat.zero_le _
  none _ := rfl

/-- **The selection** holds rows, columns and cells that there are and are shown, each once, and as
many as the mode allows, after any calls and signals. -/
theorem selected_run (calls : List Call) : (run {} calls).Selected :=
  List.foldlRecOn calls step selected_default fun _ h call _ => h.step call

/-! ### Calls and the current cell -/

/-- Whether the current cell is shown is a matter of the model, the hidden columns and the cell. -/
theorem shown_congr {v' : TableView} (hmodel : v'.model = v.model)
    (hhidden : v'.hiddenColumns = v.hiddenColumns) (hrow : v'.currentRow = v.currentRow)
    (hcolumn : v'.currentColumn = v.currentColumn) : v'.Shown ↔ v.Shown := by
  rw [Shown, Shown, isValidRow, isValidRow, isVisibleColumn, isVisibleColumn, isValidColumn,
    isValidColumn, isColumnHidden, isColumnHidden, hmodel, hhidden, hrow, hcolumn]

/-- A key that is applied changes the selection only. -/
theorem applySelection_eq (v : TableView) (key : SelectionKey) (operation : SelectionOperation) :
    ∃ selection, v.applySelection key operation = { v with selection := selection } := by
  unfold applySelection
  split
  · exact ⟨v.selection, rfl⟩
  split
  · exact ⟨[key], rfl⟩
  split
  · split
    · exact ⟨v.selection, rfl⟩
    · exact ⟨_, rfl⟩
  · split
    · exact ⟨_, rfl⟩
    · exact ⟨_, rfl⟩
  · exact ⟨v.selection, rfl⟩

/-- A key that is selected or not: the current cell is shown where it is put. -/
theorem shown_select (v : TableView) (row column : ℤ) (key : SelectionKey) :
    (if (v.updateCurrent row column).selectionMode = .none then v.updateCurrent row column
      else (v.updateCurrent row column).applySelection key
        (v.updateCurrent row column).operation).Shown ↔ (v.updateCurrent row column).Shown := by
  split
  · rfl
  · obtain ⟨selection, heq⟩ := applySelection_eq (v.updateCurrent row column) key
      (v.updateCurrent row column).operation
    rw [heq]
    exact shown_congr rfl rfl rfl rfl

/-- A cell that is there becomes the current one. -/
theorem shown_updateCurrent {row column : ℤ} (hrow : v.isValidRow row = true)
    (hcolumn : column = -1 ∨ v.isVisibleColumn column = true) :
    (v.updateCurrent row column).Shown := Or.inr ⟨hrow, hcolumn⟩

/-- `selectCell` shows the current cell. -/
theorem shown_selectCell (v : TableView) (row column : ℤ) : (v.selectCell row column).Shown := by
  rw [selectCell]
  split
  · exact shown_clearSelection
  rename_i hcell
  rw [not_or, Bool.not_eq_false, Bool.not_eq_true, isValidCell, Bool.and_eq_true] at hcell
  exact (shown_select v row column _).mpr
    (shown_updateCurrent hcell.1.1 (Or.inr (isVisibleColumn_iff.mpr ⟨hcell.1.2, hcell.2⟩)))

/-- `setSelectionMode` shows the current cell. -/
theorem shown_setSelectionMode (h : v.Shown) (mode : TableSelectionMode) :
    (v.setSelectionMode mode).Shown := by
  rw [setSelectionMode]
  split
  · exact h
  dsimp only
  split
  · exact shown_clearSelection
  split
  · exact (shown_congr rfl rfl rfl rfl).mpr h
  · exact (shown_congr rfl rfl rfl rfl).mpr h

/-- `setCurrentRow` shows the current cell. -/
theorem shown_setCurrentRow (h : v.Shown) (row : ℤ) : (v.setCurrentRow row).Shown := by
  rw [setCurrentRow]
  split
  · exact shown_clearSelection
  rename_i hrow
  rw [Bool.not_eq_false] at hrow
  refine (shown_select v row _ _).mpr (shown_updateCurrent hrow ?_)
  split
  · rename_i hcell
    rw [isValidCell, Bool.and_eq_true] at hcell
    exact h.unhidden.imp_right fun hhidden => isVisibleColumn_iff.mpr ⟨hcell.2, hhidden⟩
  · exact Or.inl rfl

/-- A model with a row has a first one. -/
theorem isValidRow_zero {row : ℤ} (h : v.isValidRow row = true) : v.isValidRow 0 = true := by
  rw [isValidRow, Option.any_eq_true] at h ⊢
  obtain ⟨m, hm, hrow⟩ := h
  rw [Bool.and_eq_true, decide_eq_true_eq, decide_eq_true_eq] at hrow
  refine ⟨m, hm, ?_⟩
  rw [Bool.and_eq_true, decide_eq_true_eq, decide_eq_true_eq]
  omega

/-- **A column** is made current with the row 0 where there is no current row. -/
theorem shown_selectColumn (v : TableView) (column : ℤ) :
    (v.selectColumn column).Shown ↔ v.Keeping (.selectColumn column) := by
  rw [selectColumn, Keeping]
  split
  · rename_i hvisible
    exact iff_of_true shown_clearSelection fun h => absurd (hvisible.symm.trans h) (by decide)
  rename_i hvisible
  rw [Bool.not_eq_false] at hvisible
  have hcolumn := nonneg_of_isValidColumn (isVisibleColumn_iff.mp hvisible).1
  refine (shown_select v _ column _).trans ⟨fun h _ => ?_, fun h => ?_⟩
  · rcases h with ⟨-, hnone⟩ | ⟨hrow, -⟩
    · have hnone : column = -1 := hnone
      omega
    · exact isValidRow_zero hrow
  · refine shown_updateCurrent ?_ (Or.inr hvisible)
    split
    · assumption
    · exact h hvisible

/-- A current cell that there is stays where it is, also in a hidden column. -/
theorem Shown.of_validateSelection (h : v.validateSelection.Shown)
    (hrow : v.isValidRow v.currentRow = true)
    (hcolumn : v.isValidColumn v.currentColumn = true) : v.Unhidden := by
  have hexists := hrow
  rw [isValidRow, Option.any_eq_true] at hexists
  obtain ⟨m, hmodel, -⟩ := hexists
  have hcell : v.isValidCell v.currentRow v.currentColumn = true := by
    rw [isValidCell, hrow, hcolumn]
    rfl
  rw [validateSelection_some hmodel] at h
  dsimp only at h
  split at h
  · rename_i hgone
    exact absurd (hgone.symm.trans hrow) Bool.false_ne_true
  split at h
  · rename_i hgone
    exact absurd (hgone.2.symm.trans hcell) Bool.false_ne_true
  · exact h.unhidden

/-- **A column** that is hidden stays current, as the current cell is not looked at. -/
theorem shown_hideColumn (h : v.Shown) (column : ℤ) :
    (v.hideColumn column).Shown ↔ v.Keeping (.hideColumn column) := by
  rw [hideColumn, setColumnHidden, Keeping]
  split
  · rename_i hvalid
    exact iff_of_true h fun _ => hvalid
  rename_i hvalid
  rw [Bool.not_eq_false] at hvalid
  have hcolumn := nonneg_of_isValidColumn hvalid
  split
  · rename_i hhidden
    refine iff_of_true h fun heq => ?_
    rcases h.unhidden with hnone | hshown
    · omega
    · rw [← heq, hhidden] at hshown
      cases hshown
  rename_i hhidden
  rw [Bool.not_eq_true, ← Bool.not_eq_true, isColumnHidden_iff] at hhidden
  rw [if_pos rfl]
  by_cases heq : column = v.currentColumn
  · refine iff_of_false (fun hshown => ?_) fun hkeep =>
      absurd ((hkeep heq).symm.trans hvalid) (by decide)
    have hrow : v.isValidRow v.currentRow = true := by
      rcases h with ⟨-, hnone⟩ | ⟨hrow, -⟩
      · omega
      · exact hrow
    have hcurrent : v.isValidColumn v.currentColumn = true := heq ▸ hvalid
    rcases unhidden_iff.mp (hshown.of_validateSelection hrow hcurrent) with hnone | hnot
    · have hnone : v.currentColumn = -1 := hnone
      omega
    · refine hnot ((List.mem_insertionSort _).mpr (List.mem_append_right _ ?_))
      exact List.mem_singleton.mpr heq.symm
  · refine iff_of_true (Unhidden.validateSelection (unhidden_iff.mpr ?_)) fun h => absurd h heq
    refine (unhidden_iff.mp h.unhidden).imp_right fun hnot hmem => ?_
    rcases List.mem_append.mp ((List.mem_insertionSort _).mp hmem) with hold | hnew
    · exact hnot hold
    · exact heq (List.mem_singleton.mp hnew).symm

/-- `showColumn` shows the current cell. -/
theorem shown_showColumn (h : v.Shown) (column : ℤ) : (v.showColumn column).Shown := by
  rw [showColumn, setColumnHidden]
  split
  · exact h
  split
  · exact h
  rw [if_neg Bool.false_ne_true]
  refine h.imp_right fun ⟨hrow, hcolumn⟩ => ⟨hrow, hcolumn.imp_right fun hvisible => ?_⟩
  obtain ⟨hvalid, hshown⟩ := isVisibleColumn_iff.mp hvisible
  rw [← Bool.not_eq_true, isColumnHidden_iff] at hshown
  refine isVisibleColumn_iff.mpr ⟨hvalid, ?_⟩
  rw [← Bool.not_eq_true, isColumnHidden_iff]
  exact fun hmem => hshown (List.mem_of_mem_filter hmem)

/-- **The current cell** is kept on a row and a column that are shown by every call but the hiding
of its column and the selecting of a column while there are no rows. -/
theorem shown_step_iff (h : v.Shown) (call : Call) : (v.step call).Shown ↔ v.Keeping call := by
  cases call with
  | setModel model =>
      refine iff_of_true ?_ trivial
      rw [step, setModel]
      split
      · exact h
      · exact Unhidden.validateSelection h.unhidden
  | setSelectionMode mode => exact iff_of_true (shown_setSelectionMode h mode) trivial
  | setSelectionBehavior behavior =>
      refine iff_of_true ?_ trivial
      rw [step, setSelectionBehavior]
      split
      · exact h
      · exact shown_clearSelection
  | setCurrentRow row => exact iff_of_true (shown_setCurrentRow h row) trivial
  | setCurrentCell row column =>
      refine iff_of_true ?_ trivial
      rw [step, setCurrentCell]
      split
      · exact shown_clearSelection
      · exact shown_selectCell v row column
  | selectRow row =>
      refine iff_of_true ?_ trivial
      rw [step, selectRow]
      split
      · exact shown_clearSelection
      rename_i hrow
      rw [Bool.not_eq_false] at hrow
      exact (shown_select v row _ _).mpr (shown_updateCurrent hrow (Or.inl rfl))
  | selectColumn column => exact shown_selectColumn v column
  | selectCell row column => exact iff_of_true (shown_selectCell v row column) trivial
  | clearSelection => exact iff_of_true shown_clearSelection trivial
  | hideColumn column => exact shown_hideColumn h column
  | showColumn column => exact iff_of_true (shown_showColumn h column) trivial
  | signal rowCount columnCount signal =>
      refine iff_of_true ?_ trivial
      rw [step]
      split
      · exact h
      · exact Unhidden.handleSignal (v := v.resized rowCount columnCount) h.unhidden signal

/-- A new view has no current cell. -/
theorem shown_default : Shown {} := Or.inl ⟨rfl, rfl⟩

/-- **The selection and the current cell** are kept all along a run exactly when it hides no current
column and selects no column while there are no rows. -/
theorem selection_iff (calls : List Call) :
    (∀ before, before <+: calls → (run {} before).Selected ∧ (run {} before).Shown) ↔
      ∀ before call, before ++ [call] <+: calls → (run {} before).Keeping call := by
  have hexact : ∀ v call, Selected v ∧ Shown v →
      (Selected (step v call) ∧ Shown (step v call) ↔ Keeping v call) := by
    rintro v call ⟨hselected, hshown⟩
    rw [and_iff_right (hselected.step call)]
    exact shown_step_iff hshown call
  exact Transition.foldl_invariant_iff hexact ⟨selected_default, shown_default⟩ calls

/-- A current column that is hidden stays current, and a column is selected without a row. -/
theorem current_hidden :
    let v := run {} [.setModel (some ⟨0, 2, 2⟩), .selectCell 0 1, .hideColumn 1]
    let w := run {} [.setModel (some ⟨0, 0, 2⟩), .selectColumn 1]
    (v.currentRow, v.currentColumn) = (0, 1) ∧ v.isVisibleColumn 1 = false ∧ ¬ v.Shown ∧
      (w.currentRow, w.currentColumn) = (0, 1) ∧ w.isValidRow 0 = false ∧ ¬ w.Shown := by
  have hv : run {} [.setModel (some ⟨0, 2, 2⟩), .selectCell 0 1, .hideColumn 1] =
      { model := some ⟨0, 2, 2⟩, currentRow := 0, currentColumn := 1, selection := [⟨0, -1⟩]
        hiddenColumns := [1] } := by decide
  have hw : run {} [.setModel (some ⟨0, 0, 2⟩), .selectColumn 1] =
      { model := some ⟨0, 0, 2⟩, currentRow := 0, currentColumn := 1
        selection := [⟨-1, 1⟩] } := by decide
  rw [hv, hw]
  refine ⟨rfl, by decide, ?_, rfl, by decide, ?_⟩
  · rintro (⟨hrow, -⟩ | ⟨-, hcolumn | hvisible⟩)
    · exact absurd hrow (by decide)
    · exact absurd hcolumn (by decide)
    · exact absurd hvisible (by decide)
  · rintro (⟨hrow, -⟩ | ⟨hrow, -⟩)
    · exact absurd hrow (by decide)
    · exact absurd hrow (by decide)

end TableView

end SimplyNode
