import Mathlib.Data.List.Sort
import SimplyNode.DataWidgetMapper

/-!
# A View of a Table

`TableView` (`TableView.h/.cpp`) keeps a selection, hidden columns and a current cell by the numbers
of rows and columns, and changes them when its model tells of rows or columns that have been
inserted or removed. A number is -1 where there is no row or column; a selected key without a column
is a row, and one without a row a column. Of the model the view reads how many rows and columns
there are. The signals of the view are left out, and what the program connects to them makes no
call of the view.
-/

namespace SimplyNode

/-- `TableSelectionBehavior`. -/
inductive TableSelectionBehavior
  | rows
  | columns
  | cells
  deriving DecidableEq

/-- `TableSelectionMode`. -/
inductive TableSelectionMode
  | none
  | single
  | multiple
  deriving DecidableEq

/-- `TableView::SelectionKey`. -/
structure SelectionKey where
  row : ℤ := -1
  column : ℤ := -1
  deriving DecidableEq

/-- A key with another row. -/
def SelectionKey.mapRow (f : ℤ → ℤ) (key : SelectionKey) : SelectionKey :=
  { key with row := f key.row }

/-- A key with another column. -/
def SelectionKey.mapColumn (f : ℤ → ℤ) (key : SelectionKey) : SelectionKey :=
  { key with column := f key.column }

/-- `TableView::SelectionOperation`. -/
inductive SelectionOperation
  | replace
  | add
  | toggle
  deriving DecidableEq

/-- The model of a view: which one it is, and how many rows and columns it has. -/
structure ViewedModel where
  id : ℕ
  rowCount : ℤ
  columnCount : ℤ
  deriving DecidableEq

/-- `TableView`. -/
structure TableView where
  model : Option ViewedModel := none
  selectionBehavior : TableSelectionBehavior := .rows
  selectionMode : TableSelectionMode := .single
  currentRow : ℤ := -1
  currentColumn : ℤ := -1
  selection : List SelectionKey := []
  hiddenColumns : List ℤ := []
  deriving DecidableEq

namespace TableView

variable (v : TableView)

/-! ### Rows and columns -/

/-- `TableView::isValidRow`. -/
def isValidRow (row : ℤ) : Bool := v.model.any fun m => 0 ≤ row && row < max 0 m.rowCount

/-- `TableView::isValidColumn`. -/
def isValidColumn (column : ℤ) : Bool :=
  v.model.any fun m => 0 ≤ column && column < max 0 m.columnCount

/-- `TableView::isValidCell`. -/
def isValidCell (row column : ℤ) : Bool := v.isValidRow row && v.isValidColumn column

/-- `TableView::isColumnHidden`. -/
def isColumnHidden (column : ℤ) : Bool := v.hiddenColumns.contains column

/-- `TableView::isVisibleColumn`. -/
def isVisibleColumn (column : ℤ) : Bool := v.isValidColumn column && !v.isColumnHidden column

/-- `TableView::isValidSelectionKey`. -/
def isValidSelectionKey (key : SelectionKey) : Bool :=
  if 0 ≤ key.row ∧ 0 ≤ key.column then
    v.isValidCell key.row key.column && !v.isColumnHidden key.column
  else if 0 ≤ key.row then v.isValidRow key.row
  else if 0 ≤ key.column then v.isVisibleColumn key.column
  else false

/-- `TableView::keyForCell`. -/
def keyForCell (row column : ℤ) : SelectionKey :=
  match v.selectionBehavior with
  | .rows => { row := row }
  | .columns => { column := column }
  | .cells => { row := row, column := column }

/-! ### Selecting -/

/-- `TableView::updateCurrent`. -/
def updateCurrent (row column : ℤ) : TableView :=
  { v with currentRow := row, currentColumn := column }

/-- `TableView::clearSelection`. -/
def clearSelection : TableView := { v with selection := [] }.updateCurrent (-1) (-1)

/-- `TableView::applySelection`. -/
def applySelection (key : SelectionKey) (operation : SelectionOperation) : TableView :=
  if v.selectionMode = .none ∨ v.isValidSelectionKey key = false then v
  else if operation = .replace ∨ v.selectionMode = .single then { v with selection := [key] }
  else
    match operation with
    | .add =>
        if key ∈ v.selection then v else { v with selection := v.selection ++ [key] }
    | .toggle =>
        if key ∈ v.selection then { v with selection := v.selection.erase key }
        else { v with selection := v.selection ++ [key] }
    | .replace => v

/-- How a selection changes in the mode of the view. -/
def operation : SelectionOperation := if v.selectionMode = .multiple then .add else .replace

/-- `TableView::validateSelection`. -/
def validateSelection : TableView :=
  match v.model with
  | none => v.clearSelection
  | some _ =>
      let v := { v with selection := v.selection.filter v.isValidSelectionKey }
      if v.isValidRow v.currentRow = false then v.updateCurrent (-1) (-1)
      else if v.currentColumn ≠ -1 ∧ v.isValidCell v.currentRow v.currentColumn = false then
        v.updateCurrent v.currentRow (-1)
      else v

/-- `TableView::setModel`. -/
def setModel (model : Option ViewedModel) : TableView :=
  if v.model.map (·.id) = model.map (·.id) then v else { v with model := model }.validateSelection

/-- `TableView::setSelectionBehavior`. -/
def setSelectionBehavior (behavior : TableSelectionBehavior) : TableView :=
  if v.selectionBehavior = behavior then v
  else { v with selectionBehavior := behavior }.clearSelection

/-- `TableView::setSelectionMode`. -/
def setSelectionMode (mode : TableSelectionMode) : TableView :=
  if v.selectionMode = mode then v
  else
    let v := { v with selectionMode := mode }
    if mode = .none then v.clearSelection
    else if mode = .single ∧ v.selection.length > 1 then
      { v with selection := v.selection.take 1 }
    else v

/-- `TableView::setCurrentRow`. -/
def setCurrentRow (row : ℤ) : TableView :=
  if v.isValidRow row = false then v.clearSelection
  else
    let column := if v.isValidCell row v.currentColumn then v.currentColumn else -1
    let v := v.updateCurrent row column
    if v.selectionMode = .none then v else v.applySelection { row := row } v.operation

/-- `TableView::selectRow`. -/
def selectRow (row : ℤ) : TableView :=
  if v.isValidRow row = false then v.clearSelection
  else
    let v := v.updateCurrent row (-1)
    if v.selectionMode = .none then v else v.applySelection { row := row } v.operation

/-- `TableView::selectColumn`. -/
def selectColumn (column : ℤ) : TableView :=
  if v.isVisibleColumn column = false then v.clearSelection
  else
    let v := v.updateCurrent (if v.isValidRow v.currentRow then v.currentRow else 0) column
    if v.selectionMode = .none then v else v.applySelection { column := column } v.operation

/-- `TableView::selectCell`. -/
def selectCell (row column : ℤ) : TableView :=
  if v.isValidCell row column = false ∨ v.isColumnHidden column = true then v.clearSelection
  else
    let v := v.updateCurrent row column
    if v.selectionMode = .none then v
    else v.applySelection (v.keyForCell row column) v.operation

/-- `TableView::setCurrentCell`. -/
def setCurrentCell (row column : ℤ) : TableView :=
  if v.isValidCell row column = false ∨ v.isColumnHidden column = true then v.clearSelection
  else v.selectCell row column

/-- `TableView::setColumnHidden`. -/
def setColumnHidden (column : ℤ) (hidden : Bool) : TableView :=
  if v.isValidColumn column = false then v
  else if v.isColumnHidden column = hidden then v
  else if hidden then
    { v with hiddenColumns :=
        (v.hiddenColumns ++ [column]).insertionSort (· ≤ ·) }.validateSelection
  else { v with hiddenColumns := v.hiddenColumns.filter (· ≠ column) }

/-- `TableView::hideColumn`. -/
def hideColumn (column : ℤ) : TableView := v.setColumnHidden column true

/-- `TableView::showColumn`. -/
def showColumn (column : ℤ) : TableView := v.setColumnHidden column false

/-! ### The signals of the model -/

/-- A number behind `count` numbers that have been inserted at `first`. -/
def insertedAt (first count n : ℤ) : ℤ := if n ≥ first then n + count else n

/-- A number behind `count` numbers that have been removed at `first`. -/
def removedAt (first count n : ℤ) : ℤ := if n > first + count - 1 then n - count else n

/-- One of `count` numbers from `first` on. -/
def isRemoved (first count n : ℤ) : Bool := first ≤ n && n ≤ first + count - 1

/-- `TableView::handleRowsInserted`. -/
def handleRowsInserted (first count : ℤ) : TableView :=
  if first < 0 ∨ count ≤ 0 then v.validateSelection
  else
    let v := { v with selection := v.selection.map (.mapRow (insertedAt first count)) }
    let v :=
      if v.currentRow ≥ first then v.updateCurrent (v.currentRow + count) v.currentColumn else v
    v.validateSelection

/-- `TableView::handleRowsRemoved`. -/
def handleRowsRemoved (first count : ℤ) : TableView :=
  if first < 0 ∨ count ≤ 0 then v.validateSelection
  else
    let last := first + count - 1
    let kept := v.selection.filter fun key => !isRemoved first count key.row
    let v := { v with selection := kept.map (.mapRow (removedAt first count)) }
    let v :=
      if v.currentRow ≥ first ∧ v.currentRow ≤ last then v.updateCurrent (-1) (-1)
      else if v.currentRow > last then v.updateCurrent (v.currentRow - count) v.currentColumn
      else v
    v.validateSelection

/-- `TableView::handleColumnsInserted`. -/
def handleColumnsInserted (first count : ℤ) : TableView :=
  if first < 0 ∨ count ≤ 0 then v.validateSelection
  else
    let v := { v with
      hiddenColumns := v.hiddenColumns.map (insertedAt first count)
      selection := v.selection.map (.mapColumn (insertedAt first count)) }
    let v :=
      if v.currentColumn ≥ first then v.updateCurrent v.currentRow (v.currentColumn + count)
      else v
    v.validateSelection

/-- `TableView::handleColumnsRemoved`. -/
def handleColumnsRemoved (first count : ℤ) : TableView :=
  if first < 0 ∨ count ≤ 0 then v.validateSelection
  else
    let last := first + count - 1
    let hidden := v.hiddenColumns.filter fun column => !isRemoved first count column
    let kept := v.selection.filter fun key => !isRemoved first count key.column
    let v := { v with
      hiddenColumns := hidden.map (removedAt first count)
      selection := kept.map (.mapColumn (removedAt first count)) }
    let v :=
      if v.currentColumn ≥ first ∧ v.currentColumn ≤ last then v.updateCurrent (-1) (-1)
      else if v.currentColumn > last then v.updateCurrent v.currentRow (v.currentColumn - count)
      else v
    v.validateSelection

/-- The slots that `TableView::connectModelSignals` connects. -/
def handleSignal : ModelSignal → TableView
  | .modelReset => v.validateSelection
  | .dataChanged _ _ => v.validateSelection
  | .rowsInserted first count => v.handleRowsInserted first count
  | .rowsRemoved first count => v.handleRowsRemoved first count
  | .columnsInserted first count => v.handleColumnsInserted first count
  | .columnsRemoved first count => v.handleColumnsRemoved first count

/-- The model has other numbers of rows and columns. -/
def resized (rowCount columnCount : ℤ) : TableView :=
  { v with model := v.model.map fun m =>
      { m with rowCount := rowCount, columnCount := columnCount } }

/-! ### Runs -/

/-- A call of a view, or a signal of its model with the numbers of rows and columns by then. -/
inductive Call
  | setModel (model : Option ViewedModel)
  | setSelectionMode (mode : TableSelectionMode)
  | setSelectionBehavior (behavior : TableSelectionBehavior)
  | setCurrentRow (row : ℤ)
  | setCurrentCell (row column : ℤ)
  | selectRow (row : ℤ)
  | selectColumn (column : ℤ)
  | selectCell (row column : ℤ)
  | clearSelection
  | hideColumn (column : ℤ)
  | showColumn (column : ℤ)
  | signal (rowCount columnCount : ℤ) (signal : ModelSignal)
  deriving DecidableEq

/-- A call. Without a model there are no signals. -/
def step : Call → TableView
  | .setModel model => v.setModel model
  | .setSelectionMode mode => v.setSelectionMode mode
  | .setSelectionBehavior behavior => v.setSelectionBehavior behavior
  | .setCurrentRow row => v.setCurrentRow row
  | .setCurrentCell row column => v.setCurrentCell row column
  | .selectRow row => v.selectRow row
  | .selectColumn column => v.selectColumn column
  | .selectCell row column => v.selectCell row column
  | .clearSelection => v.clearSelection
  | .hideColumn column => v.hideColumn column
  | .showColumn column => v.showColumn column
  | .signal rowCount columnCount signal =>
      if v.model.isNone then v else (v.resized rowCount columnCount).handleSignal signal

/-- The view after some calls. -/
def run (calls : List Call) : TableView := calls.foldl step v

end TableView

end SimplyNode
