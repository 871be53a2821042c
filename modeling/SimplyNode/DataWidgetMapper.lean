import SimplyNode.Layout

/-!
# Mapping a Row of a Model into Widgets

A `DataWidgetMapper` keeps a list of mappings, each with a `NodePtr` to a `LineEdit`, and writes the
cells of the current row of a model into the widgets and back. Like a layout it keeps mappings of
widgets that are gone, looks for a widget by its address, and passes over what is not alive.

The model is a class of the user: a `TableModel` over states `σ`. Its `setData` tells what it
returns, the state afterwards, and the cells for which it emits `dataChanged` from there. The mapper
keeps a list of the calls it makes and the signals it emits; the code has no such list, it is there
to speak about a whole call. What the program connects to the signals of the mapper is left out.

## Main results

* `SameForm`: what refreshing and submitting keep.
* `refresh_setText`, `submit_text`: mappings of widgets that are alive are refreshed and submitted.
-/

namespace SimplyNode

/-- `ModelDataRole`. -/
inductive ModelDataRole
  | display
  | edit
  | decoration
  deriving DecidableEq

/-- A class derived from `AbstractTableModel`. A value is null, or what its `toString` gives. As it
changes a value only, `setData` keeps the dimensions. -/
structure TableModel (σ : Type) where
  rowCount : σ → ℤ
  columnCount : σ → ℤ
  data : σ → ℤ → ℤ → ModelDataRole → Option String
  setData : σ → ℤ → ℤ → String → Bool × σ × List (ℤ × ℤ)
  rowCount_setData : ∀ m row column text, rowCount (setData m row column text).2.1 = rowCount m
  columnCount_setData : ∀ m row column text,
    columnCount (setData m row column text).2.1 = columnCount m

/-- The text of a cell, with the fallback to the display role. -/
def TableModel.cellText {σ : Type} (M : TableModel σ) (m : σ) (row column : ℤ)
    (role : ModelDataRole) : String :=
  let value := M.data m row column role
  let value := if value.isNone ∧ role ≠ .display then M.data m row column .display else value
  value.getD ""

/-- The signals of a model. -/
inductive ModelSignal
  | modelReset
  | dataChanged (row column : ℤ)
  | rowsInserted (first count : ℤ)
  | rowsRemoved (first count : ℤ)
  | columnsInserted (first count : ℤ)
  | columnsRemoved (first count : ℤ)
  deriving DecidableEq

/-- A mapping. -/
structure Mapping where
  widget : NodePtr
  column : ℤ := -1
  role : ModelDataRole := .edit
  deriving DecidableEq

/-- What the mapper does to others: calls of a widget and of the model, and its signals. The call
`clear` of a widget is `setText` with the empty text. -/
inductive MapperCall
  | setText (widget : Addr) (text : String)
  | text (widget : Addr) (column : ℤ)
  | setData (row column : ℤ) (text : String)
  | currentRowChanged (row : ℤ)
  | refreshed
  | submitted
  deriving DecidableEq

/-- The data members of a `DataWidgetMapper`, with the state of its model. -/
structure DataWidgetMapper (σ : Type) where
  model : Option σ := none
  currentRow : ℤ := -1
  mappings : List Mapping := []
  calls : List MapperCall := []

/-- The nodes, the data of the widgets, the `NodePtr`s that the program keeps, and a mapper. -/
structure Gui (σ : Type) where
  world : World
  widgets : Addr → Widget := fun _ => {}
  pointers : List NodePtr := []
  mapper : DataWidgetMapper σ := {}

namespace Gui

variable {σ : Type} (M : TableModel σ) (s : Gui σ)

/-- The heap. -/
abbrev heap : Heap := s.world.heap

/-- Changes the data of the widget at an address. -/
def modifyWidget (a : Addr) (f : Widget → Widget) : Gui σ :=
  { s with widgets := Function.update s.widgets a (f (s.widgets a)) }

/-- Adds a call to the list. -/
def call (c : MapperCall) : Gui σ :=
  { s with mapper := { s.mapper with calls := s.mapper.calls ++ [c] } }

/-- Replaces the state of the model. -/
def withModel (m : Option σ) : Gui σ := { s with mapper := { s.mapper with model := m } }

/-- Replaces the mappings. -/
def withMappings (ms : List Mapping) : Gui σ :=
  { s with mapper := { s.mapper with mappings := ms } }

/-- `DataWidgetMapper::isValidRow`. -/
def isValidRow (row : ℤ) : Bool :=
  s.mapper.model.any fun m => 0 ≤ row ∧ row < max 0 (M.rowCount m)

/-- `DataWidgetMapper::isValidColumn`. -/
def isValidColumn (column : ℤ) : Bool :=
  s.mapper.model.any fun m => 0 ≤ column ∧ column < max 0 (M.columnCount m)

/-- What a widget shows for a column and a role: nothing without a current row, or the cell. -/
def shownText (column : ℤ) (role : ModelDataRole) : String :=
  match s.mapper.model with
  | none => ""
  | some m =>
      if !s.isValidRow M s.mapper.currentRow || !s.isValidColumn M column then ""
      else M.cellText m s.mapper.currentRow column role

/-- `LineEdit::setText`, called by the mapper. -/
def setText (a : Addr) (text : String) : Gui σ :=
  (s.modifyWidget a fun x => { x with text := text }).call (.setText a text)

/-- `DataWidgetMapper::refreshMapping`. -/
def refreshMapping (mapping : Mapping) : Gui σ :=
  if !s.heap.isAlive mapping.widget then s
  else s.setText mapping.widget.node (s.shownText M mapping.column mapping.role)

/-- The loop over the mappings in `DataWidgetMapper::refresh` and in the slot for `dataChanged`. -/
def refreshMappings (ms : List Mapping) : Gui σ := ms.foldl (refreshMapping M) s

/-- `DataWidgetMapper::refresh`. -/
def refresh : Gui σ := (s.refreshMappings M s.mapper.mappings).call .refreshed

/-- The slot for `dataChanged`. -/
def dataChanged (row column : ℤ) : Gui σ :=
  if row ≠ s.mapper.currentRow then s
  else s.refreshMappings M (s.mapper.mappings.filter (·.column = column))

/-- `DataWidgetMapper::setCurrentRowInternal`, with `refreshWidgets`. -/
def setCurrentRowInternal (row : ℤ) : Gui σ :=
  let previous := s.mapper.currentRow
  let s := { s with mapper := { s.mapper with currentRow := row } }
  let s := if row ≠ previous then s.call (.currentRowChanged row) else s
  s.refresh M

/-- `DataWidgetMapper::setCurrentRow`. -/
def setCurrentRow (row : ℤ) : Gui σ :=
  s.setCurrentRowInternal M (if s.isValidRow M row then row else -1)

/-- `DataWidgetMapper::setModel`, for another model than the present one. -/
def setModel (m : Option σ) : Gui σ := (s.withModel m).setCurrentRowInternal M (-1)

/-- `DataWidgetMapper::handleRowsInserted`. -/
def handleRowsInserted (first count : ℤ) : Gui σ :=
  if first < 0 ∨ count ≤ 0 then s.refresh M
  else if s.mapper.currentRow ≥ first then
    s.setCurrentRowInternal M (s.mapper.currentRow + count)
  else s.refresh M

/-- `DataWidgetMapper::handleRowsRemoved`. -/
def handleRowsRemoved (first count : ℤ) : Gui σ :=
  let last := first + count - 1
  if first < 0 ∨ count ≤ 0 then s.refresh M
  else if s.mapper.currentRow ≥ first ∧ s.mapper.currentRow ≤ last then
    s.setCurrentRowInternal M (-1)
  else if s.mapper.currentRow > last then
    s.setCurrentRowInternal M (s.mapper.currentRow - count)
  else s.refresh M

/-- `DataWidgetMapper::handleColumnsInserted`. -/
def handleColumnsInserted (first count : ℤ) : Gui σ :=
  if first < 0 ∨ count ≤ 0 then s.refresh M
  else
    (s.withMappings (s.mapper.mappings.map fun m =>
      if m.column ≥ first then { m with column := m.column + count } else m)).refresh M

/-- `DataWidgetMapper::handleColumnsRemoved`. -/
def handleColumnsRemoved (first count : ℤ) : Gui σ :=
  let last := first + count - 1
  if first < 0 ∨ count ≤ 0 then s.refresh M
  else
    (s.withMappings (s.mapper.mappings.map fun m =>
      if m.column ≥ first ∧ m.column ≤ last then { m with column := -1 }
      else if m.column > last then { m with column := m.column - count }
      else m)).refresh M

/-- The slots that `DataWidgetMapper::connectModelSignals` connects. -/
def handleSignal : ModelSignal → Gui σ
  | .modelReset =>
      if !s.isValidRow M s.mapper.currentRow then s.setCurrentRowInternal M (-1) else s.refresh M
  | .dataChanged row column => s.dataChanged M row column
  | .rowsInserted first count => s.handleRowsInserted M first count
  | .rowsRemoved first count => s.handleRowsRemoved M first count
  | .columnsInserted first count => s.handleColumnsInserted M first count
  | .columnsRemoved first count => s.handleColumnsRemoved M first count

/-- `DataWidgetMapper::addMapping`. A mapping with the widget's address is changed in place. -/
def addMapping (a : Addr) (column : ℤ) (role : ModelDataRole) : Gui σ :=
  match updateFirst (fun m => m.widget.equalsNode a)
      (fun m => { m with column := column, role := role }) s.mapper.mappings with
  | some (mapping, ms) => (s.withMappings ms).refreshMapping M mapping
  | none =>
      let mapping : Mapping := { widget := s.heap.nodePtr a, column := column, role := role }
      (s.withMappings (s.mapper.mappings ++ [mapping])).refreshMapping M mapping

/-- `setData` of the model, with the slots for `dataChanged` that run inside it. -/
def setData (m : σ) (row column : ℤ) (text : String) : Bool × Gui σ :=
  let (ok, m, cells) := M.setData m row column text
  let s := (s.call (.setData row column text)).withModel (some m)
  (ok, cells.foldl (fun s cell => s.dataChanged M cell.1 cell.2) s)

/-- The body of the loop of `DataWidgetMapper::submit`, with `attempted` and `ok`. -/
def submitMapping (r : Gui σ × Bool × Bool) (mapping : Mapping) : Gui σ × Bool × Bool :=
  let (s, _, ok) := r
  match s.mapper.model with
  | none => r
  | some m =>
      if !s.heap.isAlive mapping.widget || !s.isValidColumn M mapping.column then r
      else if !s.isValidRow M s.mapper.currentRow then r
      else
        let s := s.call (.text mapping.widget.node mapping.column)
        let next := (s.widgets mapping.widget.node).text
        let current := M.cellText m s.mapper.currentRow mapping.column mapping.role
        if next = current then (s, true, ok)
        else
          let (changed, s) := s.setData M m s.mapper.currentRow mapping.column next
          (s, true, ok && changed)

/-- `DataWidgetMapper::submit`. -/
def submit : Bool × Gui σ :=
  if !s.isValidRow M s.mapper.currentRow then (false, s)
  else
    let (s, attempted, ok) := s.mapper.mappings.foldl (submitMapping M) (s, false, true)
    if attempted && ok then (true, (s.call .submitted).refresh M) else (false, s)

/-! ### What refreshing and submitting keep -/

/-- Only texts, the values in the model and the list of calls may differ. -/
structure SameForm (s s' : Gui σ) : Prop where
  world : s'.world = s.world
  pointers : s'.pointers = s.pointers
  widgets : ∀ a, ∃ text, s'.widgets a = { s.widgets a with text := text }
  mappings : s'.mapper.mappings = s.mapper.mappings
  currentRow : s'.mapper.currentRow = s.mapper.currentRow
  rows : ∀ row, s'.isValidRow M row = s.isValidRow M row
  columns : ∀ column, s'.isValidColumn M column = s.isValidColumn M column
  calls : s.mapper.calls <+: s'.mapper.calls

/-- A call that has been made from `s` to `s'`. -/
def NewCall (s s' : Gui σ) (c : MapperCall) : Prop :=
  ∃ cs, s'.mapper.calls = s.mapper.calls ++ cs ∧ c ∈ cs

variable {M s} {s₁ s₂ s' : Gui σ} {a : Addr} {c : MapperCall} {mapping : Mapping}

/-- A call that is new between two states is new between earlier and later ones. -/
theorem NewCall.mono (h : NewCall s₁ s₂ c) (h₁ : s.mapper.calls <+: s₁.mapper.calls)
    (h₂ : s₂.mapper.calls <+: s'.mapper.calls) : NewCall s s' c := by
  obtain ⟨cs, hcs, hc⟩ := h
  obtain ⟨cs₁, h₁⟩ := h₁
  obtain ⟨cs₂, h₂⟩ := h₂
  refine ⟨cs₁ ++ cs ++ cs₂, ?_, ?_⟩
  · rw [← h₂, hcs, ← h₁]
    simp only [List.append_assoc]
  · exact List.mem_append_left _ (List.mem_append_right _ hc)

/-- A call that is made is new. -/
theorem newCall_call : NewCall s (s.call c) c := ⟨[c], rfl, List.mem_singleton_self c⟩

namespace SameForm

/-- Nothing has changed. -/
theorem refl (s : Gui σ) : SameForm M s s :=
  ⟨rfl, rfl, fun _ => ⟨_, rfl⟩, rfl, rfl, fun _ => rfl, fun _ => rfl, List.prefix_rfl⟩

/-- The form stays the same step by step. -/
theorem trans (h : SameForm M s s₁) (h' : SameForm M s₁ s') : SameForm M s s' where
  world := h'.world.trans h.world
  pointers := h'.pointers.trans h.pointers
  widgets a := by
    obtain ⟨text, ht⟩ := h.widgets a
    obtain ⟨text', ht'⟩ := h'.widgets a
    exact ⟨text', by rw [ht', ht]⟩
  mappings := h'.mappings.trans h.mappings
  currentRow := h'.currentRow.trans h.currentRow
  rows row := (h'.rows row).trans (h.rows row)
  columns column := (h'.columns column).trans (h.columns column)
  calls := h.calls.trans h'.calls

/-- A call is recorded. -/
theorem call (s : Gui σ) (c : MapperCall) : SameForm M s (s.call c) :=
  ⟨rfl, rfl, fun _ => ⟨_, rfl⟩, rfl, rfl, fun _ => rfl, fun _ => rfl, List.prefix_append ..⟩

/-- `setText` of a widget. -/
theorem setText (s : Gui σ) (a : Addr) (text : String) : SameForm M s (s.setText a text) := by
  refine ⟨rfl, rfl, fun x => ?_, rfl, rfl, fun _ => rfl, fun _ => rfl, List.prefix_append ..⟩
  change ∃ t, Function.update s.widgets a _ x = _
  rw [Function.update_apply]
  split
  · rename_i hxa
    exact ⟨text, by rw [hxa]⟩
  · exact ⟨_, rfl⟩

/-- A loop whose rounds keep the form. -/
theorem foldl {α : Type} {f : Gui σ → α → Gui σ} (hf : ∀ s x, SameForm M s (f s x)) (l : List α)
    (s : Gui σ) : SameForm M s (l.foldl f s) := by
  induction l generalizing s with
  | nil => exact .refl s
  | cons x l ih => exact (hf s x).trans (ih (f s x))

/-- A round of the loop in `refresh`. -/
theorem refreshMapping (s : Gui σ) (m : Mapping) : SameForm M s (s.refreshMapping M m) := by
  rw [Gui.refreshMapping]
  split
  · exact .refl s
  · exact .setText ..

/-- The loop in `refresh`. -/
theorem refreshMappings (s : Gui σ) (ms : List Mapping) : SameForm M s (s.refreshMappings M ms) :=
  .foldl .refreshMapping ms s

/-- `refresh`. -/
theorem refresh (s : Gui σ) : SameForm M s (s.refresh M) :=
  (SameForm.refreshMappings ..).trans (.call ..)

/-- The slot for `dataChanged`. -/
theorem dataChanged (s : Gui σ) (row column : ℤ) : SameForm M s (s.dataChanged M row column) := by
  rw [Gui.dataChanged]
  split
  · exact .refl s
  · exact .refreshMappings ..

/-- A new state of the model with the same dimensions. -/
theorem withModel {m m' : σ} (hm : s.mapper.model = some m) (hr : M.rowCount m' = M.rowCount m)
    (hc : M.columnCount m' = M.columnCount m) : SameForm M s (s.withModel (some m')) := by
  refine ⟨rfl, rfl, fun _ => ⟨_, rfl⟩, rfl, rfl, fun row => ?_, fun column => ?_,
    List.prefix_rfl⟩
  · simp only [isValidRow, Gui.withModel, hm, Option.any_some, hr]
  · simp only [isValidColumn, Gui.withModel, hm, Option.any_some, hc]

/-- `setData` of the model. -/
theorem setData {m : σ} (hm : s.mapper.model = some m) (row column : ℤ) (text : String) :
    SameForm M s (s.setData M m row column text).2 := by
  have hmodel := withModel (s := s.call (.setData row column text)) hm
    (M.rowCount_setData m row column text) (M.columnCount_setData m row column text)
  exact ((SameForm.call ..).trans hmodel).trans (.foldl (fun s _ => .dataChanged s ..) ..)

/-- A round of the loop in `submit`. -/
theorem submitMapping (r : Gui σ × Bool × Bool) (m : Mapping) :
    SameForm M r.1 (Gui.submitMapping M r m).1 := by
  obtain ⟨s, attempted, ok⟩ := r
  simp only [Gui.submitMapping]
  split
  · exact .refl s
  · rename_i m hm
    split
    · exact .refl s
    · split
      · exact .refl s
      · split
        · exact .call ..
        · exact (SameForm.call ..).trans (setData (s := s.call _) hm ..)

/-- The loop in `submit`. -/
theorem submitMappings (r : Gui σ × Bool × Bool) (ms : List Mapping) :
    SameForm M r.1 (ms.foldl (Gui.submitMapping M) r).1 := by
  induction ms generalizing r with
  | nil => exact .refl r.1
  | cons m ms ih => exact (SameForm.submitMapping r m).trans (ih _)

end SameForm

/-! ### What is refreshed and submitted -/

/-- The text that is shown depends on the model and the current row. -/
theorem shownText_congr (hm : s'.mapper.model = s.mapper.model)
    (hr : s'.mapper.currentRow = s.mapper.currentRow) : s'.shownText M = s.shownText M := by
  funext column role
  simp only [shownText, isValidRow, isValidColumn, hm, hr]
  rfl

/-- A round of the loop in `refresh` leaves the model. -/
theorem model_refreshMapping : (s.refreshMapping M mapping).mapper.model = s.mapper.model := by
  rw [refreshMapping]
  split <;> rfl

/-- The loop in `refresh` leaves the model. -/
theorem model_refreshMappings {ms : List Mapping} :
    (s.refreshMappings M ms).mapper.model = s.mapper.model := by
  induction ms generalizing s with
  | nil => rfl
  | cons m ms ih => exact (ih (s := s.refreshMapping M m)).trans model_refreshMapping

/-- A mapping whose widget is alive is refreshed. -/
theorem refreshMapping_of_isAlive (h : s.heap.isAlive mapping.widget = true) :
    s.refreshMapping M mapping =
      s.setText mapping.widget.node (s.shownText M mapping.column mapping.role) := by
  rw [refreshMapping, h]
  rfl

/-- **The mapping of a widget that is alive is refreshed.** -/
theorem refresh_setText (hm : mapping ∈ s.mapper.mappings)
    (h : s.heap.isAlive mapping.widget = true) : NewCall s (s.refresh M)
      (.setText mapping.widget.node (s.shownText M mapping.column mapping.role)) := by
  obtain ⟨l₁, l₂, hl⟩ := List.append_of_mem hm
  set s₁ := s.refreshMappings M l₁ with hs₁
  have hform : SameForm M s s₁ := .refreshMappings s l₁
  have hshown : s₁.shownText M = s.shownText M :=
    shownText_congr model_refreshMappings hform.currentRow
  have halive : s₁.heap.isAlive mapping.widget = true := by
    rw [heap, hform.world]
    exact h
  have hnew : NewCall s₁ (s₁.refreshMapping M mapping)
      (.setText mapping.widget.node (s.shownText M mapping.column mapping.role)) := by
    rw [refreshMapping_of_isAlive halive, hshown]
    exact newCall_call
  have hsplit : s.refresh M =
      ((s₁.refreshMapping M mapping).refreshMappings M l₂).call .refreshed := by
    rw [refresh, hl, refreshMappings, List.foldl_append, List.foldl_cons, hs₁]
    rfl
  rw [hsplit]
  exact hnew.mono hform.calls ((SameForm.refreshMappings ..).trans (.call ..)).calls

/-- A mapping whose widget is alive, in a valid row and column, asks its widget for the text. -/
theorem submitMapping_text {r : Gui σ × Bool × Bool} (h : r.1.heap.isAlive mapping.widget = true)
    (hrow : r.1.isValidRow M r.1.mapper.currentRow = true)
    (hcolumn : r.1.isValidColumn M mapping.column = true) :
    NewCall r.1 (submitMapping M r mapping).1 (.text mapping.widget.node mapping.column) := by
  obtain ⟨s, attempted, ok⟩ := r
  obtain ⟨m, hm, -⟩ := (Option.any_eq_true ..).mp hrow
  simp only at h hrow hcolumn hm
  simp only [submitMapping, hm, h, hrow, hcolumn, Bool.not_true, Bool.or_self,
    Bool.false_eq_true, if_false]
  split
  · exact newCall_call
  · exact newCall_call.mono List.prefix_rfl (SameForm.setData (s := s.call _) hm ..).calls

/-- **The mapping of a widget that is alive is submitted**, if there is a current row. -/
theorem submit_text (hm : mapping ∈ s.mapper.mappings) (h : s.heap.isAlive mapping.widget = true)
    (hrow : s.isValidRow M s.mapper.currentRow = true)
    (hcolumn : s.isValidColumn M mapping.column = true) :
    NewCall s (s.submit M).2 (.text mapping.widget.node mapping.column) := by
  obtain ⟨l₁, l₂, hl⟩ := List.append_of_mem hm
  set r := l₁.foldl (submitMapping M) (s, false, true) with hr
  have hform : SameForm M s r.1 := .submitMappings (s, false, true) l₁
  have hnew : NewCall r.1 (submitMapping M r mapping).1
      (.text mapping.widget.node mapping.column) := by
    refine submitMapping_text ?_ ?_ ?_
    · rw [heap, hform.world]
      exact h
    · rw [hform.currentRow, hform.rows]
      exact hrow
    · rw [hform.columns]
      exact hcolumn
  have hrest := SameForm.submitMappings (M := M) (submitMapping M r mapping) l₂
  have hsplit : s.mapper.mappings.foldl (submitMapping M) (s, false, true) =
      l₂.foldl (submitMapping M) (submitMapping M r mapping) := by
    rw [hl, List.foldl_append, List.foldl_cons, hr]
  rw [submit, hrow, hsplit]
  simp only [Bool.not_true, Bool.false_eq_true, if_false]
  split
  · exact hnew.mono hform.calls ((hrest.trans (.call ..)).trans (.refresh _)).calls
  · exact hnew.mono hform.calls hrest.calls

end Gui

end SimplyNode
