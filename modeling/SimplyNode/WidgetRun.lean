import SimplyNode.DataWidgetMapper
import SimplyNode.Lib.Transition

/-!
# Widgets That Come and Go

Runs in which nodes are created and deleted, and `NodePtr`s to them are kept: by the program, in the
items of layouts, and in the mappings of a mapper. `NodePtr::operator==` compares addresses, and is
documented to tell whether two pointers are for one node. It does exactly as long as no node is
created at an address that a pointer that is kept still has (`Distinct`); and then a widget that is
added to a layout is in the layout, and one that is mapped is refreshed and submitted.

## Main results

* `Inv.step`: what a step keeps.
* `distinct_of_compares`: a step that breaks the condition leaves a comparison wrong.
* `run_distinct_iff`: whole runs.
* `added_to_stale`: an item and a mapping of a widget that is gone, and a new widget at its address.
-/

open Relation Transition

namespace SimplyNode

/-- What can happen: nodes come and go, the program keeps `NodePtr`s, and calls of widgets and of
the mapper. -/
inductive GuiStep (σ : Type)
  | construct (ctx : CallContext) (a : Addr) (cls : NodeClass) (parent : Option Addr)
      (widget : WidgetClass)
  | addChild (p c : Addr)
  | setParent (a : Addr) (parent : Option Addr)
  | delete (a : Addr)
  | hold (a : Addr)
  | release (p : NodePtr)
  | addWidget (layout widget : Addr) (stretch : ℤ)
  | addSpacing (layout : Addr) (pixels : ℚ)
  | addStretch (layout : Addr) (factor : ℤ)
  | removeWidget (layout widget : Addr)
  | setStretch (layout widget : Addr) (stretch : ℤ)
  | addRow (layout : Addr) (label : String) (widget : Addr) (stretch : ℤ)
  | setText (widget : Addr) (text : String)
  | addMapping (widget : Addr) (column : ℤ) (role : ModelDataRole)
  | clearMappings
  | setModel (model : Option σ)
  | setCurrentRow (row : ℤ)
  | refresh
  | submit
  | signal (model : σ) (signal : ModelSignal)

namespace Gui

section Defs

variable {σ : Type} (M : TableModel σ) (s : Gui σ)

/-- `if (! widget->parent()) widget->setParent(this);` -/
def adopt (l a : Addr) : Outcome (Gui σ) := do
  let n ← s.heap.node a
  if n.parent.isNone then do
    let w ← s.world.setParent a (some l)
    pure { s with world := w }
  else pure s

/-- Changes the items of a layout. -/
def modifyItems (l : Addr) (f : List LayoutItem → List LayoutItem) : Gui σ :=
  s.modifyWidget l fun x => { x with items := f x.items }

/-- `Layout::addWidget`, for a widget that is not null. -/
def addWidget (l a : Addr) (stretch : ℤ) : Outcome (Gui σ) :=
  if a = l then pure s
  else
    match updateFirst (LayoutItem.isFor a) (LayoutItem.withStretch (max 0 stretch))
        (s.widgets l).items with
    | some (_, items) => (s.modifyItems l fun _ => items).adopt l a
    | none => do
        let s ← s.adopt l a
        pure (s.modifyItems l (· ++ [.widget (s.heap.nodePtr a) (max 0 stretch)]))

/-- `Layout::setStretch`. -/
def setStretch (l a : Addr) (stretch : ℤ) : Gui σ :=
  match updateFirst (LayoutItem.isFor a) (LayoutItem.withStretch (max 0 stretch))
      (s.widgets l).items with
  | some (_, items) => s.modifyItems l fun _ => items
  | none => s

/-- `FormLayout::addRow`, for a widget that is not null. -/
def addRow (l : Addr) (label : String) (a : Addr) (stretch : ℤ) : Outcome (Gui σ) :=
  if a = l then pure s
  else do
    let s ← s.adopt l a
    let row : FormRow := { label := label, widget := s.heap.nodePtr a, stretch := max 0 stretch }
    pure (s.modifyWidget l fun x => { x with rows := x.rows ++ [row] })

/-- The program calls a member function of an object, or passes a pointer to one: the object has to
be there, and of a class. -/
def check (a : Addr) (classes : List WidgetClass) : Outcome Unit :=
  if (s.heap.registry a).isSome && classes.contains (s.widgets a).cls then pure ()
  else throw (.useAfterFree a)

/-- The classes derived from `Layout`. -/
def layouts : List WidgetClass := [.layout, .formLayout]

/-- All classes. -/
def anyClass : List WidgetClass := [.layout, .formLayout, .lineEdit, .other]

/-- The data of the objects that are there in `w`. -/
def remaining (w : World) (x : Addr) : Widget :=
  if (w.heap.registry x).isSome then s.widgets x else {}

/-- **One step of a run.** -/
def step : Gui σ → GuiStep σ → Outcome (Gui σ)
  | s, .construct ctx a cls parent widget => do
      let w ← s.world.construct ctx a cls parent
      pure { s with
        world := w
        widgets := Function.update s.widgets a { cls := widget } }
  | s, .addChild p c => do
      let w ← s.world.addChild p c
      pure { s with world := w }
  | s, .setParent a parent => do
      let w ← s.world.setParent a parent
      pure { s with world := w }
  | s, .delete a => do
      let w ← s.world.delete a
      pure { s with world := w, widgets := s.remaining w }
  | s, .hold a => pure { s with pointers := s.heap.nodePtr a :: s.pointers }
  | s, .release p => pure { s with pointers := s.pointers.erase p }
  | s, .addWidget l a stretch => do
      s.check l layouts
      s.check a anyClass
      s.addWidget l a stretch
  | s, .addSpacing l pixels => do
      s.check l layouts
      pure (s.modifyItems l (· ++ [.fixedSpacer (max 0 pixels)]))
  | s, .addStretch l factor => do
      s.check l layouts
      pure (s.modifyItems l (· ++ [.stretchSpacer (max 1 factor)]))
  | s, .removeWidget l a => do
      s.check l layouts
      pure (s.modifyItems l (·.filter fun item => !item.isFor a))
  | s, .setStretch l a stretch => do
      s.check l layouts
      pure (s.setStretch l a stretch)
  | s, .addRow l label a stretch => do
      s.check l [.formLayout]
      s.check a anyClass
      s.addRow l label a stretch
  | s, .setText a text => do
      s.check a [.lineEdit]
      pure (s.modifyWidget a fun x => { x with text := text })
  | s, .addMapping a column role => do
      s.check a [.lineEdit]
      pure (s.addMapping M a column role)
  | s, .clearMappings => pure (s.withMappings [])
  | s, .setModel model => pure (s.setModel M model)
  | s, .setCurrentRow row => pure (s.setCurrentRow M row)
  | s, .refresh => pure (s.refresh M)
  | s, .submit => pure (s.submit M).2
  | s, .signal model signal => pure ((s.withModel (some model)).handleSignal M signal)

/-- The pointers that are kept. -/
def held : Set NodePtr := fun p =>
  p ∈ s.pointers ∨ (∃ a, p ∈ (s.widgets a).pointers) ∨ ∃ m ∈ s.mapper.mappings, m.widget = p

/-- The condition on addresses: a node is created only where no pointer that is kept has been, and
a pointer that the program makes is for the node that the others at its address are for. -/
def Distinct : GuiStep σ → Prop
  | .construct _ a _ _ _ => ∀ p ∈ s.held, p.node ≠ a
  | .hold a => ∀ p ∈ s.held, p.node = a → p.block = s.heap.registry a
  | _ => True

/-- The condition on nesting: `addWidget` is for layouts that look for a widget in their items, and
no layout comes to be inside itself. -/
def Nested : GuiStep σ → Prop
  | .addWidget l a _ => (s.widgets l).cls = .layout ∧
      (a ≠ l → ¬ TransGen (Inside s.heap s.widgets) l a)
  | .addRow l _ a _ => a ≠ l → ¬ TransGen (Inside s.heap s.widgets) l a
  | _ => True

/-- **Equal pointers are for one node**, and so are a pointer and the node at an address that are
equal. -/
structure Compares : Prop where
  pointers : ∀ p ∈ s.held, ∀ q ∈ s.held, p.equals q = true → p.block = q.block
  nodes : ∀ p ∈ s.held, ∀ a g, s.heap.registry a = some g → p.equalsNode a = true →
    p.block = some g

/-- The mapping of a widget is refreshed, by the call that leads from `s` to `s'` and whenever the
mapper refreshes, and it is submitted when there is a row. -/
structure Serves (s' : Gui σ) (a : Addr) (column : ℤ) (role : ModelDataRole) : Prop where
  shown : (s'.widgets a).text = s'.shownText M column role
  written : NewCall s s' (.setText a (s'.shownText M column role))
  refreshed : NewCall s' (s'.refresh M) (.setText a (s'.shownText M column role))
  submitted : s'.isValidRow M s'.mapper.currentRow = true → s'.isValidColumn M column = true →
    NewCall s' (s'.submit M).2 (.text a column)

/-- **What has been added is there**: a widget in the layout, a mapping in the mapper. -/
def Added (s' : Gui σ) : GuiStep σ → Prop
  | .addWidget l a _ => a ≠ l → Contains s'.heap s'.widgets l a ∧
      ∃ index, widgetAt s'.heap s'.widgets l index = some a
  | .addMapping a column role => s.Serves M s' a column role
  | _ => True

/-- Only an object that is there holds pointers. -/
def Clean : Prop := ∀ a, s.heap.registry a = none → (s.widgets a).pointers = []

/-- **The invariant.** -/
structure Inv : Prop where
  registered : s.heap.Registered
  apart : s.heap.TellsApart s.held
  clean : s.Clean
  nested : ∀ l, Acc (Inside s.heap s.widgets) l

/-- From `s` to `s'`, nodes may have gone, and no pointer is new. -/
structure Fewer (s' : Gui σ) : Prop where
  expires : Heap.Expires s.heap s'.heap
  held : s'.held ⊆ s.held
  entries : ∀ x, (s'.widgets x).entries ⊆ (s.widgets x).entries
  clean : s.Clean → s'.Clean

end Defs

variable {σ : Type} {M : TableModel σ} {s s' s'' : Gui σ} {a l x y : Addr} {k : GuiStep σ}

/-! ### Keeping the invariant -/

/-- Pointers that are held tell objects apart. -/
theorem Inv.compares (hi : s.Inv) : s.Compares where
  pointers p hp q hq hpq := hi.apart.agree p hp q hq (NodePtr.equals_iff.mp hpq)
  nodes p hp _ g hg hpa := hi.apart.object p hp g (NodePtr.equalsNode_iff.mp hpa ▸ hg)

/-- A relation without endless descent, and a step that does not lead back. -/
theorem acc_of_step {α : Type} {r r' : α → α → Prop} {a l : α} (hr : ∀ x, Acc r x)
    (hsub : ∀ x y, r' x y → r x y ∨ x = a ∧ y = l) (hback : ¬ ReflTransGen r l a) (x : α) :
    Acc r' x := by
  have hbelow (b : α) (hb : ReflTransGen r b a) : Acc r' b := by
    induction hr b with
    | intro b _ ih =>
      refine ⟨b, fun x hx => ?_⟩
      rcases hsub x b hx with hx | ⟨-, rfl⟩
      · exact ih x hx (hb.head hx)
      · exact absurd hb hback
  induction hr x with
  | intro y _ ih =>
    refine ⟨y, fun x hx => ?_⟩
    rcases hsub x y hx with hx | ⟨rfl, -⟩
    · exact ih x hx
    · exact hbelow x .refl

/-! ### Spec lemmas of the calls -/

/-- An object that is used is there, and of the class. -/
theorem check_ok {classes : List WidgetClass} (h : s.check a classes = .ok ()) :
    (s.heap.registry a).isSome = true ∧ (s.widgets a).cls ∈ classes := by
  rw [check] at h
  split at h
  · rename_i hc
    simpa using hc
  · exact absurd h (by simp)

/-- Adoption changes parents only. -/
theorem adopt_ok (h : s.adopt l a = .ok s') :
    ∃ w : World, Heap.SameNodes s.heap w.heap ∧ s' = { s with world := w } := by
  obtain ⟨n, -, h⟩ := Outcome.bind_eq_ok.mp h
  split at h
  · obtain ⟨w, hw, h⟩ := Outcome.bind_eq_ok.mp h
    exact ⟨w, World.sameNodes_setParent hw, (Except.ok.inj h).symm⟩
  · exact ⟨s.world, .refl _, (Except.ok.inj h).symm⟩

/-- A change of a stretch factor makes no pointer. -/
theorem pointers_updateFirst {items items' : List LayoutItem} {item : LayoutItem} {stretch : ℤ}
    (h : updateFirst (LayoutItem.isFor a) (LayoutItem.withStretch stretch) items =
      some (item, items')) :
    items'.filterMap LayoutItem.pointer? ⊆ items.filterMap LayoutItem.pointer? := by
  intro p hp
  obtain ⟨x, hx, hxp⟩ := List.mem_filterMap.mp hp
  obtain ⟨y, hy, heq⟩ := exists_mem_of_updateFirst (g := LayoutItem.pointer?)
    (LayoutItem.pointer?_withStretch stretch) h hx
  exact List.mem_filterMap.mpr ⟨y, hy, heq.trans hxp⟩

/-- After `addWidget` there is an item with the address of the widget; and there is one item more,
or only a stretch factor has changed. -/
theorem addWidget_ok {stretch : ℤ} (h : s.addWidget l a stretch = .ok s') (hne : a ≠ l) :
    ∃ (w : World) (items : List LayoutItem), Heap.SameNodes s.heap w.heap ∧
      s' = Gui.modifyItems { s with world := w } l (fun _ => items) ∧
      (∃ p ∈ items.filterMap LayoutItem.pointer?, p.node = a) ∧
      items.filterMap LayoutItem.pointer? ⊆
        w.heap.nodePtr a :: (s.widgets l).items.filterMap LayoutItem.pointer? ∧
      ((∀ p ∈ (s.widgets l).items.filterMap LayoutItem.pointer?, p.node ≠ a) ∨
        items.filterMap LayoutItem.pointer? ⊆
          (s.widgets l).items.filterMap LayoutItem.pointer?) := by
  rw [addWidget, if_neg hne] at h
  split at h
  · rename_i item items hu
    obtain ⟨w, hw, rfl⟩ := adopt_ok h
    have hsub := pointers_updateFirst hu
    obtain ⟨l₁, x, l₂, -, hx, -, heq⟩ := exists_updateFirst hu
    obtain ⟨p, hp, hpa⟩ := LayoutItem.isFor_iff.mp hx
    refine ⟨w, items, hw, rfl, ⟨p, ?_, hpa⟩, List.subset_cons_of_subset _ hsub, Or.inr hsub⟩
    refine List.mem_filterMap.mpr ⟨_, heq ▸ List.mem_append_right _ List.mem_cons_self, ?_⟩
    exact (LayoutItem.pointer?_withStretch ..).trans hp
  · rename_i hu
    obtain ⟨u, hu', h⟩ := Outcome.bind_eq_ok.mp h
    obtain ⟨w, hw, rfl⟩ := adopt_ok hu'
    obtain rfl := Except.ok.inj h
    refine ⟨w, _, hw, rfl, ⟨w.heap.nodePtr a, ?_, rfl⟩, ?_, Or.inl fun p hp hpa => ?_⟩
    · simp [LayoutItem.pointer?]
    · intro p hp
      simpa [LayoutItem.pointer?, or_comm] using hp
    · obtain ⟨item, hitem, hp⟩ := List.mem_filterMap.mp hp
      have hfor := LayoutItem.isFor_iff.mpr ⟨p, hp, hpa⟩
      exact Bool.noConfusion ((updateFirst_eq_none_iff.mp hu item hitem).symm.trans hfor)

namespace Fewer

theorem refl (s : Gui σ) : Fewer s s :=
  ⟨.refl _, Set.Subset.rfl, fun _ => List.Subset.refl _, id⟩

theorem trans (h : Fewer s s') (h' : Fewer s' s'') : Fewer s s'' :=
  ⟨h.expires.trans h'.expires, Set.Subset.trans h'.held h.held,
    fun x => List.Subset.trans (h'.entries x) (h.entries x), fun hc => h'.clean (h.clean hc)⟩

/-- The data of the widgets and the mappings stay. -/
theorem of_heap {w : World} (he : Heap.Expires s.heap w.heap)
    (hr : ∀ x, w.heap.registry x = s.heap.registry x) : Fewer s { s with world := w } :=
  ⟨he, Set.Subset.rfl, fun _ => List.Subset.refl _, fun hc x hx => hc x ((hr x).symm.trans hx)⟩

/-- The same nodes, so no fewer of them. -/
theorem of_sameNodes {w : World} (hs : Heap.SameNodes s.heap w.heap) :
    Fewer s { s with world := w } :=
  of_heap (.sameNodes hs) fun _ => by rw [hs.registry]

/-- What is inside a layout has been inside. -/
theorem inside (h : Fewer s s') (hin : Inside s'.heap s'.widgets x y) :
    Inside s.heap s.widgets x y := by
  obtain ⟨p, hp, halive, hpx⟩ := hin
  obtain ⟨g, hg, halive⟩ := Heap.isAlive_iff.mp halive
  exact ⟨p, h.entries y hp, Heap.isAlive_iff.mpr ⟨g, hg, h.expires.alive g halive⟩, hpx⟩

/-- The invariant survives when objects go. -/
theorem inv (h : Fewer s s') (hi : s.Inv) : s'.Inv where
  registered := h.expires.objects hi.registered
  apart := (hi.apart.expires h.expires).mono h.held
  clean := h.clean hi.clean
  nested l := Subrelation.accessible (fun hin => h.inside hin) (hi.nested l)

/-- A form of the same shape. -/
theorem of_sameForm (h : SameForm M s s') : Fewer s s' := by
  have hheap : s'.heap = s.heap := congrArg World.heap h.world
  have hpointers (x : Addr) : (s'.widgets x).pointers = (s.widgets x).pointers := by
    obtain ⟨text, ht⟩ := h.widgets x
    rw [ht]
    rfl
  refine ⟨?_, ?_, fun x => ?_, fun hc x hx => ?_⟩
  · rw [hheap]
    exact .refl _
  · rintro p (hp | ⟨x, hp⟩ | ⟨m, hm, hp⟩)
    · exact Or.inl (h.pointers ▸ hp)
    · exact Or.inr (Or.inl ⟨x, hpointers x ▸ hp⟩)
    · exact Or.inr (Or.inr ⟨m, h.mappings ▸ hm, hp⟩)
  · obtain ⟨text, ht⟩ := h.widgets x
    rw [ht]
    exact List.Subset.refl _
  · rw [hheap] at hx
    exact (hpointers x).trans (hc x hx)

/-- The mapper may change in everything but its widgets. -/
theorem of_mapper {m : DataWidgetMapper σ}
    (hm : ∀ x ∈ m.mappings, ∃ y ∈ s.mapper.mappings, y.widget = x.widget) :
    Fewer s { s with mapper := m } := by
  refine ⟨.refl _, ?_, fun _ => List.Subset.refl _, id⟩
  rintro p (hp | hp | ⟨x, hx, rfl⟩)
  · exact Or.inl hp
  · exact Or.inr (Or.inl hp)
  · exact Or.inr (Or.inr (hm x hx))

/-- The data of a widget may change in everything but its pointers. -/
theorem modifyWidget {f : Widget → Widget}
    (hp : (f (s.widgets a)).pointers ⊆ (s.widgets a).pointers)
    (he : (f (s.widgets a)).entries ⊆ (s.widgets a).entries) : Fewer s (s.modifyWidget a f) := by
  have hwidgets (x : Addr) : (s.modifyWidget a f).widgets x =
      if x = a then f (s.widgets a) else s.widgets x := Function.update_apply ..
  have hpointers (x : Addr) :
      ((s.modifyWidget a f).widgets x).pointers ⊆ (s.widgets x).pointers := by
    rw [hwidgets]
    split
    · rename_i hxa
      exact hxa ▸ hp
    · exact List.Subset.refl _
  refine ⟨.refl _, ?_, fun x => ?_, fun hc x hx => ?_⟩
  · rintro p (hp | ⟨x, hp⟩ | hp)
    · exact Or.inl hp
    · exact Or.inr (Or.inl ⟨x, hpointers x hp⟩)
    · exact Or.inr (Or.inr hp)
  · rw [hwidgets]
    split
    · rename_i hxa
      exact hxa ▸ he
    · exact List.Subset.refl _
  · exact List.subset_nil.mp (hc x hx ▸ hpointers x)

/-- Items are taken out of a layout. -/
theorem modifyItems {f : List LayoutItem → List LayoutItem}
    (hf : (f (s.widgets l).items).filterMap LayoutItem.pointer? ⊆
      (s.widgets l).items.filterMap LayoutItem.pointer?) : Fewer s (s.modifyItems l f) := by
  refine modifyWidget ?_ ?_
  · exact List.append_subset.mpr
      ⟨List.Subset.trans hf (List.subset_append_left ..), List.subset_append_right ..⟩
  · rw [Widget.entries, Widget.entries]
    cases (s.widgets l).cls with
    | layout => exact hf
    | formLayout => exact List.Subset.refl _
    | lineEdit => exact List.Subset.refl _
    | other => exact List.Subset.refl _

/-- An item without a node goes to the end of a layout. -/
theorem addGap {item : LayoutItem} (hitem : item.pointer? = none) :
    Fewer s (s.modifyItems l fun items => items ++ [item]) := by
  refine modifyItems ?_
  rw [List.filterMap_append, List.filterMap_cons_none hitem]
  exact List.append_subset.mpr ⟨List.Subset.refl _, List.nil_subset _⟩

/-! ### Calls that make no pointer -/

/-- Refreshing adds no pointer. -/
theorem refresh (s : Gui σ) : Fewer s (s.refresh M) := of_sameForm (.refresh s)

/-- Submitting adds no pointer. -/
theorem submit (s : Gui σ) : Fewer s (s.submit M).2 := by
  rw [Gui.submit]
  split
  · exact .refl s
  · have hloop := of_sameForm (.submitMappings (M := M) (s, false, true) s.mapper.mappings)
    simp only
    split
    · exact hloop.trans ((of_sameForm (.call (M := M) ..)).trans (.refresh _))
    · exact hloop

/-- A change of the current row adds no pointer. -/
theorem setCurrentRowInternal (s : Gui σ) (row : ℤ) : Fewer s (s.setCurrentRowInternal M row) := by
  rw [Gui.setCurrentRowInternal]
  refine Fewer.trans ?_ (.refresh _)
  split
  · exact of_mapper fun x hx => ⟨x, hx, rfl⟩
  · exact of_mapper fun x hx => ⟨x, hx, rfl⟩

/-- A new state of the model adds no pointer. -/
theorem withModel (s : Gui σ) (m : Option σ) : Fewer s (s.withModel m) :=
  of_mapper fun x hx => ⟨x, hx, rfl⟩

/-- Mappings with other columns or roles add no pointer. -/
theorem withMappings_map {f : Mapping → Mapping} (hf : ∀ m, (f m).widget = m.widget) :
    Fewer s (s.withMappings (s.mapper.mappings.map f)) := by
  refine of_mapper fun x hx => ?_
  obtain ⟨y, hy, rfl⟩ := List.mem_map.mp hx
  exact ⟨y, hy, (hf y).symm⟩

/-- Signals of the model add no pointer. -/
theorem handleSignal (s : Gui σ) (signal : ModelSignal) : Fewer s (s.handleSignal M signal) := by
  cases signal with
  | modelReset =>
    rw [Gui.handleSignal]
    split
    · exact .setCurrentRowInternal ..
    · exact .refresh s
  | dataChanged row column => exact of_sameForm (.dataChanged ..)
  | rowsInserted first count =>
    simp only [Gui.handleSignal, handleRowsInserted]
    split
    · exact .refresh s
    · split
      · exact .setCurrentRowInternal ..
      · exact .refresh s
  | rowsRemoved first count =>
    simp only [Gui.handleSignal, handleRowsRemoved]
    split
    · exact .refresh s
    · split
      · exact .setCurrentRowInternal ..
      · split
        · exact .setCurrentRowInternal ..
        · exact .refresh s
  | columnsInserted first count =>
    simp only [Gui.handleSignal, handleColumnsInserted]
    split
    · exact .refresh s
    · refine (withMappings_map fun m => ?_).trans (.refresh _)
      split <;> rfl
  | columnsRemoved first count =>
    simp only [Gui.handleSignal, handleColumnsRemoved]
    split
    · exact .refresh s
    · refine (withMappings_map fun m => ?_).trans (.refresh _)
      split
      · rfl
      · split <;> rfl

/-- A stretch factor is no pointer. -/
theorem setStretch (s : Gui σ) (l a : Addr) (stretch : ℤ) : Fewer s (s.setStretch l a stretch) := by
  rw [Gui.setStretch]
  split
  · rename_i item items hu
    exact modifyItems (pointers_updateFirst hu)
  · exact .refl s

/-- The objects that are gone take their pointers along. -/
theorem delete {w : World} (hr : s.heap.Registered) (h : s.world.delete a = .ok w) :
    Fewer s { s with world := w, widgets := s.remaining w } := by
  have hsub (x : Addr) : s.remaining w x = s.widgets x ∨ s.remaining w x = {} := by
    rw [remaining]
    split
    · exact Or.inl rfl
    · exact Or.inr rfl
  have hpointers (x : Addr) : (s.remaining w x).pointers ⊆ (s.widgets x).pointers := by
    rcases hsub x with heq | heq
    · rw [heq]
      exact List.Subset.refl _
    · rw [heq]
      exact List.nil_subset _
  refine ⟨World.expires_delete hr h, ?_, fun x => ?_, fun _ x hx => ?_⟩
  · rintro p (hp | ⟨x, hp⟩ | hp)
    · exact Or.inl hp
    · exact Or.inr (Or.inl ⟨x, hpointers x hp⟩)
    · exact Or.inr (Or.inr hp)
  · change (s.remaining w x).entries ⊆ _
    rcases hsub x with heq | heq
    · rw [heq]
      exact List.Subset.refl _
    · rw [heq]
      exact List.nil_subset _
  · have hx : w.heap.registry x = none := hx
    change (s.remaining w x).pointers = []
    rw [remaining, hx]
    rfl

end Fewer

/-! ### New pointers -/

/-- A pointer to an object that is there may be added. -/
theorem Inv.insert (hi : s.Inv) (hw : s'.world = s.world)
    (ha : ∀ p ∈ s.held, p.node = a → p.block = s.heap.registry a)
    (hheld : s'.held ⊆ Insert.insert (s.heap.nodePtr a) s.held) (hclean : s'.Clean)
    (hnested : ∀ l, Acc (Inside s'.heap s'.widgets) l) : s'.Inv := by
  have hheap : s'.heap = s.heap := congrArg World.heap hw
  refine ⟨?_, ?_, hclean, hnested⟩
  · rw [hheap]
    exact hi.registered
  · rw [hheap]
    exact (hi.apart.insert hi.registered ha).mono hheld

/-- A new pointer in a layout, to a node that the layout is not inside of. -/
theorem Inv.modifyWidget (hi : s.Inv) {f : Widget → Widget} (hl : (s.heap.registry l).isSome)
    (ha : (s.heap.registry a).isSome)
    (hp : (f (s.widgets l)).pointers ⊆ s.heap.nodePtr a :: (s.widgets l).pointers)
    (he : (f (s.widgets l)).entries ⊆ s.heap.nodePtr a :: (s.widgets l).entries)
    (hback : ¬ ReflTransGen (Inside s.heap s.widgets) l a) : (s.modifyWidget l f).Inv := by
  have hwidgets (x : Addr) : (s.modifyWidget l f).widgets x =
      if x = l then f (s.widgets l) else s.widgets x := Function.update_apply ..
  refine hi.insert (a := a) rfl (fun p hp hpa => hi.apart.block_eq ha hp hpa) ?_ ?_ ?_
  · rintro p (hmem | ⟨x, hmem⟩ | hmem)
    · exact Or.inr (Or.inl hmem)
    · rw [hwidgets] at hmem
      split at hmem
      · rcases List.mem_cons.mp (hp hmem) with rfl | hmem
        · exact Or.inl rfl
        · exact Or.inr (Or.inr (Or.inl ⟨l, hmem⟩))
      · exact Or.inr (Or.inr (Or.inl ⟨x, hmem⟩))
    · exact Or.inr (Or.inr (Or.inr hmem))
  · intro x hx
    have hxl : x ≠ l := by
      rintro rfl
      exact absurd hl (by simp [show s.heap.registry x = none from hx])
    rw [hwidgets, if_neg hxl]
    exact hi.clean x hx
  · refine acc_of_step hi.nested ?_ hback
    rintro x y ⟨p, hmem, halive, hpx⟩
    rw [hwidgets] at hmem
    split at hmem
    · rename_i hyl
      subst hyl
      rcases List.mem_cons.mp (he hmem) with rfl | hmem
      · exact Or.inr ⟨hpx.symm, rfl⟩
      · exact Or.inl ⟨p, hmem, halive, hpx⟩
    · exact Or.inl ⟨p, hmem, halive, hpx⟩

/-- A new node, at an address that no pointer has. -/
theorem Inv.construct (hi : s.Inv) {w : World} {widget : WidgetClass}
    (hc : Heap.Creates s.heap w.heap a) (ha : ∀ p ∈ s.held, p.node ≠ a) :
    Inv { s with world := w, widgets := Function.update s.widgets a { cls := widget } } := by
  have hwidgets (x : Addr) : Function.update s.widgets a { cls := widget } x =
      if x = a then { cls := widget } else s.widgets x := Function.update_apply ..
  refine ⟨hc.objects hi.registered, (hi.apart.creates hi.registered hc ha).mono ?_, ?_, ?_⟩
  · rintro p (hp | ⟨x, hp⟩ | hp)
    · exact Or.inl hp
    · simp only [hwidgets] at hp
      split at hp
      · exact absurd hp List.not_mem_nil
      · exact Or.inr (Or.inl ⟨x, hp⟩)
    · exact Or.inr (Or.inr hp)
  · intro x hx
    have hx : w.heap.registry x = none := hx
    rw [hc.registry, Function.update_apply] at hx
    simp only [hwidgets]
    split at hx
    · exact nomatch hx
    · rename_i hxa
      rw [if_neg hxa]
      exact hi.clean x hx
  · refine fun l => Subrelation.accessible ?_ (hi.nested l)
    rintro x y ⟨p, hp, halive, hpx⟩
    simp only [hwidgets] at hp
    split at hp
    · exact absurd (Widget.entries_subset _ hp) List.not_mem_nil
    · obtain ⟨g, hg, halive⟩ := Heap.isAlive_iff.mp halive
      have hheld : p ∈ s.held := Or.inr (Or.inl ⟨y, Widget.entries_subset _ hp⟩)
      have hlt := (hi.apart.refers p hheld g hg).1
      rw [hc.alive, if_neg (Nat.ne_of_lt hlt)] at halive
      exact ⟨p, hp, Heap.isAlive_iff.mpr ⟨g, hg, halive⟩, hpx⟩

/-- The world around the widgets may change. -/
theorem Inv.withWorld (hi : s.Inv) {w : World} (hs : Heap.SameNodes s.heap w.heap) :
    Inv { s with world := w } :=
  (Fewer.of_sameNodes hs).inv hi

/-- A layout does not lead back to itself when nodes have only been linked. -/
theorem not_inside_of_sameNodes {w : World} (hs : Heap.SameNodes s.heap w.heap) (hne : a ≠ l)
    (h : ¬ TransGen (Inside s.heap s.widgets) l a) :
    ¬ ReflTransGen (Inside w.heap s.widgets) l a := by
  intro hback
  have hback : ReflTransGen (Inside s.heap s.widgets) l a :=
    ReflTransGen.mono (fun _ _ => (Fewer.of_sameNodes (s := s) hs).inside) l a hback
  rcases reflTransGen_iff_eq_or_transGen.mp hback with heq | htrans
  · exact hne heq
  · exact h htrans

/-- A widget that is added is there. -/
theorem Inv.addWidget (hi : s.Inv) {stretch : ℤ} (hl : (s.heap.registry l).isSome)
    (ha : (s.heap.registry a).isSome) (hn : s.Nested (.addWidget l a stretch))
    (h : s.addWidget l a stretch = .ok s') : s'.Inv := by
  by_cases hne : a = l
  · rw [Gui.addWidget, if_pos hne] at h
    exact Except.ok.inj h ▸ hi
  · obtain ⟨w, items, hw, rfl, -, hsub, -⟩ := addWidget_ok h hne
    refine (hi.withWorld hw).modifyWidget (a := a) ?_ ?_ ?_ ?_
      (not_inside_of_sameNodes (s := s) hw hne (hn.2 hne))
    · rw [hw.registry]
      exact hl
    · rw [hw.registry]
      exact ha
    · exact List.append_subset.mpr ⟨List.Subset.trans hsub
        (List.cons_subset_cons _ (List.subset_append_left ..)),
        List.subset_cons_of_subset _ (List.subset_append_right ..)⟩
    · rw [Widget.entries, Widget.entries]
      simp only [hn.1]
      exact hsub

/-- A row that is added has its widget there. -/
theorem Inv.addRow (hi : s.Inv) {label : String} {stretch : ℤ} (hl : (s.heap.registry l).isSome)
    (hcls : (s.widgets l).cls = .formLayout) (ha : (s.heap.registry a).isSome)
    (hn : s.Nested (.addRow l label a stretch)) (h : s.addRow l label a stretch = .ok s') :
    s'.Inv := by
  by_cases hne : a = l
  · rw [Gui.addRow, if_pos hne] at h
    exact Except.ok.inj h ▸ hi
  · rw [Gui.addRow, if_neg hne] at h
    obtain ⟨u, hu, h⟩ := Outcome.bind_eq_ok.mp h
    obtain ⟨w, hw, rfl⟩ := adopt_ok hu
    obtain rfl := Except.ok.inj h
    refine (hi.withWorld hw).modifyWidget (a := a) ?_ ?_ ?_ ?_
      (not_inside_of_sameNodes (s := s) hw hne (hn hne))
    · rw [hw.registry]
      exact hl
    · rw [hw.registry]
      exact ha
    · intro p hp
      simpa [Widget.pointers, or_assoc, or_comm, or_left_comm] using hp
    · intro p hp
      simpa [Widget.entries, hcls, or_comm] using hp

/-- What `addMapping` does before it refreshes the mapping. -/
theorem addMapping_eq (s : Gui σ) (a : Addr) (column : ℤ) (role : ModelDataRole) :
    ∃ m ms, s.addMapping M a column role = (s.withMappings ms).refreshMapping M m ∧ m ∈ ms ∧
      m.widget.node = a ∧ m.column = column ∧ m.role = role ∧
      ((∀ x ∈ ms, ∃ y ∈ s.mapper.mappings, y.widget = x.widget) ∨
        (∀ y ∈ s.mapper.mappings, y.widget.node ≠ a) ∧
          ms = s.mapper.mappings ++ [m] ∧ m.widget = s.heap.nodePtr a) := by
  rw [addMapping]
  split
  · rename_i m ms hu
    obtain ⟨l₁, x, l₂, -, hx, hm, hms⟩ := exists_updateFirst hu
    refine ⟨m, ms, rfl, ?_, ?_, ?_, ?_, Or.inl fun x hx => ?_⟩
    · rw [hms, hm]
      exact List.mem_append_right _ List.mem_cons_self
    · rw [hm]
      exact NodePtr.equalsNode_iff.mp hx
    · rw [hm]
    · rw [hm]
    · exact exists_mem_of_updateFirst (g := Mapping.widget)
        (f := fun m => { m with column := column, role := role }) (fun _ => rfl) hu hx
  · rename_i hu
    refine ⟨_, _, rfl, ?_, rfl, rfl, rfl, Or.inr ⟨fun y hy hya => ?_, rfl, rfl⟩⟩
    · exact List.mem_append_right _ (List.mem_singleton_self _)
    · have hfor := updateFirst_eq_none_iff.mp hu y hy
      exact Bool.noConfusion (hfor.symm.trans (NodePtr.equalsNode_iff.mpr hya))

/-- A mapping that is added has its widget there. -/
theorem Inv.addMapping (hi : s.Inv) (ha : (s.heap.registry a).isSome) (column : ℤ)
    (role : ModelDataRole) : (s.addMapping M a column role).Inv := by
  obtain ⟨m, ms, heq, -, -, -, -, hcase⟩ := addMapping_eq (M := M) s a column role
  rw [heq]
  refine (Fewer.of_sameForm (.refreshMapping ..)).inv ?_
  rcases hcase with hold | ⟨-, rfl, hm⟩
  · exact (Fewer.of_mapper hold).inv hi
  · refine hi.insert (a := a) rfl (fun p hp hpa => hi.apart.block_eq ha hp hpa) ?_ hi.clean
      hi.nested
    rintro p (hp | hp | ⟨x, hx, rfl⟩)
    · exact Or.inr (Or.inl hp)
    · exact Or.inr (Or.inr (Or.inl hp))
    · rcases List.mem_append.mp hx with hx | hx
      · exact Or.inr (Or.inr (Or.inr ⟨x, hx, rfl⟩))
      · exact Or.inl (List.mem_singleton.mp hx ▸ hm)

/-- A pointer that is taken is one to an object that is there. -/
theorem Inv.hold (hi : s.Inv) (ha : ∀ p ∈ s.held, p.node = a → p.block = s.heap.registry a) :
    Inv { s with pointers := s.heap.nodePtr a :: s.pointers } := by
  refine hi.insert (a := a) rfl ha ?_ hi.clean hi.nested
  rintro p (hp | hp | hp)
  · rcases List.mem_cons.mp hp with rfl | hp
    · exact Or.inl rfl
    · exact Or.inr (Or.inl hp)
  · exact Or.inr (Or.inr (Or.inl hp))
  · exact Or.inr (Or.inr (Or.inr hp))

/-- **What a step keeps.** -/
theorem Inv.step (hi : s.Inv) (hn : s.Nested k) (hd : s.Distinct k) (h : s.step M k = .ok s') :
    s'.Inv := by
  cases k with
  | construct ctx a cls parent widget =>
    obtain ⟨w, hw, h⟩ := Outcome.bind_eq_ok.mp h
    obtain rfl := Except.ok.inj h
    exact hi.construct (World.creates_construct hw) hd
  | addChild p c =>
    obtain ⟨w, hw, h⟩ := Outcome.bind_eq_ok.mp h
    obtain rfl := Except.ok.inj h
    exact hi.withWorld (World.sameNodes_addChild hw)
  | setParent a parent =>
    obtain ⟨w, hw, h⟩ := Outcome.bind_eq_ok.mp h
    obtain rfl := Except.ok.inj h
    exact hi.withWorld (World.sameNodes_setParent hw)
  | delete a =>
    obtain ⟨w, hw, h⟩ := Outcome.bind_eq_ok.mp h
    obtain rfl := Except.ok.inj h
    exact (Fewer.delete hi.registered hw).inv hi
  | hold a =>
    obtain rfl := Except.ok.inj h
    exact hi.hold hd
  | release p =>
    obtain rfl := Except.ok.inj h
    refine (Fewer.inv (s := s) ⟨.refl _, ?_, fun _ => List.Subset.refl _, id⟩ hi)
    rintro q (hq | hq)
    · exact Or.inl (List.mem_of_mem_erase hq)
    · exact Or.inr hq
  | addWidget l a stretch =>
    obtain ⟨⟨⟩, hl, h⟩ := Outcome.bind_eq_ok.mp h
    obtain ⟨⟨⟩, ha, h⟩ := Outcome.bind_eq_ok.mp h
    exact hi.addWidget (check_ok hl).1 (check_ok ha).1 hn h
  | addSpacing l pixels =>
    obtain ⟨-, -, h⟩ := Outcome.bind_eq_ok.mp h
    obtain rfl := Except.ok.inj h
    exact (Fewer.addGap rfl).inv hi
  | addStretch l factor =>
    obtain ⟨-, -, h⟩ := Outcome.bind_eq_ok.mp h
    obtain rfl := Except.ok.inj h
    exact (Fewer.addGap rfl).inv hi
  | removeWidget l a =>
    obtain ⟨-, -, h⟩ := Outcome.bind_eq_ok.mp h
    obtain rfl := Except.ok.inj h
    exact (Fewer.modifyItems (List.filterMap_subset _ (List.filter_subset_self _))).inv hi
  | setStretch l a stretch =>
    obtain ⟨-, -, h⟩ := Outcome.bind_eq_ok.mp h
    obtain rfl := Except.ok.inj h
    exact (Fewer.setStretch ..).inv hi
  | addRow l label a stretch =>
    obtain ⟨⟨⟩, hl, h⟩ := Outcome.bind_eq_ok.mp h
    obtain ⟨⟨⟩, ha, h⟩ := Outcome.bind_eq_ok.mp h
    obtain ⟨hl, hcls⟩ := check_ok hl
    exact hi.addRow hl (List.mem_singleton.mp hcls) (check_ok ha).1 hn h
  | setText a text =>
    obtain ⟨-, -, h⟩ := Outcome.bind_eq_ok.mp h
    obtain rfl := Except.ok.inj h
    exact (Fewer.modifyWidget (List.Subset.refl _) (List.Subset.refl _)).inv hi
  | addMapping a column role =>
    obtain ⟨⟨⟩, ha, h⟩ := Outcome.bind_eq_ok.mp h
    obtain rfl := Except.ok.inj h
    exact hi.addMapping (check_ok ha).1 column role
  | clearMappings =>
    obtain rfl := Except.ok.inj h
    exact (Fewer.of_mapper fun x hx => absurd hx List.not_mem_nil).inv hi
  | setModel model =>
    obtain rfl := Except.ok.inj h
    exact ((Fewer.withModel ..).trans (.setCurrentRowInternal ..)).inv hi
  | setCurrentRow row =>
    obtain rfl := Except.ok.inj h
    exact (Fewer.setCurrentRowInternal ..).inv hi
  | refresh =>
    obtain rfl := Except.ok.inj h
    exact (Fewer.refresh s).inv hi
  | submit =>
    obtain rfl := Except.ok.inj h
    exact (Fewer.submit s).inv hi
  | signal model signal =>
    obtain rfl := Except.ok.inj h
    exact ((Fewer.withModel ..).trans (.handleSignal ..)).inv hi

/-! ### What has been added -/

/-- A pointer whose object is in the registry is alive. -/
theorem Inv.isAlive (hi : s.Inv) {p : NodePtr} (hp : p ∈ s.held)
    (ha : (s.heap.registry p.node).isSome) : s.heap.isAlive p = true := by
  obtain ⟨g, hg⟩ := Option.isSome_iff_exists.mp ha
  exact hi.registered.isAlive hg (hi.apart.object p hp g hg)

/-- A widget that has been added is found. -/
theorem Inv.added_addWidget (hi : s'.Inv) {stretch : ℤ} (hcls : (s.widgets l).cls = .layout)
    (ha : (s.heap.registry a).isSome) (h : s.addWidget l a stretch = .ok s') (hne : a ≠ l) :
    Contains s'.heap s'.widgets l a ∧ ∃ index, widgetAt s'.heap s'.widgets l index = some a := by
  obtain ⟨w, items, hw, rfl, ⟨p, hp, rfl⟩, -, -⟩ := addWidget_ok h hne
  set t := modifyItems { s with world := w } l fun _ => items
  have hwidget : t.widgets l = { s.widgets l with items := items } := Function.update_self ..
  have hmem : p ∈ (t.widgets l).items.filterMap LayoutItem.pointer? := by
    rw [hwidget]
    exact hp
  have hheld : p ∈ t.held := Or.inr (Or.inl ⟨l, List.mem_append_left _ hmem⟩)
  have halive : t.heap.isAlive p = true := by
    refine hi.isAlive hheld ?_
    change (w.heap.registry p.node).isSome
    rw [hw.registry]
    exact ha
  have hentry : p ∈ (t.widgets l).entries := by
    rw [Widget.entries, hwidget]
    simp only [hcls]
    exact hp
  exact ⟨contains_of_inside (hi.nested l) ⟨p, hentry, halive, rfl⟩, exists_widgetAt hmem halive⟩

/-- A mapping that has been added is served. -/
theorem Inv.serves_addMapping {column : ℤ} {role : ModelDataRole}
    (hi : (s.addMapping M a column role).Inv) (ha : (s.heap.registry a).isSome) :
    s.Serves M (s.addMapping M a column role) a column role := by
  obtain ⟨m, ms, heq, hm, rfl, rfl, rfl, -⟩ := addMapping_eq (M := M) s a column role
  rw [heq] at hi ⊢
  have hform := SameForm.refreshMapping (M := M) (s.withMappings ms) m
  set t := (s.withMappings ms).refreshMapping M m with ht
  have hheap : t.heap = s.heap := congrArg World.heap hform.world
  have hmem : m ∈ t.mapper.mappings := hform.mappings ▸ hm
  have halive : t.heap.isAlive m.widget = true :=
    hi.isAlive (Or.inr (Or.inr ⟨m, hmem, rfl⟩)) (hheap ▸ ha)
  have hset : t = (s.withMappings ms).setText m.widget.node
      ((s.withMappings ms).shownText M m.column m.role) :=
    refreshMapping_of_isAlive (s := s.withMappings ms) (hheap ▸ halive)
  have hshown : t.shownText M = (s.withMappings ms).shownText M :=
    shownText_congr model_refreshMapping hform.currentRow
  have hrefresh := refresh_setText (M := M) hmem halive
  refine ⟨?_, ?_, hrefresh, fun hrow hcolumn => submit_text hmem halive hrow hcolumn⟩
  · rw [hshown, hset]
    change Widget.text (Function.update s.widgets m.widget.node _ m.widget.node) = _
    rw [Function.update_self]
  · rw [hshown, hset]
    exact ⟨[_], rfl, List.mem_singleton_self _⟩

/-- **What a step adds is there** afterwards. -/
theorem Inv.added (hi : s'.Inv) (hn : s.Nested k) (h : s.step M k = .ok s') : s.Added M s' k := by
  cases k with
  | addWidget l a stretch =>
    obtain ⟨⟨⟩, -, h⟩ := Outcome.bind_eq_ok.mp h
    obtain ⟨⟨⟩, ha, h⟩ := Outcome.bind_eq_ok.mp h
    exact hi.added_addWidget hn.1 (check_ok ha).1 h
  | addMapping a column role =>
    obtain ⟨⟨⟩, ha, h⟩ := Outcome.bind_eq_ok.mp h
    obtain rfl := Except.ok.inj h
    exact hi.serves_addMapping (check_ok ha).1
  | _ => trivial

/-- **The converse of the step lemma**: a comparison goes wrong at once. -/
theorem distinct_of_compares (hi : s.Inv) (h : s.step M k = .ok s') (hc : s'.Compares) :
    s.Distinct k := by
  cases k with
  | construct ctx a cls parent widget =>
    obtain ⟨w, hw, h⟩ := Outcome.bind_eq_ok.mp h
    obtain rfl := Except.ok.inj h
    have hcreates := World.creates_construct hw
    intro p hp
    refine hcreates.ne_of_refers (hi.apart.refers p hp) fun g hg => ?_
    refine hc.nodes p ?_ p.node g hg (NodePtr.equalsNode_iff.mpr rfl)
    rcases hp with hp | ⟨x, hp⟩ | hp
    · exact Or.inl hp
    · refine Or.inr (Or.inl ⟨x, ?_⟩)
      have hxa : x ≠ a := by
        rintro rfl
        rw [hi.clean x (hcreates.registry_free hi.registered)] at hp
        exact List.not_mem_nil hp
      simpa only [Function.update_of_ne hxa] using hp
    · exact Or.inr (Or.inr hp)
  | hold a =>
    obtain rfl := Except.ok.inj h
    intro p hp hpa
    refine hc.pointers p ?_ (s.heap.nodePtr a) (Or.inl List.mem_cons_self)
      (NodePtr.equals_iff.mpr hpa)
    rcases hp with hp | hp
    · exact Or.inl (List.mem_cons_of_mem _ hp)
    · exact Or.inr hp
  | _ => trivial

/-! ### Runs -/

/-- No nodes, no pointers, and a mapper without a model. -/
def initial (σ : Type) (main : ThreadId) (workers : ℕ) : Gui σ :=
  { world := World.initial main workers }

/-- At the start there is nothing to be wrong. -/
theorem inv_initial (main : ThreadId) (workers : ℕ) : (initial σ main workers).Inv where
  registered := ⟨nofun, nofun, nofun⟩
  apart := (Heap.TellsApart.empty _).mono <| by
    rintro p (hp | ⟨x, hp⟩ | ⟨m, hm, -⟩)
    · exact absurd hp List.not_mem_nil
    · exact absurd hp List.not_mem_nil
    · exact absurd hm List.not_mem_nil
  clean _ _ := rfl
  nested l := ⟨l, fun _ ⟨_, hp, _⟩ => absurd hp List.not_mem_nil⟩

/-- **Equality of pointers means the same node** exactly as long as no address is used again while a
pointer that is kept has it. In runs in which no layout comes to be inside itself and `addWidget` is
for layouts that look at their items, this condition holds at every step iff every step leaves the
comparisons right, and what it has added there. -/
theorem distinct_iff_same {main : ThreadId} {workers : ℕ} {ks : List (GuiStep σ)} :
    Run (ofFun (step M)) (fun s k => s.Nested k ∧ s.Distinct k) (initial σ main workers) ks s ↔
      Run (ofFun (step M))
        (fun s k => s.Nested k ∧ ∀ s', s.step M k = .ok s' → s'.Compares ∧ s.Added M s' k)
        (initial σ main workers) ks s := by
  have hinit := inv_initial (σ := σ) main workers
  constructor
  · refine fun h => h.strengthen (I := Inv) (fun s k s' hi hok hst => ?_) hinit
    refine ⟨hi.step hok.1 hok.2 hst, hok.1, fun u hu => ?_⟩
    have hu' := hi.step hok.1 hok.2 hu
    exact ⟨hu'.compares, hu'.added hok.1 hu⟩
  · refine fun h => h.strengthen (I := Inv) (fun s k s' hi hok hst => ?_) hinit
    have hd := distinct_of_compares hi hst (hok.2 s' hst).1
    exact ⟨hi.step hok.1 hd hst, hok.1, hd⟩

/-- A model with one cell. -/
def oneCell : TableModel String where
  rowCount _ := 1
  columnCount _ := 1
  data m _ _ _ := some m
  setData _ _ _ text := (true, text, [(0, 0)])
  rowCount_setData _ _ _ _ := rfl
  columnCount_setData _ _ _ _ := rfl

/-- A call on the main thread, in its event loop. -/
def inMain : CallContext := .inside 0 (.loop 0)

/-- Nothing keeps a pointer. -/
def Bare (s : Gui σ) : Prop :=
  s.pointers = [] ∧ s.mapper.mappings = [] ∧ ∀ x, (s.widgets x).pointers = []

/-- No pointer is held. -/
theorem Bare.held (h : s.Bare) : s.held = ∅ := by
  refine Set.eq_empty_of_forall_notMem ?_
  rintro p (hp | ⟨x, hp⟩ | ⟨m, hm, -⟩)
  · exact absurd (h.1 ▸ hp) List.not_mem_nil
  · exact absurd (h.2.2 x ▸ hp) List.not_mem_nil
  · exact absurd (h.2.1 ▸ hm) List.not_mem_nil

/-- Constructing a widget takes no pointer. -/
theorem Bare.construct (h : s.Bare) {w : World} {widget : WidgetClass} :
    Bare { s with world := w, widgets := Function.update s.widgets a { cls := widget } } := by
  refine ⟨h.1, h.2.1, fun x => ?_⟩
  simp only [Function.update_apply]
  split
  · rfl
  · exact h.2.2 x

/-- Deleting a widget takes no pointer. -/
theorem Bare.delete (h : s.Bare) {w : World} :
    Bare { s with world := w, widgets := s.remaining w } := by
  refine ⟨h.1, h.2.1, fun x => ?_⟩
  simp only [remaining]
  split
  · exact h.2.2 x
  · rfl

/-- A new widget is apart from pointers when there are none. -/
theorem Bare.distinct_construct (h : s.Bare) (ctx : CallContext) (cls : NodeClass)
    (parent : Option Addr) (widget : WidgetClass) :
    s.Distinct (.construct ctx a cls parent widget) := by
  intro p hp
  rw [h.held] at hp
  exact absurd hp (Set.notMem_empty p)

/-- Nothing contains a layout if nothing is in what it should be inside of. -/
theorem not_inside_of_entries (h : (s.widgets a).entries = []) :
    ¬ TransGen (Inside s.heap s.widgets) l a := by
  intro hin
  obtain ⟨_, _, ⟨p, hp, -⟩⟩ := TransGen.tail'_iff.mp hin
  rw [h] at hp
  exact List.not_mem_nil hp

/-- An address is used again, after nothing has kept a pointer to it. -/
theorem reused_address : ∃ ks s, Run (ofFun (step oneCell))
    (fun s k => s.Nested k ∧ ∀ s', s.step oneCell k = .ok s' → s'.Compares ∧ s.Added oneCell s' k)
    (initial String 0 0) ks s ∧ ks.length = 6 ∧ s.heap.registry 2 = some 3 ∧
      s.heap.isAlive ⟨2, some 2⟩ = false := by
  have h₀ : (initial String 0 0).Bare := ⟨rfl, rfl, fun _ => rfl⟩
  have hrun : Run (ofFun (step oneCell)) (fun s k => s.Nested k ∧ s.Distinct k)
      (initial String 0 0) [.construct inMain 1 .plain none .layout,
        .construct inMain 2 .plain none .lineEdit, .delete 2,
        .construct inMain 2 .plain none .lineEdit, .addWidget 1 2 0, .addMapping 2 0 .edit] _ :=
    .cons ⟨trivial, h₀.distinct_construct _ _ _ _⟩ rfl <|
    .cons ⟨trivial, h₀.construct.distinct_construct _ _ _ _⟩ rfl <|
    .cons ⟨trivial, trivial⟩ rfl <|
    .cons ⟨trivial, h₀.construct.construct.delete.distinct_construct _ _ _ _⟩ rfl <|
    .cons ⟨⟨rfl, fun _ => not_inside_of_entries rfl⟩, trivial⟩ rfl <|
    .cons ⟨trivial, trivial⟩ rfl <| .nil _
  exact ⟨_, _, distinct_iff_same.mp hrun, rfl, rfl, rfl⟩

/-- A widget in a layout and in a mapper, its deletion, and a new one at its address. -/
def staleSteps : List (GuiStep String) :=
  [.construct inMain 1 .plain none .layout,
    .construct inMain 2 .plain none .lineEdit, .setModel (some "x"),
    .setCurrentRow 0, .addWidget 1 2 0, .addMapping 2 0 .edit, .delete 2,
    .construct inMain 2 .plain none .lineEdit]

/-- **The new widget is taken for the old one**: it is added to neither. -/
theorem added_to_stale : ∃ s u v,
    Reaches (ofFun (step oneCell)) (initial String 0 0) staleSteps s ∧ ¬ s.Compares ∧
    s.step oneCell (.addWidget 1 2 0) = .ok u ∧ ¬ Contains u.heap u.widgets 1 2 ∧
      (∀ index, widgetAt u.heap u.widgets 1 index ≠ some 2) ∧
    s.step oneCell (.addMapping 2 0 .edit) = .ok v ∧
      v.mapper.calls = s.mapper.calls ∧ (v.submit oneCell).2.mapper.calls = v.mapper.calls ∧
      v.isValidRow oneCell v.mapper.currentRow = true := by
  have hrun : staleSteps.foldlM (step oneCell) (initial String 0 0) = .ok _ := rfl
  refine ⟨_, _, _, reaches_of_foldlM hrun, ?_, rfl, ?_, ?_, rfl, rfl, rfl, rfl⟩
  · intro hc
    refine absurd (hc.nodes ⟨2, some 2⟩ (Or.inr (Or.inr ⟨⟨⟨2, some 2⟩, 0, .edit⟩, ?_, rfl⟩))
      2 3 rfl rfl) (by decide)
    exact List.mem_singleton_self _
  · intro hc
    obtain ⟨fuel, hfuel⟩ := hc fun _ _ => false
    cases fuel with
    | zero => exact nomatch hfuel
    | succ fuel =>
      have hfuel : some false = some true := hfuel
      exact nomatch hfuel
  · intro index hw
    obtain ⟨p, hp, halive, -⟩ := widgetAt_isAlive hw
    have hp : p ∈ [(⟨2, some 2⟩ : NodePtr)] := hp
    obtain rfl := List.mem_singleton.mp hp
    exact nomatch (halive : false = true)

/-- Two layouts, each in the other one, and a form. -/
def loopSteps : List (GuiStep String) :=
  [.construct inMain 1 .plain none .other, .construct inMain 2 .plain (some 1) .layout,
    .construct inMain 3 .plain (some 1) .layout, .construct inMain 4 .plain (some 1) .formLayout,
    .construct inMain 5 .plain (some 1) .other, .addWidget 2 3 0, .addWidget 3 2 0,
    .addWidget 2 5 0, .addWidget 4 5 0]

/-- **What the condition on nesting is for**: with layouts that are inside each other the call does
not return, and a form does not look at its items. -/
theorem added_without_nesting : ∃ s, Reaches (ofFun (step oneCell)) (initial String 0 0)
    loopSteps s ∧ (∀ other fuel, containsWidget s.heap s.widgets other fuel 2 5 = none) ∧
      ∀ other fuel, containsWidget s.heap s.widgets other fuel 4 5 ≠ some true := by
  have hrun : loopSteps.foldlM (step oneCell) (initial String 0 0) = .ok _ := rfl
  refine ⟨_, reaches_of_foldlM hrun, fun other fuel => ?_, fun other fuel => ?_⟩
  · exact (containsWidget_eq_none (y := 3) (p := ⟨3, some 3⟩) (q := ⟨2, some 2⟩)
      rfl rfl rfl rfl rfl rfl rfl rfl (by decide) (by decide)
      other fuel).1
  · cases fuel with
    | zero => exact nofun
    | succ fuel =>
      intro h
      have h : some false = some true := h
      exact nomatch h

end Gui

end SimplyNode
