import Mathlib.Algebra.Order.Ring.Unbundled.Rat
import SimplyNode.Addresses

/-!
# Layouts

A `Layout` keeps a list of items. An item for a widget holds a `NodePtr`, and stays in the list when
the widget is gone. The loops over the list look for a widget with `NodePtr::operator==`, which
compares addresses, and read an item only as long as its pointer is alive.

`containsWidget` is virtual, and goes from a layout into the widgets in it. It returns if no layout
is inside itself (`Inside`); the bound in the model is on the depth of the calls.

## Main results

* `exists_updateFirst`, `updateFirst_eq_none_iff`: the loops that change the first item of a kind.
* `containsWidget_returns`: what is in a layout is found.
-/

namespace SimplyNode

namespace NodePtr

/-- `NodePtr::operator==(const NodePtr<T>&)`. -/
def equals (p q : NodePtr) : Bool := p.node == q.node

/-- `NodePtr::operator==(const Node*)`. -/
def equalsNode (p : NodePtr) (a : Addr) : Bool := p.node == a

theorem equals_iff {p q : NodePtr} : p.equals q = true ↔ p.node = q.node := beq_iff_eq

theorem equalsNode_iff {p : NodePtr} {a : Addr} : p.equalsNode a = true ↔ p.node = a := beq_iff_eq

end NodePtr

/-! ### The data of a widget -/

/-- An item of a `Layout`. Sizes are rational numbers here. -/
inductive LayoutItem
  | widget (widget : NodePtr) (stretch : ℤ)
  | fixedSpacer (fixedSize : ℚ)
  | stretchSpacer (stretch : ℤ)
  deriving DecidableEq

namespace LayoutItem

/-- The pointer of an item for a widget. -/
def pointer? : LayoutItem → Option NodePtr
  | widget p _ => some p
  | _ => none

/-- `item.type == LayoutItemType::Widget && item.widget == widget`. -/
def isFor (a : Addr) : LayoutItem → Bool
  | widget p _ => p.equalsNode a
  | _ => false

/-- Another stretch factor, for an item for a widget. -/
def withStretch (stretch : ℤ) : LayoutItem → LayoutItem
  | widget p _ => widget p stretch
  | item => item

@[simp] theorem pointer?_withStretch (stretch : ℤ) (item : LayoutItem) :
    (item.withStretch stretch).pointer? = item.pointer? := by
  cases item <;> rfl

theorem isFor_iff {a : Addr} {item : LayoutItem} :
    item.isFor a = true ↔ ∃ p, item.pointer? = some p ∧ p.node = a := by
  cases item with
  | widget p stretch => simp [isFor, pointer?, NodePtr.equalsNode]
  | fixedSpacer size => simp [isFor, pointer?]
  | stretchSpacer stretch => simp [isFor, pointer?]

end LayoutItem

/-- A row of a `FormLayout`. -/
structure FormRow where
  label : String
  widget : NodePtr
  stretch : ℤ := 1
  deriving DecidableEq

/-- The class of a widget, as far as `containsWidget` and the mapper tell classes apart: a `Layout`
with the `containsWidget` of this class, a `FormLayout`, a `LineEdit`, or another one. -/
inductive WidgetClass
  | layout
  | formLayout
  | lineEdit
  | other
  deriving DecidableEq

/-- The data members of a widget that belong to its class. -/
structure Widget where
  cls : WidgetClass := .other
  items : List LayoutItem := []
  rows : List FormRow := []
  text : String := ""
  deriving DecidableEq

namespace Widget

variable (x : Widget)

/-- The pointers that the widget holds. -/
def pointers : List NodePtr := x.items.filterMap LayoutItem.pointer? ++ x.rows.map FormRow.widget

/-- The pointers that `containsWidget` goes through: a `Layout` its items, a `FormLayout` its rows
only. -/
def entries : List NodePtr :=
  match x.cls with
  | .layout => x.items.filterMap LayoutItem.pointer?
  | .formLayout => x.rows.map FormRow.widget
  | _ => []

theorem entries_subset : x.entries ⊆ x.pointers := by
  intro p hp
  rw [entries] at hp
  split at hp
  · exact List.mem_append_left _ hp
  · exact List.mem_append_right _ hp
  · exact absurd hp List.not_mem_nil

end Widget

/-! ### The loops that change a list -/

section UpdateFirst

variable {α : Type} {p : α → Bool} {f : α → α} {l l' : List α} {y : α}

/-- A loop that changes the first element of a kind and returns: that element, and the list; or
`none` if the loop comes to its end. -/
def updateFirst (p : α → Bool) (f : α → α) : List α → Option (α × List α)
  | [] => none
  | x :: xs => if p x then some (f x, f x :: xs) else (updateFirst p f xs).map (.map id (x :: ·))

theorem updateFirst_eq_none_iff : updateFirst p f l = none ↔ ∀ x ∈ l, p x = false := by
  induction l with
  | nil => simp [updateFirst]
  | cons x xs ih =>
    rw [updateFirst, List.forall_mem_cons]
    cases hx : p x with
    | true => simp
    | false => simp [ih]

/-- The element that has been changed is where it was, and so are the others. -/
theorem exists_updateFirst (h : updateFirst p f l = some (y, l')) :
    ∃ l₁ x l₂, l = l₁ ++ x :: l₂ ∧ p x = true ∧ y = f x ∧ l' = l₁ ++ f x :: l₂ := by
  induction l generalizing l' with
  | nil => exact nomatch h
  | cons x xs ih =>
    rw [updateFirst] at h
    split at h
    · rename_i hx
      obtain ⟨rfl, rfl⟩ := Prod.mk.inj (Option.some.inj h)
      exact ⟨[], x, xs, rfl, hx, rfl, rfl⟩
    · obtain ⟨⟨z, ys⟩, hys, hz⟩ := Option.map_eq_some_iff.mp h
      obtain ⟨rfl, rfl⟩ := Prod.mk.inj hz
      obtain ⟨l₁, x', l₂, rfl, hx', hy, rfl⟩ := ih hys
      exact ⟨x :: l₁, x', l₂, rfl, hx', hy, rfl⟩

/-- What the change keeps of an element was in the list. -/
theorem exists_mem_of_updateFirst {β : Type} {g : α → β} {x : α} (hg : ∀ x, g (f x) = g x)
    (h : updateFirst p f l = some (y, l')) (hx : x ∈ l') : ∃ z ∈ l, g z = g x := by
  obtain ⟨l₁, z, l₂, rfl, -, -, rfl⟩ := exists_updateFirst h
  rcases List.mem_append.mp hx with hx | hx
  · exact ⟨x, List.mem_append_left _ hx, rfl⟩
  · rcases List.mem_cons.mp hx with rfl | hx
    · exact ⟨z, by simp, (hg z).symm⟩
    · exact ⟨x, by simp [hx], rfl⟩

end UpdateFirst

/-! ### Looking for a widget -/

section Contains

variable (h : Heap) (widgets : Addr → Widget)

/-- The loop of `containsWidget`, where `inner` is the call for the widget of an entry. -/
def searchEntries (inner : Addr → Option Bool) (a : Addr) : List NodePtr → Option Bool
  | [] => some false
  | p :: ps =>
      if !h.isAlive p then searchEntries inner a ps
      else if p.node = a then some true
      else
        match inner p.node with
        | none => none
        | some true => some true
        | some false => searchEntries inner a ps

/-- `containsWidget` of the widget at `l`, with a bound on the depth of the calls. What the classes
outside of this module return is given by `other`. -/
def containsWidget (other : Addr → Addr → Bool) : ℕ → Addr → Addr → Option Bool
  | 0, _, _ => none
  | fuel + 1, l, a =>
      match (widgets l).cls with
      | .layout | .formLayout =>
          searchEntries h (fun b => containsWidget other fuel b a) a (widgets l).entries
      | .lineEdit => some false
      | .other => some (other l a)

/-- The widget at `x` is in the layout at `l`. -/
def Inside (x l : Addr) : Prop := ∃ p ∈ (widgets l).entries, h.isAlive p = true ∧ p.node = x

/-- The layout at `l` contains the widget at `a`: the call returns true. -/
def Contains (l a : Addr) : Prop :=
  ∀ other, ∃ fuel, containsWidget h widgets other fuel l a = some true

/-- `Layout::widgetAt`. -/
def widgetAt (l : Addr) (index : ℤ) : Option Addr :=
  if index < 0 ∨ (widgets l).items.length ≤ index then none
  else
    match (widgets l).items[index.toNat]? with
    | some (.widget p _) => if h.isAlive p then some p.node else none
    | _ => none

variable {h widgets} {a l : Addr} {ps : List NodePtr}

/-- If all calls for the entries return, so does the loop; and it has found what is there. -/
theorem searchEntries_returns (inner : ℕ → Addr → Option Bool)
    (hinner : ∀ p ∈ ps, h.isAlive p = true → ∃ N, ∀ fuel ≥ N, ∃ b, inner fuel p.node = some b) :
    ∃ N, ∀ fuel ≥ N, ∃ b, searchEntries h (inner fuel) a ps = some b ∧
      ((∃ p ∈ ps, h.isAlive p = true ∧ p.node = a) → b = true) := by
  induction ps with
  | nil => exact ⟨0, fun _ _ => ⟨false, rfl, by simp⟩⟩
  | cons p ps ih =>
    obtain ⟨hp, hps⟩ := List.forall_mem_cons.mp hinner
    obtain ⟨N, hN⟩ := ih hps
    cases halive : h.isAlive p with
    | false =>
      refine ⟨N, fun fuel hfuel => ?_⟩
      obtain ⟨b, hb, hfound⟩ := hN fuel hfuel
      refine ⟨b, ?_, fun ⟨q, hq, hqalive, hqa⟩ => hfound ?_⟩
      · rw [searchEntries, halive]
        exact hb
      · rcases List.mem_cons.mp hq with rfl | hq
        · exact Bool.noConfusion (halive.symm.trans hqalive)
        · exact ⟨q, hq, hqalive, hqa⟩
    | true =>
      obtain ⟨K, hK⟩ := hp halive
      refine ⟨max N K, fun fuel hfuel => ?_⟩
      obtain ⟨b, hb, hfound⟩ := hN fuel (le_trans (le_max_left ..) hfuel)
      obtain ⟨c, hc⟩ := hK fuel (le_trans (le_max_right ..) hfuel)
      by_cases hpa : p.node = a
      · exact ⟨true, by simp [searchEntries, halive, hpa], fun _ => rfl⟩
      · cases c with
        | true => exact ⟨true, by simp [searchEntries, halive, hpa, hc], fun _ => rfl⟩
        | false =>
          refine ⟨b, by simpa [searchEntries, halive, hpa, hc] using hb, fun hq => hfound ?_⟩
          obtain ⟨q, hq, hqalive, hqa⟩ := hq
          rcases List.mem_cons.mp hq with rfl | hq
          · exact absurd hqa hpa
          · exact ⟨q, hq, hqalive, hqa⟩

/-- **`containsWidget` returns** if no layout is inside itself, and it has found what is in the
layout. -/
theorem containsWidget_returns (other : Addr → Addr → Bool) (a : Addr)
    (hacc : Acc (Inside h widgets) l) : ∃ N, ∀ fuel ≥ N, ∃ b,
      containsWidget h widgets other fuel l a = some b ∧ (Inside h widgets a l → b = true) := by
  induction hacc with
  | intro l _ ih =>
    have hinner : ∀ p ∈ (widgets l).entries, h.isAlive p = true → ∃ N, ∀ fuel ≥ N, ∃ b,
        containsWidget h widgets other fuel p.node a = some b := by
      intro p hp halive
      obtain ⟨N, hN⟩ := ih p.node ⟨p, hp, halive, rfl⟩
      exact ⟨N, fun fuel hfuel => (hN fuel hfuel).imp fun _ => And.left⟩
    obtain ⟨N, hN⟩ := searchEntries_returns (a := a)
      (fun fuel b => containsWidget h widgets other fuel b a) hinner
    refine ⟨N + 1, fun fuel hfuel => ?_⟩
    obtain ⟨fuel, rfl⟩ : ∃ k, fuel = k + 1 := ⟨fuel - 1, by omega⟩
    have hnone (hentries : (widgets l).entries = []) : ¬ Inside h widgets a l := by
      rintro ⟨p, hp, -⟩
      rw [hentries] at hp
      exact List.not_mem_nil hp
    rw [containsWidget]
    cases hcls : (widgets l).cls with
    | layout => exact hN fuel (by omega)
    | formLayout => exact hN fuel (by omega)
    | lineEdit => exact ⟨false, rfl, fun hin => absurd hin (hnone (by rw [Widget.entries, hcls]))⟩
    | other => exact ⟨_, rfl, fun hin => absurd hin (hnone (by rw [Widget.entries, hcls]))⟩

theorem contains_of_inside (hacc : Acc (Inside h widgets) l) (hin : Inside h widgets a l) :
    Contains h widgets l a := by
  intro other
  obtain ⟨N, hN⟩ := containsWidget_returns other a hacc
  obtain ⟨b, hb, htrue⟩ := hN N le_rfl
  exact ⟨N, htrue hin ▸ hb⟩

/-- An item for a widget that is alive is found by its index. -/
theorem exists_widgetAt {p : NodePtr} (hp : p ∈ (widgets l).items.filterMap LayoutItem.pointer?)
    (halive : h.isAlive p = true) : ∃ index, widgetAt h widgets l index = some p.node := by
  obtain ⟨item, hitem, hp⟩ := List.mem_filterMap.mp hp
  obtain ⟨i, hi⟩ := List.mem_iff_getElem?.mp hitem
  obtain ⟨hlt, -⟩ := List.getElem?_eq_some_iff.mp hi
  refine ⟨i, ?_⟩
  have hbound : ¬ ((i : ℤ) < 0 ∨ ((widgets l).items.length : ℤ) ≤ i) := by omega
  rw [widgetAt, if_neg hbound, Int.toNat_natCast, hi]
  cases item with
  | widget q stretch =>
    obtain rfl := Option.some.inj hp
    exact if_pos halive
  | fixedSpacer size => exact nomatch hp
  | stretchSpacer stretch => exact nomatch hp

/-- What is found by its index is alive. -/
theorem widgetAt_isAlive {index : ℤ}
    (hw : widgetAt h widgets l index = some a) :
    ∃ p ∈ (widgets l).items.filterMap LayoutItem.pointer?, h.isAlive p = true ∧ p.node = a := by
  rw [widgetAt] at hw
  split at hw
  · exact nomatch hw
  · split at hw
    · rename_i p stretch hi
      split at hw
      · rename_i halive
        refine ⟨p, List.mem_filterMap.mpr ⟨_, List.mem_of_getElem? hi, rfl⟩, halive,
          Option.some.inj hw⟩
      · exact nomatch hw
    · exact nomatch hw

/-- With two layouts that are first in each other the call does not return. -/
theorem containsWidget_eq_none {x y : Addr} {p q : NodePtr} {qs : List NodePtr}
    (hx : (widgets x).cls = .layout)
    (hy : (widgets y).cls = .layout) (hxe : (widgets x).entries = p :: ps)
    (hye : (widgets y).entries = q :: qs) (hp : h.isAlive p = true) (hq : h.isAlive q = true)
    (hpy : p.node = y) (hqx : q.node = x) (hxa : x ≠ a) (hya : y ≠ a) (other : Addr → Addr → Bool)
    (fuel : ℕ) : containsWidget h widgets other fuel x a = none ∧
      containsWidget h widgets other fuel y a = none := by
  induction fuel with
  | zero => exact ⟨rfl, rfl⟩
  | succ fuel ih =>
    simp [containsWidget, hx, hy, hxe, hye, searchEntries, hp, hq, hpy, hqx, hxa, hya, ih]

end Contains

end SimplyNode
