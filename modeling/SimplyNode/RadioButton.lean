import Mathlib.Logic.Function.Basic
import SimplyNode.Lib.ExclusiveGroups
import SimplyNode.Lib.Transition

/-!
# Radio Buttons

`RadioButton` (`RadioButton.h/.cpp`): buttons that are linked in groups, each with its own list of
the others. A button has a number that is not given again, as a `NodePtr` of a list refers to one
construction only. A click deselects the other buttons one after the other, and the slots of each
button that it deselects run in between; a slot calls `setSelected`, which emits nothing.

## Main results

* `linked_link`: what `link` makes of the links.
* `consistent_step_iff`: the steps that keep groups of which one button is selected.
* `radio_iff`: a run keeps them exactly when no click selects its button next to another one, and no
  group that `link` joins cuts off a part of a group.
-/

namespace SimplyNode

open ExclusiveGroups

/-- `RadioButton`, with the mark that `deleteLater` sets. -/
structure RadioButton where
  selected : Bool := false
  markedForDelete : Bool := false
  linkedButtons : List ℕ := []
  deriving DecidableEq

/-- A click in progress: its button, the peers that are still to be deselected, whether slots run,
and whether the button has been selected. -/
structure RadioClick where
  button : ℕ
  peers : List ℕ
  emitting : Bool := false
  selected : Bool := false
  deriving DecidableEq

/-- The buttons that there are, how many have been constructed, and a click. -/
structure RadioButtons where
  buttons : ℕ → Option RadioButton := fun _ => none
  constructed : ℕ := 0
  click : Option RadioClick := none

namespace RadioButtons

variable (s : RadioButtons)

/-! ### Buttons -/

/-- The button has not been destroyed. -/
def isAlive (a : ℕ) : Bool := (s.buttons a).isSome

/-- A pointer to the button is not null and the button not marked for deletion. -/
def isLive (a : ℕ) : Bool := (s.buttons a).any fun button => !button.markedForDelete

/-- `RadioButton::isSelected`. -/
def isSelected (a : ℕ) : Bool := (s.buttons a).any (·.selected)

/-- `RadioButton::m_linkedButtons`. -/
def linkedButtons (a : ℕ) : List ℕ := (s.buttons a).elim [] (·.linkedButtons)

/-- Changes a button. -/
def modify (a : ℕ) (f : RadioButton → RadioButton) : RadioButtons :=
  { s with buttons := Function.update s.buttons a ((s.buttons a).map f) }

/-- The constructor of a button. -/
def construct : RadioButtons :=
  { s with
    buttons := Function.update s.buttons s.constructed (some {})
    constructed := s.constructed + 1 }

/-- Sets `m_selected`. -/
def assignSelected (a : ℕ) (selected : Bool) : RadioButtons :=
  s.modify a fun button => { button with selected := selected }

/-- `RadioButton::isLinkedTo`. -/
def isLinkedTo (a other : ℕ) : Bool :=
  if other = a then false else (s.linkedButtons a).any fun peer => s.isLive peer && peer = other

/-- `RadioButton::linkedPeers`. -/
def linkedPeers (a : ℕ) : List ℕ := (s.linkedButtons a).filter s.isLive

/-! ### Linking -/

/-- Appends to `m_linkedButtons`. -/
def appendPeer (a other : ℕ) : RadioButtons :=
  s.modify a fun button => { button with linkedButtons := button.linkedButtons ++ [other] }

/-- `RadioButton::addLinkedPeer`. -/
def addLinkedPeer (a other : ℕ) : RadioButtons :=
  if other = a ∨ s.isLinkedTo a other then s else s.appendPeer a other

/-- A button in a group, once. -/
def pushButton (group : List ℕ) (a : ℕ) : List ℕ := if group.contains a then group else group ++ [a]

/-- The group of two buttons and their peers. -/
def linkedGroup (a other : ℕ) : List ℕ :=
  let group := (s.linkedPeers a).foldl pushButton [a]
  (s.linkedPeers other).foldl pushButton (pushButton group other)

/-- The loops of `link` that link all of a group. -/
def linkButtons (group : List ℕ) : RadioButtons :=
  group.foldl (fun s lhs =>
    group.foldl (fun s rhs => if lhs ≠ rhs then s.addLinkedPeer lhs rhs else s) s) s

/-- The loop of `link` that deselects all of a group but the first that is selected. -/
def deselectRest : List ℕ → Bool → RadioButtons → RadioButtons
  | [], _, s => s
  | button :: group, found, s =>
      if s.isSelected button then
        if found then deselectRest group true (s.assignSelected button false)
        else deselectRest group true s
      else deselectRest group found s

/-- `RadioButton::link`. -/
def link (a other : ℕ) : RadioButtons :=
  if other = a then s
  else
    let group := s.linkedGroup a other
    deselectRest group false (s.linkButtons group)

/-! ### Selecting -/

/-- The loop of `setSelectedInternal` without signals. -/
def deselectPeers (peers : List ℕ) : RadioButtons :=
  peers.foldl (fun s peer => if s.isSelected peer then s.assignSelected peer false else s) s

/-- `RadioButton::setSelected`. -/
def setSelected (a : ℕ) (selected : Bool) : RadioButtons :=
  let s := if selected then s.deselectPeers (s.linkedPeers a) else s
  if s.isSelected a = selected then s else s.assignSelected a selected

/-! ### Runs -/

/-- What a program does with buttons, and the turns of a click. A slot of the signal that a click
emits calls `setSelected`. -/
inductive Step
  | construct
  | destroy (a : ℕ)
  | deleteLater (a : ℕ)
  | link (a other : ℕ)
  | setSelected (a : ℕ) (selected : Bool)
  | click (a : ℕ)
  | deselect
  | select
  | finish
  deriving DecidableEq

/-- A turn of the loop of `setSelectedInternal` over the peers. -/
def deselectNext (c : RadioClick) : RadioButtons :=
  match c.peers with
  | [] => s
  | peer :: peers =>
      if s.isSelected peer then
        { s.assignSelected peer false with
          click := some { c with peers := peers, emitting := true } }
      else { s with click := some { c with peers := peers, emitting := false } }

/-- `setSelectedInternal` after its loop. -/
def selectClicked (c : RadioClick) : RadioButtons :=
  if c.peers ≠ [] ∨ c.selected then s
  else if s.isSelected c.button then { s with click := none }
  else
    { s.assignSelected c.button true with
      click := some { c with emitting := true, selected := true } }

/-- A step. One that is not possible changes nothing: while a click is in progress there are only
its turns and the calls of slots. -/
def step : Step → RadioButtons
  | .construct => if s.click.isSome then s else s.construct
  | .destroy a =>
      if s.click.isSome then s else { s with buttons := Function.update s.buttons a none }
  | .deleteLater a =>
      if s.click.isSome then s
      else s.modify a fun button => { button with markedForDelete := true }
  | .link a other =>
      if s.click.isSome ∨ !s.isAlive a ∨ !s.isAlive other then s else s.link a other
  | .setSelected a selected =>
      if s.click.all (·.emitting) then s.setSelected a selected else s
  | .click a =>
      if s.click.isSome ∨ !s.isAlive a ∨ s.isSelected a then s
      else { s with click := some { button := a, peers := s.linkedPeers a } }
  | .deselect => s.click.elim s s.deselectNext
  | .select => s.click.elim s s.selectClicked
  | .finish => if s.click.any (·.selected) then { s with click := none } else s

/-- The buttons after some steps. -/
def run (steps : List Step) : RadioButtons := steps.foldl step s

/-! ### Groups -/

/-- Two buttons that are alive and not marked, of which one is linked to the other. -/
def linked (a b : ℕ) : Prop := s.isLive a = true ∧ s.isLive b = true ∧ s.isLinkedTo a b = true

/-- The buttons that are selected. -/
def selectedButtons : Set ℕ := {a | s.isSelected a = true}

instance (a : ℕ) : Decidable (a ∈ s.selectedButtons) :=
  inferInstanceAs (Decidable (s.isSelected a = true))

/-- **Consistent groups**: the links are those of groups, and of a group one button at most is
selected. -/
structure Consistent : Prop where
  groups : Groups s.linked
  exclusive : Exclusive s.linked s.selectedButtons

/-- A button has no links to those that are still to be constructed. -/
structure Fresh : Prop where
  alive : ∀ a, s.isAlive a = true → a < s.constructed
  links : ∀ a, ∀ peer ∈ s.linkedButtons a, peer < s.constructed

/-- A step after which a click does not select its button next to a peer that is selected, and no
group that is linked has a part of a group together with a button of another. -/
def Keeping : Step → Prop
  | .link a other =>
      s.click = none → s.isAlive a = true → s.isAlive other = true → other ≠ a →
        Joinable s.linked {x | x ∈ s.linkedGroup a other ∧ s.isLive x = true}
  | .select =>
      ∀ c, s.click = some c → c.peers = [] → c.selected = false → s.isSelected c.button = false →
        ∀ peer, s.linked c.button peer → s.isSelected peer = false
  | _ => True

variable {s} {s' s'' : RadioButtons}

/-- The buttons are alive, marked and linked as before. -/
structure SameLinks (s s' : RadioButtons) : Prop where
  constructed : s'.constructed = s.constructed
  alive : ∀ a, s'.isAlive a = s.isAlive a
  live : ∀ a, s'.isLive a = s.isLive a
  links : ∀ a, s'.linkedButtons a = s.linkedButtons a

namespace SameLinks

theorem refl (s : RadioButtons) : SameLinks s s := ⟨rfl, fun _ => rfl, fun _ => rfl, fun _ => rfl⟩

theorem trans (h : SameLinks s s') (h' : SameLinks s' s'') : SameLinks s s'' where
  constructed := h'.constructed.trans h.constructed
  alive a := (h'.alive a).trans (h.alive a)
  live a := (h'.live a).trans (h.live a)
  links a := (h'.links a).trans (h.links a)

/-- The same links, so the same buttons are linked. -/
theorem isLinkedTo (h : SameLinks s s') (a b : ℕ) : s'.isLinkedTo a b = s.isLinkedTo a b := by
  rw [RadioButtons.isLinkedTo, RadioButtons.isLinkedTo, h.links, funext h.live]

/-- The same links, as a relation. -/
theorem linked (h : SameLinks s s') : s'.linked = s.linked := by
  funext a b
  rw [RadioButtons.linked, RadioButtons.linked, h.live, h.live, h.isLinkedTo]

/-- Buttons that are constructed later are not linked either. -/
theorem fresh (h : SameLinks s s') (hs : s.Fresh) : s'.Fresh where
  alive a ha := by
    rw [h.constructed]
    exact hs.alive a (h.alive a ▸ ha)
  links a peer hpeer := by
    rw [h.constructed]
    exact hs.links a peer (h.links a ▸ hpeer)

/-- With the same links and fewer buttons selected the groups stay consistent. -/
theorem consistent (h : SameLinks s s') (hs : s.Consistent)
    (hselected : ∀ a, s'.isSelected a = true → s.isSelected a = true) : s'.Consistent where
  groups := h.linked ▸ hs.groups
  exclusive := by
    rw [h.linked]
    exact hs.exclusive.mono hselected

end SameLinks

/-! ### Changing a button -/

/-- The buttons, when one has been modified. -/
theorem buttons_modify (s : RadioButtons) (a : ℕ) (f : RadioButton → RadioButton) (x : ℕ) :
    (s.modify a f).buttons x = if x = a then (s.buttons a).map f else s.buttons x :=
  Function.update_apply ..

/-- No button comes to life, and none dies. -/
theorem isAlive_modify (s : RadioButtons) (a : ℕ) (f : RadioButton → RadioButton) (x : ℕ) :
    (s.modify a f).isAlive x = s.isAlive x := by
  rw [isAlive, isAlive, buttons_modify]
  split
  · rename_i heq
    rw [heq, Option.isSome_map]
  · rfl

/-- A button that is modified is marked as before. -/
theorem isLive_modify {f : RadioButton → RadioButton}
    (hf : ∀ button, (f button).markedForDelete = button.markedForDelete) (s : RadioButtons)
    (a x : ℕ) : (s.modify a f).isLive x = s.isLive x := by
  rw [isLive, isLive, buttons_modify]
  split
  · rename_i heq
    rw [heq, Option.any_map]
    simp only [hf]
  · rfl

/-- A button that is modified is selected as before. -/
theorem isSelected_modify {f : RadioButton → RadioButton}
    (hf : ∀ button, (f button).selected = button.selected) (s : RadioButtons)
    (a x : ℕ) : (s.modify a f).isSelected x = s.isSelected x := by
  rw [isSelected, isSelected, buttons_modify]
  split
  · rename_i heq
    rw [heq, Option.any_map]
    simp only [hf]
  · rfl

/-- A button that is modified has its list of buttons. -/
theorem linkedButtons_modify {f : RadioButton → RadioButton}
    (hf : ∀ button, (f button).linkedButtons = button.linkedButtons) (s : RadioButtons)
    (a x : ℕ) : (s.modify a f).linkedButtons x = s.linkedButtons x := by
  rw [linkedButtons, linkedButtons, buttons_modify]
  split
  · rename_i heq
    rw [heq]
    cases s.buttons a with
    | none => rfl
    | some button => exact hf button
  · rfl

/-- A button that lives and is not marked is alive. -/
theorem isLive_isAlive {a : ℕ} (h : s.isLive a = true) : s.isAlive a = true := by
  rw [isLive, Option.any_eq_true] at h
  obtain ⟨button, hbutton, -⟩ := h
  rw [isAlive, hbutton]
  rfl

/-- Selecting a button changes no link. -/
theorem sameLinks_assignSelected (s : RadioButtons) (a : ℕ) (selected : Bool) :
    SameLinks s (s.assignSelected a selected) where
  constructed := rfl
  alive := isAlive_modify s a _
  live := isLive_modify (f := fun button => { button with selected := selected })
    (fun _ => rfl) s a
  links := linkedButtons_modify (f := fun button => { button with selected := selected })
    (fun _ => rfl) s a

/-- The buttons that are selected afterwards. -/
theorem isSelected_assignSelected (s : RadioButtons) (a : ℕ) (selected : Bool) (x : ℕ) :
    (s.assignSelected a selected).isSelected x =
      if x = a then s.isAlive a && selected else s.isSelected x := by
  rw [isSelected, assignSelected, buttons_modify]
  split
  · rw [isAlive]
    cases s.buttons a with
    | none => rfl
    | some button => rfl
  · rfl

/-- No button is linked to itself. -/
theorem linked_ne {a b : ℕ} (h : s.linked a b) : b ≠ a := by
  intro heq
  have hlink := h.2.2
  rw [isLinkedTo, if_pos heq] at hlink
  cases hlink

/-- What `isLinkedTo` tells. -/
theorem isLinkedTo_iff {a b : ℕ} :
    s.isLinkedTo a b = true ↔ b ≠ a ∧ b ∈ s.linkedButtons a ∧ s.isLive b = true := by
  rw [isLinkedTo]
  split
  · rename_i heq
    exact iff_of_false Bool.false_ne_true fun h => h.1 heq
  · rename_i hne
    rw [List.any_eq_true]
    constructor
    · rintro ⟨peer, hpeer, heq⟩
      rw [Bool.and_eq_true, decide_eq_true_eq] at heq
      exact ⟨hne, heq.2 ▸ hpeer, heq.2 ▸ heq.1⟩
    · rintro ⟨-, hmem, hlive⟩
      refine ⟨b, hmem, ?_⟩
      rw [hlive, decide_eq_true rfl]
      rfl

/-- The peers of a button. -/
theorem mem_linkedPeers {a b : ℕ} :
    b ∈ s.linkedPeers a ↔ b ∈ s.linkedButtons a ∧ s.isLive b = true := List.mem_filter

/-- Links by the lists of peers. -/
theorem linked_iff {a b : ℕ} :
    s.linked a b ↔ s.isLive a = true ∧ b ≠ a ∧ b ∈ s.linkedPeers a := by
  rw [linked, isLinkedTo_iff, mem_linkedPeers]
  tauto

/-! ### Selecting -/

/-- **The loop over the peers** deselects them and nothing else. -/
theorem deselectPeers_spec (peers : List ℕ) (s : RadioButtons) :
    SameLinks s (s.deselectPeers peers) ∧
      ∀ x, (s.deselectPeers peers).isSelected x = true ↔ s.isSelected x = true ∧ x ∉ peers := by
  induction peers generalizing s with
  | nil => exact ⟨.refl s, fun x => (and_iff_left List.not_mem_nil).symm⟩
  | cons peer peers ih =>
      rw [deselectPeers, List.foldl_cons]
      change SameLinks s (deselectPeers _ peers) ∧
        ∀ x, (deselectPeers _ peers).isSelected x = true ↔ _
      split
      · obtain ⟨hlinks, hselected⟩ := ih (s.assignSelected peer false)
        refine ⟨(sameLinks_assignSelected s peer false).trans hlinks, fun x => ?_⟩
        rw [hselected, isSelected_assignSelected, List.mem_cons, not_or]
        split
        · rename_i heq
          rw [Bool.and_false]
          exact iff_of_false (fun h => Bool.false_ne_true h.1) fun h => h.2.1 heq
        · rename_i hne
          exact ⟨fun h => ⟨h.1, hne, h.2⟩, fun h => ⟨h.1, h.2.2⟩⟩
      · rename_i hnot
        obtain ⟨hlinks, hselected⟩ := ih s
        refine ⟨hlinks, fun x => ?_⟩
        rw [hselected, List.mem_cons, not_or]
        exact ⟨fun h => ⟨h.1, fun heq => hnot (heq ▸ h.1), h.2⟩, fun h => ⟨h.1, h.2.2⟩⟩

/-- A setter changes no link. -/
theorem sameLinks_setSelected (s : RadioButtons) (a : ℕ) (selected : Bool) :
    SameLinks s (s.setSelected a selected) := by
  have hpeers : SameLinks s (if selected then s.deselectPeers (s.linkedPeers a) else s) := by
    split
    · exact (deselectPeers_spec _ s).1
    · exact .refl s
  have hassign (s : RadioButtons) : SameLinks s
      (if s.isSelected a = selected then s else s.assignSelected a selected) := by
    split
    · exact .refl s
    · exact sameLinks_assignSelected s a selected
  exact hpeers.trans (hassign _)

/-- A button that is selected next to none that is linked with it. -/
theorem Consistent.select (hs : s.Consistent) (hlinks : SameLinks s s') {a : ℕ}
    (hselected : ∀ x, s'.isSelected x = true → x ≠ a → s.isSelected x = true)
    (hpeers : ∀ peer, s.linked a peer → s'.isSelected peer = false) : s'.Consistent where
  groups := hlinks.linked ▸ hs.groups
  exclusive := by
    rw [hlinks.linked]
    intro x y hxy hx hy
    by_cases hxa : x = a
    · subst hxa
      exact absurd ((hpeers y hxy).symm.trans hy) Bool.false_ne_true
    by_cases hya : y = a
    · subst hya
      exact absurd ((hpeers x (hs.groups.symm hxy)).symm.trans hx) Bool.false_ne_true
    · exact hs.exclusive x y hxy (hselected x hx hxa) (hselected y hy hya)

/-- **Selecting** a button by the program or by a slot keeps the groups consistent. -/
theorem Consistent.setSelected (hs : s.Consistent) (a : ℕ) (selected : Bool) :
    (s.setSelected a selected).Consistent := by
  have hlinks := sameLinks_setSelected s a selected
  cases selected with
  | false =>
      refine hlinks.consistent hs fun x hx => ?_
      rw [RadioButtons.setSelected, if_neg Bool.false_ne_true] at hx
      split at hx
      · exact hx
      · rw [isSelected_assignSelected, Bool.and_false] at hx
        split at hx
        · cases hx
        · exact hx
  | true =>
      have hselected : ∀ x, x ≠ a → (s.setSelected a true).isSelected x = true →
          s.isSelected x = true ∧ x ∉ s.linkedPeers a := by
        intro x hxa hx
        rw [RadioButtons.setSelected, if_pos rfl] at hx
        rw [← (deselectPeers_spec (s.linkedPeers a) s).2]
        split at hx
        · exact hx
        · rwa [isSelected_assignSelected, if_neg hxa] at hx
      refine hs.select hlinks (fun x hx hxa => (hselected x hxa hx).1) fun peer hpeer => ?_
      rw [Bool.eq_false_iff]
      intro hx
      exact (hselected peer (linked_ne hpeer) hx).2 (linked_iff.mp hpeer).2.2

/-! ### Linking -/

/-- The lists of buttons, when a peer has been appended. -/
theorem mem_linkedButtons_appendPeer {a other : ℕ} (ha : s.isAlive a = true) (x y : ℕ) :
    y ∈ (s.appendPeer a other).linkedButtons x ↔
      y ∈ s.linkedButtons x ∨ x = a ∧ y = other := by
  obtain ⟨button, hbutton⟩ := Option.isSome_iff_exists.mp ha
  rw [linkedButtons, linkedButtons, appendPeer, buttons_modify]
  split
  · rename_i heq
    rw [heq, hbutton, Option.map_some, Option.elim_some, Option.elim_some, List.mem_append,
      List.mem_singleton, and_iff_right rfl]
  · rename_i hne
    exact (or_iff_left fun h => hne h.1).symm

/-- Only links to buttons of a group are added. -/
structure AddsLinks (group : List ℕ) (s s' : RadioButtons) : Prop where
  constructed : s'.constructed = s.constructed
  alive : ∀ a, s'.isAlive a = s.isAlive a
  live : ∀ a, s'.isLive a = s.isLive a
  selected : ∀ a, s'.isSelected a = s.isSelected a
  links : ∀ a, ∀ peer ∈ s'.linkedButtons a, peer ∈ s.linkedButtons a ∨ peer ∈ group

variable {group : List ℕ}

theorem AddsLinks.refl (group : List ℕ) (s : RadioButtons) : AddsLinks group s s :=
  ⟨rfl, fun _ => rfl, fun _ => rfl, fun _ => rfl, fun _ _ => Or.inl⟩

theorem AddsLinks.trans (h : AddsLinks group s s') (h' : AddsLinks group s' s'') :
    AddsLinks group s s'' where
  constructed := h'.constructed.trans h.constructed
  alive a := (h'.alive a).trans (h.alive a)
  live a := (h'.live a).trans (h.live a)
  selected a := (h'.selected a).trans (h.selected a)
  links a peer hpeer := (h'.links a peer hpeer).elim (h.links a peer) Or.inr

/-- Appending a peer adds a link. -/
theorem addsLinks_appendPeer {a other : ℕ} (ha : s.isAlive a = true) (hother : other ∈ group) :
    AddsLinks group s (s.appendPeer a other) where
  constructed := rfl
  alive := isAlive_modify s a _
  live := isLive_modify (f := fun button =>
    { button with linkedButtons := button.linkedButtons ++ [other] }) (fun _ => rfl) s a
  selected := isSelected_modify (f := fun button =>
    { button with linkedButtons := button.linkedButtons ++ [other] }) (fun _ => rfl) s a
  links x y hy :=
    ((mem_linkedButtons_appendPeer ha x y).mp hy).imp_right fun (h : x = a ∧ y = other) =>
      h.2 ▸ hother

/-- **Linking two buttons**: `other` becomes a peer, and nothing else changes. -/
theorem addLinkedPeer_spec {s : RadioButtons} {a other : ℕ} (ha : s.isAlive a = true)
    (hother : other ∈ group) :
    AddsLinks group s (s.addLinkedPeer a other) ∧
      ∀ x y, (s.addLinkedPeer a other).linked x y ↔ s.linked x y ∨
        (x = a ∧ y = other) ∧ y ≠ x ∧ s.isLive x = true ∧ s.isLive y = true := by
  rw [addLinkedPeer]
  split
  · rename_i hlinked
    refine ⟨.refl group s, fun x y => (or_iff_left_of_imp ?_).symm⟩
    rintro ⟨⟨rfl, rfl⟩, hne, hlive, hlive'⟩
    exact ⟨hlive, hlive', hlinked.resolve_left hne⟩
  · have hadds := addsLinks_appendPeer ha hother
    refine ⟨hadds, fun x y => ?_⟩
    rw [linked, linked, isLinkedTo_iff, isLinkedTo_iff, hadds.live, hadds.live,
      mem_linkedButtons_appendPeer ha]
    tauto

/-- **The loop over the right-hand sides** for one left-hand side. -/
theorem linkButtons_inner {lhs : ℕ} {rest : List ℕ} (hrest : ∀ rhs ∈ rest, rhs ∈ group)
    {s : RadioButtons} (hlhs : s.isAlive lhs = true) :
    AddsLinks group s
        (rest.foldl (fun s rhs => if lhs ≠ rhs then s.addLinkedPeer lhs rhs else s) s) ∧
      ∀ x y, (rest.foldl (fun s rhs =>
          if lhs ≠ rhs then s.addLinkedPeer lhs rhs else s) s).linked x y ↔
        s.linked x y ∨ (x = lhs ∧ y ∈ rest) ∧ y ≠ x ∧ s.isLive x = true ∧ s.isLive y = true := by
  induction rest generalizing s with
  | nil =>
      refine ⟨.refl group s, fun x y => (or_iff_left fun h => ?_).symm⟩
      exact List.not_mem_nil h.1.2
  | cons rhs rest ih =>
      have hrest' := fun x hx => hrest x (List.mem_cons_of_mem _ hx)
      rw [List.foldl_cons]
      split
      · obtain ⟨hadds, hlinked⟩ := addLinkedPeer_spec hlhs (hrest rhs List.mem_cons_self)
        obtain ⟨hadds', hlinked'⟩ := ih hrest' ((hadds.alive lhs).trans hlhs)
        refine ⟨hadds.trans hadds', fun x y => ?_⟩
        rw [hlinked', hlinked, hadds.live, hadds.live, List.mem_cons]
        tauto
      · rename_i heq
        obtain ⟨hadds, hlinked⟩ := ih hrest' hlhs
        refine ⟨hadds, fun x y => ?_⟩
        rw [hlinked, List.mem_cons]
        have hsame : x = lhs → y = rhs → y = x := by
          rintro rfl rfl
          exact (not_not.mp heq).symm
        tauto

/-- **The loop over the left-hand sides**. -/
theorem linkButtons_outer {rest : List ℕ} {s : RadioButtons}
    (halive : ∀ a ∈ rest, s.isAlive a = true) :
    AddsLinks group s (rest.foldl (fun s lhs =>
        group.foldl (fun s rhs => if lhs ≠ rhs then s.addLinkedPeer lhs rhs else s) s) s) ∧
      ∀ x y, (rest.foldl (fun s lhs => group.foldl (fun s rhs =>
          if lhs ≠ rhs then s.addLinkedPeer lhs rhs else s) s) s).linked x y ↔
        s.linked x y ∨
          (x ∈ rest ∧ y ∈ group) ∧ y ≠ x ∧ s.isLive x = true ∧ s.isLive y = true := by
  induction rest generalizing s with
  | nil =>
      refine ⟨.refl group s, fun x y => (or_iff_left fun h => ?_).symm⟩
      exact List.not_mem_nil h.1.1
  | cons lhs rest ih =>
      rw [List.foldl_cons]
      obtain ⟨hadds, hlinked⟩ :=
        linkButtons_inner (fun _ => id) (halive lhs List.mem_cons_self)
      obtain ⟨hadds', hlinked'⟩ := ih fun a ha =>
        (hadds.alive a).trans (halive a (List.mem_cons_of_mem _ ha))
      refine ⟨hadds.trans hadds', fun x y => ?_⟩
      rw [hlinked', hlinked, hadds.live, hadds.live, List.mem_cons]
      tauto

/-- **The loops of `link`** join a group. -/
theorem linked_linkButtons (halive : ∀ a ∈ group, s.isAlive a = true) :
    (s.linkButtons group).linked = join s.linked {x | x ∈ group ∧ s.isLive x = true} := by
  funext x y
  rw [linkButtons, (linkButtons_outer halive).2 x y, join, Set.mem_ofPred_eq,
    Set.mem_ofPred_eq, eq_iff_iff]
  tauto

/-- What is left selected of a group by the loop that deselects the rest of it. -/
structure LeavesOne (group : List ℕ) (found : Bool) (s s' : RadioButtons) : Prop where
  links : SameLinks s s'
  selected : ∀ x, s'.isSelected x = true → s.isSelected x = true
  rest : found = true → ∀ x ∈ group, s'.isSelected x = false
  one : ∀ x ∈ group, ∀ y ∈ group, x ≠ y → s'.isSelected x = true → s'.isSelected y = false

/-- **The loop that deselects** the rest of a group leaves one button selected at most. -/
theorem leavesOne_deselectRest (group : List ℕ) (found : Bool) (s : RadioButtons) :
    LeavesOne group found s (deselectRest group found s) := by
  induction group generalizing found s with
  | nil => exact ⟨.refl s, fun _ => id, fun _ x hx => absurd hx List.not_mem_nil,
      fun x hx => absurd hx List.not_mem_nil⟩
  | cons button group ih =>
      rw [deselectRest]
      split
      · split
        · -- the button is deselected, as one before it is selected
          have h := ih true (s.assignSelected button false)
          have hselected : ∀ x, (deselectRest group true
              (s.assignSelected button false)).isSelected x = true →
                x ≠ button ∧ s.isSelected x = true := by
            intro x hx
            have hx := h.selected x hx
            rw [isSelected_assignSelected, Bool.and_false] at hx
            split at hx
            · cases hx
            · exact ⟨‹_›, hx⟩
          have hrest : ∀ x ∈ button :: group, (deselectRest group true
              (s.assignSelected button false)).isSelected x = false := by
            intro x hx
            rcases List.mem_cons.mp hx with rfl | hx
            · exact Bool.eq_false_iff.mpr fun hx => (hselected _ hx).1 rfl
            · exact h.rest rfl x hx
          exact ⟨(sameLinks_assignSelected s button false).trans h.links,
            fun x hx => (hselected x hx).2, fun _ => hrest, fun _ _ y hy _ _ => hrest y hy⟩
        · -- the button is the first that is selected
          rename_i hfound
          have h := ih true s
          refine ⟨h.links, h.selected, fun htrue => absurd htrue hfound, ?_⟩
          intro x hx y hy hne hselected
          rcases List.mem_cons.mp hx with rfl | hx
          · exact h.rest rfl y ((List.mem_cons.mp hy).resolve_left hne.symm)
          · exact absurd ((h.rest rfl x hx).symm.trans hselected) Bool.false_ne_true
      · rename_i hnot
        have h := ih found s
        have hbutton : (deselectRest group found s).isSelected button = false :=
          Bool.eq_false_iff.mpr fun hx => hnot (h.selected button hx)
        refine ⟨h.links, h.selected, fun hfound x hx => ?_, fun x hx y hy hne hselected => ?_⟩
        · rcases List.mem_cons.mp hx with rfl | hx
          · exact hbutton
          · exact h.rest hfound x hx
        · rcases List.mem_cons.mp hy with rfl | hy
          · exact hbutton
          rcases List.mem_cons.mp hx with rfl | hx
          · exact absurd (hbutton.symm.trans hselected) Bool.false_ne_true
          · exact h.one x hx y hy hne hselected

/-! ### The group of a link -/

/-- A button is put into a group once. -/
theorem mem_pushButton {l : List ℕ} {a x : ℕ} : x ∈ pushButton l a ↔ x ∈ l ∨ x = a := by
  rw [pushButton]
  split
  · rename_i hmem
    rw [List.contains_iff_mem] at hmem
    exact (or_iff_left_of_imp fun heq => heq ▸ hmem).symm
  · rw [List.mem_append, List.mem_singleton]

/-- Buttons that are put into a group. -/
theorem mem_foldl_pushButton {peers l : List ℕ} {x : ℕ} :
    x ∈ peers.foldl pushButton l ↔ x ∈ l ∨ x ∈ peers := by
  induction peers generalizing l with
  | nil => exact (or_iff_left List.not_mem_nil).symm
  | cons peer peers ih => rw [List.foldl_cons, ih, mem_pushButton, List.mem_cons, or_assoc]

/-- The group of two buttons. -/
theorem mem_linkedGroup {a other x : ℕ} : x ∈ s.linkedGroup a other ↔
    x = a ∨ x ∈ s.linkedPeers a ∨ x = other ∨ x ∈ s.linkedPeers other := by
  rw [linkedGroup, mem_foldl_pushButton, mem_pushButton, mem_foldl_pushButton,
    List.mem_singleton, or_assoc, or_assoc]

/-- The buttons of a group are alive. -/
theorem linkedGroup_alive {a other : ℕ} (ha : s.isAlive a = true)
    (hother : s.isAlive other = true) : ∀ x ∈ s.linkedGroup a other, s.isAlive x = true := by
  intro x hx
  rcases mem_linkedGroup.mp hx with rfl | hpeer | rfl | hpeer
  · exact ha
  · exact isLive_isAlive (mem_linkedPeers.mp hpeer).2
  · exact hother
  · exact isLive_isAlive (mem_linkedPeers.mp hpeer).2

/-- What is linked with a peer of a button is the button or a peer of it. -/
theorem Consistent.peer_of_linked (hs : s.Consistent) {c x y : ℕ} (hc : s.isLive c = true)
    (hx : x = c ∨ x ∈ s.linkedPeers c) (hxy : s.linked x y) : y = c ∨ y ∈ s.linkedPeers c := by
  by_cases hxc : x = c
  · exact Or.inr (linked_iff.mp (hxc ▸ hxy)).2.2
  by_cases hyc : y = c
  · exact Or.inl hyc
  have hcx : s.linked c x := linked_iff.mpr ⟨hc, hxc, hx.resolve_left hxc⟩
  exact Or.inr (linked_iff.mp (hs.groups.trans hcx hxy (Ne.symm hyc))).2.2

/-- **Two buttons that are not marked** join their groups. -/
theorem Consistent.joinable (hs : s.Consistent) {a other : ℕ} (ha : s.isLive a = true)
    (hother : s.isLive other = true) :
    Joinable s.linked {x | x ∈ s.linkedGroup a other ∧ s.isLive x = true} := by
  refine joinable_of_closed fun x hx y hxy => ⟨?_, hxy.2.1⟩
  have hmem := mem_linkedGroup.mp hx.1
  rw [← or_assoc] at hmem
  refine mem_linkedGroup.mpr (or_assoc.mp ?_)
  exact hmem.imp (fun h => hs.peer_of_linked ha h hxy) fun h => hs.peer_of_linked hother h hxy

/-- **What `link` makes of the links**: it joins the group of the two buttons. -/
theorem linked_link {a other : ℕ} (ha : s.isAlive a = true) (hother : s.isAlive other = true)
    (hne : other ≠ a) : (s.link a other).linked =
      join s.linked {x | x ∈ s.linkedGroup a other ∧ s.isLive x = true} := by
  rw [link, if_neg hne, (leavesOne_deselectRest _ _ _).links.linked]
  exact linked_linkButtons (linkedGroup_alive ha hother)

/-- **Linking** keeps the groups consistent exactly when it cuts off no part of a group. -/
theorem Consistent.link_iff (hs : s.Consistent) {a other : ℕ} (ha : s.isAlive a = true)
    (hother : s.isAlive other = true) (hne : other ≠ a) : (s.link a other).Consistent ↔
      Joinable s.linked {x | x ∈ s.linkedGroup a other ∧ s.isLive x = true} := by
  have hlinked := linked_link ha hother hne
  rw [← groups_join_iff hs.groups, ← hlinked]
  refine ⟨fun h => h.groups, fun hgroups => ⟨hgroups, ?_⟩⟩
  have hadds : AddsLinks (s.linkedGroup a other) s (s.linkButtons (s.linkedGroup a other)) :=
    (linkButtons_outer (linkedGroup_alive ha hother)).1
  have hleaves := leavesOne_deselectRest (s.linkedGroup a other) false
    (s.linkButtons (s.linkedGroup a other))
  have hlink : s.link a other = deselectRest (s.linkedGroup a other) false
      (s.linkButtons (s.linkedGroup a other)) := if_neg hne
  rw [hlinked]
  rw [← hlink] at hleaves
  refine Exclusive.join (hs.exclusive.mono fun x hx => ?_) ?_
  · exact (hadds.selected x).symm.trans (hleaves.selected x hx)
  · rintro x ⟨hx, -⟩ y ⟨hy, -⟩ hxy hselected hselected'
    exact absurd ((hleaves.one x hx y hy hxy hselected).symm.trans hselected') Bool.false_ne_true

/-- Linking keeps later buttons out. -/
theorem Fresh.link (hs : s.Fresh) {a other : ℕ} (ha : s.isAlive a = true)
    (hother : s.isAlive other = true) : (s.link a other).Fresh := by
  rw [RadioButtons.link]
  split
  · exact hs
  have halive := linkedGroup_alive ha hother
  have hadds : AddsLinks (s.linkedGroup a other) s (s.linkButtons (s.linkedGroup a other)) :=
    (linkButtons_outer halive).1
  refine (leavesOne_deselectRest _ _ _).links.fresh ⟨fun x hx => ?_, fun x peer hpeer => ?_⟩
  · rw [hadds.constructed]
    exact hs.alive x (hadds.alive x ▸ hx)
  · rw [hadds.constructed]
    rcases hadds.links x peer hpeer with hold | hnew
    · exact hs.links x peer hold
    · exact hs.alive peer (halive peer hnew)

/-! ### Constructing and destroying -/

/-- A button is constructed. -/
theorem buttons_construct (s : RadioButtons) (x : ℕ) : s.construct.buttons x =
    if x = s.constructed then some {} else s.buttons x := Function.update_apply ..

/-- A new button has no links. -/
theorem linkedButtons_construct (s : RadioButtons) (x : ℕ) :
    s.construct.linkedButtons x = if x = s.constructed then [] else s.linkedButtons x := by
  rw [linkedButtons, buttons_construct]
  split <;> rfl

/-- The other buttons live as before. -/
theorem isLive_construct {x : ℕ} (hx : x ≠ s.constructed) :
    s.construct.isLive x = s.isLive x := by
  rw [isLive, buttons_construct, if_neg hx, isLive]

/-- A new button is not selected. -/
theorem isSelected_construct {x : ℕ} (hx : s.construct.isSelected x = true) :
    s.isSelected x = true := by
  rw [isSelected, buttons_construct] at hx
  split at hx
  · cases hx
  · exact hx

/-- The button that is constructed has no links, and there are none to it. -/
theorem linked_construct (hs : s.Fresh) : s.construct.linked = s.linked := by
  funext x y
  rw [linked, linked, isLinkedTo_iff, isLinkedTo_iff, linkedButtons_construct, eq_iff_iff]
  have hold {z : ℕ} (hz : s.isLive z = true) : z ≠ s.constructed :=
    (hs.alive z (isLive_isAlive hz)).ne
  split
  · rename_i hx
    exact iff_of_false (fun h => List.not_mem_nil h.2.2.2.1) fun h => hold h.1 hx
  · rename_i hx
    rw [isLive_construct hx]
    constructor
    · rintro ⟨hlive, hlive', hne, hmem, -⟩
      rw [isLive_construct (hs.links x y hmem).ne] at hlive'
      exact ⟨hlive, hlive', hne, hmem, hlive'⟩
    · rintro ⟨hlive, hlive', hne, hmem, -⟩
      rw [isLive_construct (hold hlive')]
      exact ⟨hlive, hlive', hne, hmem, hlive'⟩

/-- A new button keeps groups consistent. -/
theorem Consistent.construct (hs : s.Consistent) (hfresh : s.Fresh) :
    s.construct.Consistent where
  groups := linked_construct hfresh ▸ hs.groups
  exclusive := by
    rw [linked_construct hfresh]
    exact hs.exclusive.mono fun x hx => isSelected_construct hx

/-- The next button is not there yet. -/
theorem Fresh.construct (hs : s.Fresh) : s.construct.Fresh where
  alive x hx := by
    rw [isAlive, buttons_construct] at hx
    split at hx
    · rename_i heq
      exact heq ▸ Nat.lt_succ_self _
    · exact Nat.lt_succ_of_lt (hs.alive x hx)
  links x peer hpeer := by
    rw [linkedButtons_construct] at hpeer
    split at hpeer
    · cases hpeer
    · exact Nat.lt_succ_of_lt (hs.links x peer hpeer)

/-- Buttons are destroyed or marked. -/
structure Fewer (s s' : RadioButtons) : Prop where
  constructed : s'.constructed = s.constructed
  alive : ∀ a, s'.isAlive a = true → s.isAlive a = true
  live : ∀ a, s'.isLive a = true → s.isLive a = true
  selected : ∀ a, s'.isSelected a = true → s.isSelected a = true
  links : ∀ a, s'.isLive a = true → s'.linkedButtons a = s.linkedButtons a
  subset : ∀ a, s'.linkedButtons a ⊆ s.linkedButtons a

/-- Links, when some buttons are gone. -/
theorem Fewer.linked_iff (h : Fewer s s') (x y : ℕ) :
    s'.linked x y ↔ s.linked x y ∧ s'.isLive x = true ∧ s'.isLive y = true := by
  rw [linked, linked, isLinkedTo_iff, isLinkedTo_iff]
  constructor
  · rintro ⟨hx, hy, hne, hmem, -⟩
    exact ⟨⟨h.live x hx, h.live y hy, hne, h.links x hx ▸ hmem, h.live y hy⟩, hx, hy⟩
  · rintro ⟨⟨-, -, hne, hmem, -⟩, hx, hy⟩
    exact ⟨hx, hy, hne, (h.links x hx).symm ▸ hmem, hy⟩

/-- Groups stay consistent when some buttons are gone. -/
theorem Fewer.consistent (h : Fewer s s') (hs : s.Consistent) : s'.Consistent where
  groups :=
    { symm := fun hab => by
        rw [h.linked_iff] at hab ⊢
        exact ⟨hs.groups.symm hab.1, hab.2.2, hab.2.1⟩
      trans := fun hab hbc hne => by
        rw [h.linked_iff] at hab hbc ⊢
        exact ⟨hs.groups.trans hab.1 hbc.1 hne, hab.2.1, hbc.2.2⟩ }
  exclusive x y hxy hx hy :=
    hs.exclusive x y ((h.linked_iff x y).mp hxy).1 (h.selected x hx) (h.selected y hy)

/-- Later buttons stay out when some buttons are gone. -/
theorem Fewer.fresh (h : Fewer s s') (hs : s.Fresh) : s'.Fresh where
  alive a ha := h.constructed ▸ hs.alive a (h.alive a ha)
  links a peer hpeer := h.constructed ▸ hs.links a peer (h.subset a hpeer)

/-- Each button is as before, gone or marked. -/
theorem Fewer.of_buttons (hconstructed : s'.constructed = s.constructed)
    (h : ∀ a, s'.buttons a = s.buttons a ∨ s'.buttons a = none ∨ ∃ button,
      s.buttons a = some button ∧
        s'.buttons a = some { button with markedForDelete := true }) : Fewer s s' := by
  refine ⟨hconstructed, fun a => ?_, fun a => ?_, fun a => ?_, fun a => ?_, fun a => ?_⟩
  · rw [isAlive, isAlive]
    rcases h a with heq | heq | ⟨button, heq, heq'⟩
    · rw [heq]
      exact id
    · rw [heq]
      exact fun hfalse => absurd hfalse Bool.false_ne_true
    · rw [heq, heq']
      exact id
  · rw [isLive, isLive]
    rcases h a with heq | heq | ⟨button, heq, heq'⟩
    · rw [heq]
      exact id
    · rw [heq]
      exact fun hfalse => absurd hfalse Bool.false_ne_true
    · rw [heq']
      exact fun hfalse => absurd hfalse Bool.false_ne_true
  · rw [isSelected, isSelected]
    rcases h a with heq | heq | ⟨button, heq, heq'⟩
    · rw [heq]
      exact id
    · rw [heq]
      exact fun hfalse => absurd hfalse Bool.false_ne_true
    · rw [heq, heq']
      exact id
  · rw [isLive, linkedButtons, linkedButtons]
    rcases h a with heq | heq | ⟨button, heq, heq'⟩
    · rw [heq]
      exact fun _ => rfl
    · rw [heq]
      exact fun hfalse => absurd hfalse Bool.false_ne_true
    · rw [heq, heq']
      exact fun _ => rfl
  · rw [linkedButtons, linkedButtons]
    rcases h a with heq | heq | ⟨button, heq, heq'⟩
    · rw [heq]
      exact List.Subset.refl _
    · rw [heq]
      exact List.nil_subset _
    · rw [heq, heq']
      exact List.Subset.refl _

/-- A button that is destroyed is gone. -/
theorem fewer_destroy (s : RadioButtons) (a : ℕ) :
    Fewer s { s with buttons := Function.update s.buttons a none } := by
  refine .of_buttons rfl fun x => ?_
  dsimp only
  rw [Function.update_apply]
  split
  · exact Or.inr (Or.inl rfl)
  · exact Or.inl rfl

/-- A button that is marked for deletion is gone. -/
theorem fewer_deleteLater (s : RadioButtons) (a : ℕ) :
    Fewer s (s.modify a fun button => { button with markedForDelete := true }) := by
  refine .of_buttons rfl fun x => ?_
  rw [buttons_modify]
  split
  · rename_i heq
    rw [heq]
    cases s.buttons a with
    | none => exact Or.inl rfl
    | some button => exact Or.inr (Or.inr ⟨button, rfl, rfl⟩)
  · exact Or.inl rfl

/-! ### Steps -/

/-- Only the click is different. -/
theorem SameLinks.withClick (h : SameLinks s s') (click : Option RadioClick) :
    SameLinks s { s' with click := click } := ⟨h.constructed, h.alive, h.live, h.links⟩

/-- A turn of a click changes no link. -/
theorem sameLinks_deselectNext (s : RadioButtons) (c : RadioClick) :
    SameLinks s (s.deselectNext c) := by
  rw [deselectNext]
  split
  · exact .refl s
  split
  · exact (sameLinks_assignSelected s _ false).withClick _
  · exact (SameLinks.refl s).withClick _

/-- The end of a click changes no link. -/
theorem sameLinks_selectClicked (s : RadioButtons) (c : RadioClick) :
    SameLinks s (s.selectClicked c) := by
  rw [selectClicked]
  split
  · exact .refl s
  split
  · exact (SameLinks.refl s).withClick _
  · exact (sameLinks_assignSelected s c.button true).withClick _

/-- A turn of the loop deselects. -/
theorem isSelected_deselectNext {c : RadioClick} {x : ℕ}
    (hx : (s.deselectNext c).isSelected x = true) : s.isSelected x = true := by
  rw [deselectNext] at hx
  split at hx
  · exact hx
  split at hx
  · rename_i peer _ _ _
    have hx : (s.assignSelected peer false).isSelected x = true := hx
    rw [isSelected_assignSelected, Bool.and_false] at hx
    split at hx
    · cases hx
    · exact hx
  · exact hx

/-- **The clicked button** is selected, and the groups stay consistent exactly when none of its
peers is selected by then. -/
theorem Consistent.selectClicked_iff (hs : s.Consistent) {c : RadioClick} (hc : s.click = some c) :
    (s.selectClicked c).Consistent ↔ s.Keeping .select := by
  have hkeeping : s.Keeping .select ↔ (c.peers = [] → c.selected = false →
      s.isSelected c.button = false → ∀ peer, s.linked c.button peer →
        s.isSelected peer = false) :=
    ⟨fun h => h c hc, fun h c' hc' => Option.some.inj (hc.symm.trans hc') ▸ h⟩
  rw [hkeeping, selectClicked]
  split
  · rename_i hturn
    refine iff_of_true hs fun hpeers hselected => ?_
    rcases hturn with hturn | hturn
    · exact absurd hpeers hturn
    · exact absurd (hselected.symm.trans hturn) Bool.false_ne_true
  rename_i hturn
  rw [not_or, not_not, Bool.not_eq_true] at hturn
  split
  · rename_i hselected
    refine iff_of_true (((SameLinks.refl s).withClick _).consistent hs fun _ => id) ?_
    exact fun _ _ hnot => absurd (hnot.symm.trans hselected) Bool.false_ne_true
  rename_i hnot
  have hlinks := sameLinks_assignSelected s c.button true
  have hassign (x : ℕ) := isSelected_assignSelected s c.button true x
  constructor
  · intro hs' _ _ _ peer hpeer
    have halive : s.isAlive c.button = true := isLive_isAlive hpeer.1
    have hbutton : (s.assignSelected c.button true).isSelected c.button = true := by
      rw [hassign, if_pos rfl, halive]
      rfl
    have hlinked : (s.assignSelected c.button true).linked c.button peer :=
      hlinks.linked.symm ▸ hpeer
    have hnew : ¬ (s.assignSelected c.button true).isSelected peer = true :=
      hs'.exclusive c.button peer hlinked hbutton
    rwa [hassign, if_neg (linked_ne hpeer), Bool.not_eq_true] at hnew
  · intro hpeers
    have hpeers := hpeers hturn.1 hturn.2 (Bool.eq_false_iff.mpr hnot)
    have hs' : (s.assignSelected c.button true).Consistent := by
      refine hs.select hlinks (fun x hx (hne : x ≠ c.button) => ?_) fun peer hpeer => ?_
      · rwa [hassign, if_neg hne] at hx
      · rw [hassign, if_neg (linked_ne hpeer), hpeers peer hpeer]
    exact ((SameLinks.refl _).withClick _).consistent hs' fun _ => id

/-- A step keeps the numbers of the buttons apart. -/
theorem Fresh.step (hs : s.Fresh) (k : Step) : (s.step k).Fresh := by
  cases k with
  | construct =>
      rw [RadioButtons.step]
      split
      · exact hs
      · exact hs.construct
  | destroy a =>
      rw [RadioButtons.step]
      split
      · exact hs
      · exact (fewer_destroy s a).fresh hs
  | deleteLater a =>
      rw [RadioButtons.step]
      split
      · exact hs
      · exact (fewer_deleteLater s a).fresh hs
  | link a other =>
      rw [RadioButtons.step]
      split
      · exact hs
      · rename_i hpossible
        rw [not_or, not_or, Bool.not_eq_true', Bool.not_eq_false, Bool.not_eq_true',
          Bool.not_eq_false] at hpossible
        exact hs.link hpossible.2.1 hpossible.2.2
  | setSelected a selected =>
      rw [RadioButtons.step]
      split
      · exact (sameLinks_setSelected s a selected).fresh hs
      · exact hs
  | click a =>
      rw [RadioButtons.step]
      split
      · exact hs
      · exact ⟨hs.alive, hs.links⟩
  | deselect =>
      rw [RadioButtons.step]
      cases hclick : s.click with
      | none => exact hs
      | some c => exact (sameLinks_deselectNext s c).fresh hs
  | select =>
      rw [RadioButtons.step]
      cases hclick : s.click with
      | none => exact hs
      | some c => exact (sameLinks_selectClicked s c).fresh hs
  | finish =>
      rw [RadioButtons.step]
      split
      · exact ⟨hs.alive, hs.links⟩
      · exact hs

/-- A call of `link`, which may be one that is not possible or one of a button with itself. -/
theorem Consistent.step_link_iff (hs : s.Consistent) (a other : ℕ) :
    (s.step (.link a other)).Consistent ↔ s.Keeping (.link a other) := by
  rw [step, Keeping]
  split
  · rename_i himpossible
    refine iff_of_true hs fun hclick ha hother _ => ?_
    rw [hclick, ha, hother] at himpossible
    exact absurd himpossible (by decide)
  · rename_i hpossible
    rw [not_or, not_or, Bool.not_eq_true', Bool.not_eq_false, Bool.not_eq_true',
      Bool.not_eq_false] at hpossible
    obtain ⟨hclick, ha, hother⟩ := hpossible
    by_cases hne : other = a
    · rw [link, if_pos hne]
      exact iff_of_true hs fun _ _ _ hne' => absurd hne hne'
    · rw [hs.link_iff ha hother hne]
      rw [Option.not_isSome_iff_eq_none] at hclick
      exact ⟨fun h _ _ _ _ => h, fun h => h hclick ha hother hne⟩

/-- **A step** keeps the groups consistent unless it selects a clicked button next to a peer or cuts
off a part of a group. -/
theorem consistent_step_iff (hs : s.Consistent) (hfresh : s.Fresh) (k : Step) :
    (s.step k).Consistent ↔ s.Keeping k := by
  cases k with
  | construct =>
      refine iff_of_true ?_ trivial
      rw [step]
      split
      · exact hs
      · exact hs.construct hfresh
  | destroy a =>
      refine iff_of_true ?_ trivial
      rw [step]
      split
      · exact hs
      · exact (fewer_destroy s a).consistent hs
  | deleteLater a =>
      refine iff_of_true ?_ trivial
      rw [step]
      split
      · exact hs
      · exact (fewer_deleteLater s a).consistent hs
  | link a other => exact hs.step_link_iff a other
  | setSelected a selected =>
      refine iff_of_true ?_ trivial
      rw [step]
      split
      · exact hs.setSelected a selected
      · exact hs
  | click a =>
      refine iff_of_true ?_ trivial
      rw [step]
      split
      · exact hs
      · exact ((SameLinks.refl s).withClick _).consistent hs fun _ => id
  | deselect =>
      refine iff_of_true ?_ trivial
      rw [step]
      cases hclick : s.click with
      | none => exact hs
      | some c =>
          exact (sameLinks_deselectNext s c).consistent hs fun x => isSelected_deselectNext
  | select =>
      rw [step]
      cases hclick : s.click with
      | none =>
          refine iff_of_true hs fun c hc => ?_
          rw [hclick] at hc
          cases hc
      | some c => exact hs.selectClicked_iff hclick
  | finish =>
      refine iff_of_true ?_ trivial
      rw [step]
      split
      · exact ((SameLinks.refl s).withClick _).consistent hs fun _ => id
      · exact hs

/-- No buttons, no groups. -/
theorem consistent_empty : Consistent {} where
  groups := ⟨fun h => absurd h.1 Bool.false_ne_true, fun h => absurd h.1 Bool.false_ne_true⟩
  exclusive _ _ h := absurd h.1 Bool.false_ne_true

/-- In every run, later buttons stay out. -/
theorem fresh_run (steps : List Step) : (run {} steps).Fresh :=
  List.foldlRecOn steps step ⟨fun _ h => absurd h Bool.false_ne_true, fun _ _ h => absurd h
    List.not_mem_nil⟩ fun _ h k _ => h.step k

/-- **Radio groups**: in a run the links are those of groups, of which one button at most is
selected, exactly when no click selects its button next to a peer that a slot has selected, and no
link by way of a marked button cuts off a part of a group. -/
theorem radio_iff (steps : List Step) :
    (∀ before, before <+: steps → (run {} before).Consistent) ↔
      ∀ before k, before ++ [k] <+: steps → (run {} before).Keeping k := by
  have hexact : ∀ s k, Consistent s ∧ Fresh s →
      (Consistent (step s k) ∧ Fresh (step s k) ↔ Keeping s k) := by
    rintro s k ⟨hs, hfresh⟩
    rw [and_iff_left (hfresh.step k)]
    exact consistent_step_iff hs hfresh k
  refine Iff.trans ?_
    (Transition.foldl_invariant_iff hexact ⟨consistent_empty, fresh_run []⟩ steps)
  exact forall₂_congr fun before _ => (and_iff_left (fresh_run before)).symm

/-- A slot selects the button again that the click has deselected; and a button is linked by way of
a marked one, which knows a part of the group only. -/
theorem groups_broken :
    let s := run {} [.construct, .construct, .link 0 1, .setSelected 0 true, .click 1, .deselect,
      .setSelected 0 true, .select, .finish]
    let t := run {} [.construct, .construct, .construct, .construct, .link 0 1, .deleteLater 0,
      .link 1 2, .link 0 3]
    (s.click = none ∧ s.isLinkedTo 0 1 = true ∧ s.isSelected 0 = true ∧ s.isSelected 1 = true ∧
        ¬ s.Consistent) ∧
      t.click = none ∧ t.isLinkedTo 2 1 = true ∧ t.isLinkedTo 1 3 = true ∧
        t.isLinkedTo 2 3 = false ∧ ¬ t.Consistent := by
  refine ⟨⟨by decide, by decide, by decide, by decide, fun h => ?_⟩,
    by decide, by decide, by decide, by decide, fun h => ?_⟩
  · exact h.exclusive 0 1 ⟨by decide, by decide, by decide⟩ (by decide) (by decide)
  · have hlinked := h.groups.trans (a := 2) (b := 1) (c := 3) ⟨by decide, by decide, by decide⟩
      ⟨by decide, by decide, by decide⟩ (by decide)
    exact absurd hlinked.2.2 (by decide)

end RadioButtons

end SimplyNode
