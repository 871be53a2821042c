import SimplyNode.Forest

/-!
# What the Tree Operations Do

One lemma for each of `addChild`, `setParent` and `Node::Node` that gives the state after the
call, and what it means for the links: the node is `Attached` under its new parent. The
heaps involved are named and linked before and after, and none of the calls fails on live
nodes.

## Main results

* `addChild_root`: a root is added under any live node.
* `setParent_some`, `setParent_none`: a node changes its parent or becomes a root.
* `construct_child`, `construct_root`: a new node.
-/

namespace SimplyNode

namespace Heap

variable (h : Heap)

/-- The child gets the parent and leaves the root list; the parent lists it. -/
def adopt (p c : Addr) : Heap :=
  (h.modifyNode c fun n => { n with parent := some p, isRoot := false }).modifyNode p fun n =>
    { n with children := n.children.pushBack c }

/-- The former parent drops the child. -/
def disown (q a : Addr) : Heap :=
  h.modifyNode q fun n => { n with children := n.children.eraseFirst a }

/-- The node has no parent and is a root. -/
def enroot (a : Addr) : Heap :=
  h.modifyNode a fun n => { n with parent := none, isRoot := true }

variable {h} {a c p q x : Addr}

/-- A new child changes no node but its parent's list and its own parent. -/
theorem sameNodes_adopt : SameNodes h (h.adopt p c) :=
  have hc : SameNodes h (h.modifyNode c fun n => { n with parent := some p, isRoot := false }) :=
    .modifyNode h c (fun _ => rfl) fun _ => rfl
  hc.trans (.modifyNode _ p (fun _ => rfl) fun _ => rfl)

/-- A child that is taken out changes a list only. -/
theorem sameNodes_disown : SameNodes h (h.disown q a) :=
  .modifyNode h q (fun _ => rfl) fun _ => rfl

/-- A new root changes its own parent only. -/
theorem sameNodes_enroot : SameNodes h (h.enroot a) :=
  .modifyNode h a (fun _ => rfl) fun _ => rfl

/-- A change that keeps the children vector keeps the children. -/
theorem childrenOf_modifyNode (f : Node → Node) (x : Addr)
    (hf : ∀ n, (f n).children = n.children) :
    (h.modifyNode a f).childrenOf x = h.childrenOf x := by
  by_cases hx : x = a
  · subst hx
    cases hm : h.mem x <;> simp [childrenOf, hm, hf]
  · exact childrenOf_modifyNode_of_ne f hx

/-- A change that keeps the parent pointer keeps the parent. -/
theorem parentOf_modifyNode (f : Node → Node) (x : Addr)
    (hf : ∀ n, (f n).parent = n.parent) :
    (h.modifyNode a f).parentOf x = h.parentOf x := by
  by_cases hx : x = a
  · subst hx
    cases hm : h.mem x <;> simp [parentOf, hm, hf]
  · rw [parentOf, mem_modifyNode_of_ne _ _ hx, parentOf]

/-- A change that keeps the root flag keeps the roots. -/
theorem isRoot_modifyNode (f : Node → Node) (x : Addr)
    (hf : ∀ n, (f n).isRoot = n.isRoot) :
    (h.modifyNode a f).isRoot x = h.isRoot x := by
  by_cases hx : x = a
  · subst hx
    cases hm : h.mem x <;> simp [isRoot, hm, hf]
  · rw [isRoot, mem_modifyNode_of_ne _ _ hx, isRoot]

/-- The children when a node gets a child. -/
theorem childrenOf_adopt (hp : h.Live p) (x : Addr) :
    (h.adopt p c).childrenOf x = h.childrenOf x ++ if some p = some x then [c] else [] := by
  have hkeep := fun y => childrenOf_modifyNode (h := h) (a := c)
    (fun n => { n with parent := some p, isRoot := false }) y fun _ => rfl
  by_cases hx : x = p
  · subst hx
    have hp' : (h.modifyNode c fun n => { n with parent := some x, isRoot := false }).Live x :=
      (live_modifyNode _ x).mpr hp
    obtain ⟨n, hn⟩ := Option.isSome_iff_exists.mp hp'
    rw [← hkeep x, childrenOf_of_mem hn, if_pos rfl, adopt, childrenOf, mem_modifyNode_self, hn]
    exact SlotVector.live_pushBack ..
  · have hne : some p ≠ some x := fun he => hx (Option.some.inj he).symm
    rw [adopt, childrenOf_modifyNode_of_ne _ hx, hkeep, if_neg hne, List.append_nil]

/-- The parents when a node gets a child. -/
theorem parentOf_adopt (hc : h.Live c) (x : Addr) :
    (h.adopt p c).parentOf x = if x = c then some p else h.parentOf x := by
  refine Eq.trans (parentOf_modifyNode _ x fun _ => rfl) ?_
  rw [parentOf, mem_modifyNode]
  split <;> rename_i hx
  · obtain ⟨n, hn⟩ := Option.isSome_iff_exists.mp hc
    simp [hn]
  · rfl

/-- The roots when a node gets a child. -/
theorem isRoot_adopt (x : Addr) :
    (h.adopt p c).isRoot x = if x = c then false else h.isRoot x := by
  refine Eq.trans (isRoot_modifyNode _ x fun _ => rfl) ?_
  rw [isRoot, mem_modifyNode]
  split <;> rename_i hx
  · cases h.mem c <;> rfl
  · rfl

/-- The children when a node loses a child. -/
theorem childrenOf_disown (hl : h.Linked) (hq : h.parentOf a = some q) (x : Addr) :
    (h.disown q a).childrenOf x = (h.childrenOf x).filter (· ≠ a) := by
  by_cases hx : x = q
  · subst hx
    obtain ⟨n, hn⟩ := Option.isSome_iff_exists.mp (hl.live_parent hq)
    have hnd := hl.nodup x
    rw [childrenOf_of_mem hn] at hnd ⊢
    rw [disown, childrenOf, mem_modifyNode_self, hn]
    refine (hnd.erase_eq_filter a).trans (List.filter_congr fun c _ => ?_)
    by_cases hc : c = a <;> simp [hc]
  · rw [disown, childrenOf_modifyNode_of_ne _ hx]
    refine (List.filter_eq_self.mpr fun c hc => ?_).symm
    have hca : c ≠ a := by
      rintro rfl
      rw [hl.mem_childrenOf, hq] at hc
      exact hx (Option.some.inj hc).symm
    simpa using hca

/-- The parents when a node becomes a root. -/
theorem parentOf_enroot (x : Addr) :
    (h.enroot a).parentOf x = if x = a then none else h.parentOf x := by
  rw [enroot, parentOf, mem_modifyNode]
  split <;> rename_i hx
  · cases h.mem a <;> rfl
  · rfl

/-- The roots when a node becomes a root. -/
theorem isRoot_enroot (ha : h.Live a) (x : Addr) :
    (h.enroot a).isRoot x = if x = a then true else h.isRoot x := by
  rw [enroot, isRoot, mem_modifyNode]
  split <;> rename_i hx
  · obtain ⟨n, hn⟩ := Option.isSome_iff_exists.mp ha
    simp [hn]
  · rfl

/-- A root goes under a live node. -/
theorem attached_adopt (hl : h.Linked) (hp : h.Live p) (hr : h.isRoot c = true) :
    Attached h (h.adopt p c) c (some p) where
  childrenOf x := by
    have hc : c ∉ h.childrenOf x := by
      rw [hl.mem_childrenOf, (hl.isRoot_iff c (live_of_isRoot hr)).mp hr]
      simp
    have hself : (h.childrenOf x).filter (· ≠ c) = h.childrenOf x :=
      List.filter_eq_self.mpr fun d hd => by simpa using ne_of_mem_of_not_mem hd hc
    rw [childrenOf_adopt hp, hself]
  parentOf x := parentOf_adopt (live_of_isRoot hr) x
  isRoot x := isRoot_adopt x
  live x := by
    rw [SameNodes.live sameNodes_adopt]
    refine ⟨Or.inr, ?_⟩
    rintro (rfl | hx)
    · exact live_of_isRoot hr
    · exact hx

/-- The heap after a node has left its parent, if it has one. -/
def leave (h : Heap) (a : Addr) : Heap :=
  match h.parentOf a with
  | some q => h.disown q a
  | none => h

/-- A node that leaves its parent changes a list only. -/
theorem sameNodes_leave : SameNodes h (h.leave a) := by
  rw [leave]
  split
  · exact sameNodes_disown
  · exact .refl h

/-- The children when a node leaves its parent. -/
theorem childrenOf_leave (hl : h.Linked) (x : Addr) :
    (h.leave a).childrenOf x = (h.childrenOf x).filter (· ≠ a) := by
  rw [leave]
  split <;> rename_i hp
  · exact childrenOf_disown hl hp x
  · refine (List.filter_eq_self.mpr fun c hc => ?_).symm
    have hca : c ≠ a := by
      rintro rfl
      rw [hl.mem_childrenOf, hp] at hc
      exact absurd hc (by simp)
    simpa using hca

/-- A node that leaves its parent still names it. -/
@[simp] theorem parentOf_leave (x : Addr) : (h.leave a).parentOf x = h.parentOf x := by
  rw [leave]
  split
  · exact parentOf_modifyNode _ x fun _ => rfl
  · rfl

/-- A node that leaves its parent is a root as before. -/
@[simp] theorem isRoot_leave (x : Addr) : (h.leave a).isRoot x = h.isRoot x := by
  rw [leave]
  split
  · exact isRoot_modifyNode _ x fun _ => rfl
  · rfl

/-- A node leaves its parent or the root list for another parent. -/
theorem attached_leave_adopt (hl : h.Linked) (hp : h.Live p) (ha : h.Live a) :
    Attached h ((h.leave a).adopt p a) a (some p) where
  childrenOf x := by
    rw [childrenOf_adopt ((SameNodes.live sameNodes_leave p).mpr hp), childrenOf_leave hl]
  parentOf x := by
    rw [parentOf_adopt ((SameNodes.live sameNodes_leave a).mpr ha), parentOf_leave]
  isRoot x := by
    rw [isRoot_adopt, isRoot_leave]
    rfl
  live x := by
    rw [(SameNodes.trans sameNodes_leave sameNodes_adopt).live]
    refine ⟨Or.inr, ?_⟩
    rintro (rfl | hx)
    · exact ha
    · exact hx

/-- A node leaves its parent and becomes a root. -/
theorem attached_leave_enroot (hl : h.Linked) (ha : h.Live a) :
    Attached h ((h.leave a).enroot a) a none where
  childrenOf x := by
    refine Eq.trans (childrenOf_modifyNode _ x fun _ => rfl) ((childrenOf_leave hl x).trans ?_)
    simp
  parentOf x := by rw [parentOf_enroot, parentOf_leave]
  isRoot x := by
    rw [isRoot_enroot ((SameNodes.live sameNodes_leave a).mpr ha), isRoot_leave]
    rfl
  live x := by
    rw [(SameNodes.trans sameNodes_leave sameNodes_enroot).live]
    refine ⟨Or.inr, ?_⟩
    rintro (rfl | hx)
    · exact ha
    · exact hx

end Heap

namespace World

variable {w : World} {a c p x : Addr}

/-! ### `addChild` and `setParent` -/

/-- Two changes of a record. -/
theorem modifyNode_congr {h : Heap} {k : Node} {f g : Node → Node} (hk : h.mem a = some k)
    (hfg : f k = g k) : h.modifyNode a f = h.modifyNode a g := by
  simp [Heap.modifyNode, hk, hfg]

/-- A live node is added to a live node; if it was a root, it leaves its owner's root
list. -/
theorem addChild_eq (hp : w.heap.Live p) (hc : w.heap.Live c) :
    w.addChild p c = .ok ((w.withHeap (w.heap.adopt p c)).withExecs
      (if w.heap.isRoot c then w.execs.removeRootFrom (w.heap.ownerOf c) c
        else w.execs)) := by
  obtain ⟨k, hk⟩ := Option.isSome_iff_exists.mp hc
  have hown : w.heap.ownerOf c = w.heap.ownerExecutor k := Heap.ownerOf_of_mem hk
  have hroot : w.heap.isRoot c = k.isRoot := by simp [Heap.isRoot, hk]
  rw [addChild]
  rw [Heap.node_of_mem hk, hown, hroot]
  simp only [Outcome.ok_bind]
  cases hr : k.isRoot with
  | true =>
      have hp' : (w.heap.modifyNode c fun n => { n with isRoot := false }).Live p :=
        (Heap.live_modifyNode _ p).mpr hp
      obtain ⟨q, hq⟩ := Option.isSome_iff_exists.mp hp'
      simp only [if_true, heap_withExecs, heap_modifyNode, Heap.node_of_mem hq,
        Outcome.ok_bind, Heap.adopt]
      refine congrArg Except.ok (World.ext ?_ rfl rfl)
      simp only [heap_modifyNode, heap_withExecs, heap_withHeap, Heap.modifyNode_modifyNode]
      rfl
  | false =>
      obtain ⟨q, hq⟩ := Option.isSome_iff_exists.mp hp
      simp only [if_neg Bool.false_ne_true, Heap.node_of_mem hq, Outcome.ok_bind]
      refine congrArg Except.ok (World.ext ?_ rfl rfl)
      have hkeep := modifyNode_congr (f := fun n => { n with parent := some p })
        (g := fun n => { n with parent := some p, isRoot := false }) hk (by simp [hr])
      simp only [heap_modifyNode, heap_withExecs, heap_withHeap, Heap.adopt, hkeep]

/-- The world after a node has left its parent, or the root list of its owner. -/
def leave (w : World) (a : Addr) : World where
  heap := w.heap.leave a
  execs := if w.heap.parentOf a = none then w.execs.removeRootFrom (w.heap.ownerOf a) a
    else w.execs
  now := w.now

/-- The first half of `setParent` does not fail. -/
theorem leaveParent_eq {k : Node} (hl : w.heap.Linked) (hk : w.heap.mem a = some k) :
    w.leaveParent a k = .ok (w.leave a) := by
  have hown : w.heap.ownerOf a = w.heap.ownerExecutor k := Heap.ownerOf_of_mem hk
  have hpar : w.heap.parentOf a = k.parent := by simp [Heap.parentOf, hk]
  rw [leaveParent, leave, Heap.leave]
  rw [hown]
  cases hkp : k.parent with
  | none =>
      rw [hkp] at hpar
      simp only [hpar, if_true]
      rfl
  | some q =>
      rw [hkp] at hpar
      obtain ⟨m, hm⟩ := Option.isSome_iff_exists.mp (hl.live_parent hpar)
      simp only [hpar, Heap.node_of_mem hm, Outcome.ok_bind, reduceCtorEq, if_false]
      rfl

/-- A live node becomes a root. -/
theorem setParent_none (hl : w.heap.Linked) (ha : w.heap.Live a) :
    w.setParent a none = .ok (((w.leave a).withHeap ((w.heap.leave a).enroot a)).withExecs
      ((w.leave a).execs.addRootTo (w.heap.ownerOf a) a)) := by
  obtain ⟨k, hk⟩ := Option.isSome_iff_exists.mp ha
  have hown : w.heap.ownerOf a = w.heap.ownerExecutor k := Heap.ownerOf_of_mem hk
  rw [setParent]
  rw [Heap.node_of_mem hk, hown]
  simp only [Outcome.ok_bind]
  rw [leaveParent_eq hl hk]
  rfl

/-- A live node changes its parent. -/
theorem setParent_some (hl : w.heap.Linked) (ha : w.heap.Live a) (hp : w.heap.Live p) :
    w.setParent a (some p) = .ok ((w.leave a).withHeap ((w.heap.leave a).adopt p a)) := by
  obtain ⟨k, hk⟩ := Option.isSome_iff_exists.mp ha
  rw [setParent]
  rw [Heap.node_of_mem hk]
  simp only [Outcome.ok_bind]
  rw [leaveParent_eq hl hk]
  simp only [Outcome.ok_bind]
  set v := (w.leave a).modifyNode a fun m => { m with isRoot := false } with hv
  have hs : Heap.SameNodes w.heap v.heap :=
    Heap.SameNodes.trans Heap.sameNodes_leave (.modifyNode _ a (fun _ => rfl) fun _ => rfl)
  have hroot : v.heap.isRoot a = false := by
    obtain ⟨m, hm⟩ := Option.isSome_iff_exists.mp
      ((Heap.SameNodes.live Heap.sameNodes_leave a).mpr ha)
    have hm' : v.heap.mem a = some { m with isRoot := false } := by
      rw [hv, heap_modifyNode, Heap.mem_modifyNode_self]
      exact congrArg _ hm
    rw [Heap.isRoot, hm']
    rfl
  rw [addChild_eq ((hs.live p).mpr hp) ((hs.live a).mpr ha), hroot]
  refine congrArg Except.ok (World.ext ?_ rfl rfl)
  simp only [hv, heap_withExecs, heap_withHeap, heap_modifyNode, Heap.adopt,
    Heap.modifyNode_modifyNode]
  rfl

/-! ### `Node::Node` -/

end World

namespace Heap

variable {h : Heap} {a p x : Addr} {cls : NodeClass} {v : Option Addr}
  {o : Option ExecutorId}

/-- The heap with a new object: it has the next generation, a block that names its owner, and
its entries in both tables. A parent has not listed it yet. -/
def born (h : Heap) (a : Addr) (cls : NodeClass) (v : Option Addr)
    (o : Option ExecutorId) : Heap where
  mem := Function.update h.mem a
    (some { parent := v, isRoot := v.isNone, generation := h.nextGeneration, cls := cls })
  blocks := Function.update h.blocks h.nextGeneration { owner := o }
  registry := Function.update h.registry a (some h.nextGeneration)
  aliveNodes := Function.update h.aliveNodes a (some { generation := h.nextGeneration })
  nextGeneration := h.nextGeneration + 1

/-- The children vector of a parent takes the new node. -/
def listChild (h : Heap) (v : Option Addr) (a : Addr) : Heap :=
  match v with
  | some p => h.modifyNode p fun n => { n with children := n.children.pushBack a }
  | none => h

/-- The list of the parent gets the new node. -/
theorem sameNodes_listChild : SameNodes h (h.listChild v a) := by
  unfold listChild
  split
  · exact .modifyNode _ _ (fun _ => rfl) fun _ => rfl
  · exact .refl h

/-- The other objects are the same when a node is born. -/
theorem mem_born_of_ne (hx : x ≠ a) : (h.born a cls v o).mem x = h.mem x :=
  Function.update_of_ne hx ..

/-- The nodes that are alive when a node is born. -/
theorem live_born (cls : NodeClass) (x : Addr) : (h.born a cls v o).Live x ↔ x = a ∨ h.Live x := by
  by_cases hx : x = a
  · subst hx
    simp [Live, born]
  · simp [Live, mem_born_of_ne hx, hx]

/-- The generations when a node is born. -/
theorem generationOf_born (x : Addr) : (h.born a cls v o).generationOf x =
    if x = a then some h.nextGeneration else h.generationOf x := by
  split <;> rename_i hx
  · subst hx
    simp [generationOf, born]
  · simp [generationOf, mem_born_of_ne hx]

/-- The new node belongs to the given owner; the other owners stay. -/
theorem ownerOf_born (cls : NodeClass) (hn : h.Named) (x : Addr) :
    (h.born a cls v o).ownerOf x = if x = a then o else h.ownerOf x := by
  split <;> rename_i hx
  · subst hx
    simp [ownerOf, born, ownerExecutor]
  · rw [ownerOf, ownerOf, mem_born_of_ne hx]
    cases hm : h.mem x with
    | none => rfl
    | some n =>
        have hg : n.generation < h.nextGeneration :=
          hn.gen_lt x n.generation (by simp [generationOf, hm])
        simp [ownerExecutor, born, Nat.ne_of_lt hg]

/-- A new node with an owner leaves the heap named. -/
theorem Named.born (hn : h.Named) (ho : o.isSome) :
    (h.born a cls v o).Named where
  gen_lt x g hg := by
    rw [generationOf_born] at hg
    split at hg
    · obtain rfl := Option.some.inj hg
      exact Nat.lt_succ_self _
    · exact Nat.lt_succ_of_lt (hn.gen_lt x g hg)
  gen_inj x y g hx hy := by
    rw [generationOf_born] at hx hy
    split at hx <;> split at hy <;> rename_i hxa hya
    · rw [hxa, hya]
    · obtain rfl := Option.some.inj hx
      exact absurd (hn.gen_lt y _ hy) (Nat.lt_irrefl _)
    · obtain rfl := Option.some.inj hy
      exact absurd (hn.gen_lt x _ hx) (Nat.lt_irrefl _)
    · exact hn.gen_inj x y g hx hy
  registry x := by
    rw [generationOf_born, ← hn.registry]
    exact Function.update_apply ..
  aliveNodes x := by
    rw [live_born, ← hn.aliveNodes]
    by_cases hx : x = a
    · simp [Heap.born, hx]
    · simp [Heap.born, hx]
  alive x g hg := by
    rw [generationOf_born] at hg
    split at hg
    · obtain rfl := Option.some.inj hg
      simp [Heap.born]
    · have hlt := hn.gen_lt x g hg
      simp only [Heap.born, Function.update_of_ne (Nat.ne_of_lt hlt)]
      exact hn.alive x g hg
  owned x hx := by
    rw [ownerOf_born cls hn]
    split
    · exact ho
    · rename_i hxa
      exact hn.owned x (((live_born cls x).mp hx).resolve_left hxa)

/-- A new node is attached under its parent, or is a root. -/
theorem attached_born (cls : NodeClass) (hl : h.Linked) (ha : h.mem a = none)
    (hv : ∀ p, v = some p → h.Live p) :
    Attached h ((h.born a cls v o).listChild v a) a v where
  childrenOf x := by
    have hno : ∀ y, a ∉ h.childrenOf y := fun y hy => by
      have hlive := hl.live_child hy
      rw [Live, ha] at hlive
      exact absurd hlive (by simp)
    have hself : (h.childrenOf x).filter (· ≠ a) = h.childrenOf x :=
      List.filter_eq_self.mpr fun d hd => by simpa using ne_of_mem_of_not_mem hd (hno x)
    have hborn : (h.born a cls v o).childrenOf x = h.childrenOf x := by
      by_cases hx : x = a
      · subst hx
        simp [Heap.childrenOf, Heap.born, ha, SlotVector.empty]
      · simp [Heap.childrenOf, mem_born_of_ne hx]
    rw [hself]
    unfold listChild
    split
    · rename_i p
      by_cases hx : x = p
      · subst hx
        obtain ⟨n, hn⟩ := Option.isSome_iff_exists.mp ((live_born cls (v := some x)
          (o := o) x).mpr (Or.inr (hv x rfl)))
        rw [if_pos rfl, ← hborn, childrenOf_of_mem hn, Heap.childrenOf, mem_modifyNode_self, hn]
        exact SlotVector.live_pushBack ..
      · have hne : some p ≠ some x := fun he => hx (Option.some.inj he).symm
        rw [childrenOf_modifyNode_of_ne _ hx, hborn, if_neg hne, List.append_nil]
    · simpa using hborn
  parentOf x := by
    have hborn : (h.born a cls v o).parentOf x = if x = a then v else h.parentOf x := by
      split <;> rename_i hx
      · subst hx
        simp [Heap.parentOf, Heap.born]
      · simp [Heap.parentOf, mem_born_of_ne hx]
    unfold listChild
    split
    · exact Eq.trans (parentOf_modifyNode _ x fun _ => rfl) hborn
    · exact hborn
  isRoot x := by
    have hborn : (h.born a cls v o).isRoot x = if x = a then v.isNone else h.isRoot x := by
      split <;> rename_i hx
      · subst hx
        simp [Heap.isRoot, Heap.born]
      · simp [Heap.isRoot, mem_born_of_ne hx]
    unfold listChild
    split
    · exact Eq.trans (isRoot_modifyNode _ x fun _ => rfl) hborn
    · exact hborn
  live x := by
    rw [SameNodes.live sameNodes_listChild, live_born]

end Heap

namespace World

variable {w : World} {a c p : Addr} {ctx : CallContext} {cls : NodeClass}

/-- A new child of a live node: it belongs to its parent's owner. The construction fails
only when the check at its start does. -/
theorem construct_child (hn : w.heap.Named) (ha : w.heap.mem a = none) (hp : w.heap.Live p)
    (hctx : ctx.worker = false ∨ (w.heap.ownerOf p).any ctx.isCurrent) :
    w.construct ctx a cls (some p) = .ok
      { heap := (w.heap.born a cls (some p) (w.heap.ownerOf p)).listChild (some p) a
        execs := w.execs.addNodeTo (w.heap.ownerOf p) a
        now := w.now } := by
  obtain ⟨k, hk⟩ := Option.isSome_iff_exists.mp hp
  have hown : w.heap.ownerOf p = w.heap.ownerExecutor k := Heap.ownerOf_of_mem hk
  have hpa : p ≠ a := by
    rintro rfl
    rw [hk] at ha
    exact absurd ha (by simp)
  have hgen : k.generation ≠ w.heap.nextGeneration :=
    Nat.ne_of_lt (hn.gen_lt p k.generation (by simp [Heap.generationOf, hk]))
  have hallowed : w.constructionAllowed ctx (some p) = .ok true := by
    rw [hown] at hctx
    simp only [constructionAllowed, Heap.node_of_mem hk, Outcome.ok_bind, Outcome.pure_eq]
    rcases hctx with h | h
    · rw [h]
      rfl
    · rw [h, Bool.or_true]
  -- the object and its block are there before the parent is read
  set h₁ := w.heap.allocate a cls (some p) with hh₁
  have hk₁ : h₁.node p = .ok k := by
    refine Heap.node_of_mem ?_
    rw [hh₁]
    exact (Function.update_of_ne hpa _ _).trans hk
  have hown₁ : h₁.ownerExecutor k = w.heap.ownerOf p := by
    rw [hown]
    exact congrArg NodeLifetimeBlock.owner (Function.update_of_ne hgen _ _)
  set v := w.withHeap (h₁.setOwnerExecutor w.heap.nextGeneration (w.heap.ownerOf p)) with hv
  have hva : v.heap.mem a =
      some { parent := some p, generation := w.heap.nextGeneration, cls := cls } :=
    Function.update_self ..
  have hadd := addChild_eq (w := v) (p := p) (c := a) (by
    rw [Heap.Live, (Heap.node_eq_ok v.heap).mp hk₁]
    rfl) (by
    rw [Heap.Live, hva]
    rfl)
  have hroot : v.heap.isRoot a = false := by
    rw [Heap.isRoot, hva]
    rfl
  rw [hroot, if_neg Bool.false_ne_true] at hadd
  rw [construct]
  rw [hallowed, ha]
  simp only [Outcome.ok_bind, Option.isSome_none, if_neg Bool.false_ne_true, Bool.not_true,
    Outcome.pure_eq, heap_withHeap, ← hh₁, hk₁, hown₁]
  have hadd' : ((w.withHeap h₁).withHeap (h₁.setOwnerExecutor w.heap.nextGeneration
      (w.heap.ownerOf p))).addChild p a = _ := hadd
  rw [hadd']
  refine congrArg Except.ok (World.ext (Heap.ext ?_ ?_ rfl rfl rfl) rfl rfl)
  · funext x
    simp only [Heap.listChild, heap_withHeap, heap_withExecs, Heap.registerAliveNode,
      Heap.adopt, Heap.mem_modifyNode]
    have hvx : ∀ y, y ≠ a → v.heap.mem y = w.heap.mem y := fun y hy =>
      Function.update_of_ne hy ..
    rw [if_neg hpa, hvx p hpa, Heap.mem_born_of_ne hpa]
    by_cases hxa : x = a
    · subst hxa
      simp [hva, Ne.symm hpa, Heap.born]
    · rw [if_neg hxa, hvx x hxa, Heap.mem_born_of_ne hxa]
  · simp [hv, hh₁, Heap.setOwnerExecutor, Heap.modifyBlock, Heap.allocate, Heap.born,
      Heap.registerAliveNode, Heap.adopt, Heap.listChild]

/-- A new root belongs to the strand or to the event loop it is created in. -/
theorem construct_root (ha : w.heap.mem a = none)
    (hctx : ctx.worker = false ∨ ctx.strand.isSome) :
    w.construct ctx a cls none = .ok
      { heap := w.heap.born a cls none (some (newRootOwner ctx))
        execs := newRootExecs w.execs ctx a
        now := w.now } := by
  have hallowed : w.constructionAllowed ctx none = .ok true := by
    rcases hctx with h | h
    · simp [constructionAllowed, h]
    · simp [constructionAllowed, h]
  have hmem : ∀ n : Node, Function.update (Function.update w.heap.mem a (some n)) a
      (Option.map (fun n => { n with isRoot := true })
        (Function.update w.heap.mem a (some n) a)) =
      Function.update w.heap.mem a (some { n with isRoot := true }) := by simp
  rw [construct]
  rw [hallowed, ha]
  refine congrArg Except.ok (World.ext (Heap.ext ?_ ?_ rfl rfl rfl) rfl rfl)
  · exact hmem _
  · simp [Heap.setOwnerExecutor, Heap.modifyBlock, Heap.allocate, Heap.born,
      Heap.registerAliveNode]

/-! ### The arguments of calls that succeed -/

/-- `addChild` works on nodes that are alive. -/
theorem live_of_addChild {w' : World} (h : w.addChild p c = .ok w') :
    w.heap.Live p ∧ w.heap.Live c := by
  obtain ⟨k, hk, h⟩ := Outcome.bind_eq_ok.mp h
  obtain ⟨q, hq, -⟩ := Outcome.bind_eq_ok.mp h
  have hk := (Heap.node_eq_ok _).mp hk
  have hq := (Heap.node_eq_ok _).mp hq
  refine ⟨?_, by rw [Heap.Live, hk]; rfl⟩
  have hp : Heap.Live _ p := Option.isSome_iff_exists.mpr ⟨q, hq⟩
  split at hp
  · exact (Heap.live_modifyNode _ p).mp hp
  · exact hp

/-- `setParent` works on nodes that are alive. -/
theorem live_of_setParent {v : Option Addr} {w' : World} (h : w.setParent a v = .ok w') :
    w.heap.Live a ∧ ∀ p, v = some p → w.heap.Live p := by
  obtain ⟨k, hk, h⟩ := Outcome.bind_eq_ok.mp h
  obtain ⟨u, hu, h⟩ := Outcome.bind_eq_ok.mp h
  have hk := (Heap.node_eq_ok _).mp hk
  refine ⟨by rw [Heap.Live, hk]; rfl, ?_⟩
  rintro p rfl
  have hsn : Heap.SameNodes w.heap u.heap := by
    unfold leaveParent at hu
    split at hu
    · obtain ⟨q, -, hu⟩ := Outcome.bind_eq_ok.mp hu
      obtain rfl := Except.ok.inj hu
      exact .modifyNode _ _ (fun _ => rfl) fun _ => rfl
    · obtain rfl := Except.ok.inj hu
      exact .refl _
  have hp := (live_of_addChild h).1
  exact (hsn.live p).mp ((Heap.live_modifyNode _ p).mp hp)

/-- A construction that succeeds has passed the check at its start. -/
theorem construct_ok {v : Option Addr} {w' : World} (h : w.construct ctx a cls v = .ok w') :
    w.heap.mem a = none ∧ w.constructionAllowed ctx v = .ok true := by
  unfold construct at h
  cases hm : w.heap.mem a with
  | some n =>
      rw [hm] at h
      exact absurd h (by simp)
  | none =>
      rw [hm] at h
      refine ⟨rfl, ?_⟩
      obtain ⟨-, -, h⟩ := Outcome.bind_eq_ok.mp h
      obtain ⟨b, hb, h⟩ := Outcome.bind_eq_ok.mp h
      cases b with
      | true => exact hb
      | false => exact absurd h (by simp)

/-- A parent is alive, and a worker constructs children in their owner only. -/
theorem live_of_construct {w' : World} (h : w.construct ctx a cls (some p) = .ok w') :
    w.heap.Live p ∧ (ctx.worker = false ∨ (w.heap.ownerOf p).any ctx.isCurrent) := by
  obtain ⟨n, hn, hb⟩ := Outcome.bind_eq_ok.mp (construct_ok h).2
  have hm := (Heap.node_eq_ok _).mp hn
  refine ⟨Option.isSome_iff_exists.mpr ⟨n, hm⟩, ?_⟩
  have hown : w.heap.ownerOf p = w.heap.ownerExecutor n := Heap.ownerOf_of_mem hm
  have hb := Except.ok.inj hb
  rw [hown]
  simpa only [Bool.or_eq_true, Bool.not_eq_true'] using hb

/-- A worker constructs roots in a strand only. -/
theorem strand_of_construct {w' : World} (h : w.construct ctx a cls none = .ok w') :
    ctx.worker = false ∨ ctx.strand.isSome := by
  have hb := Except.ok.inj (construct_ok h).2
  simpa only [Bool.or_eq_true, Bool.not_eq_true'] using hb

/-- `delete` works on a node that is alive. -/
theorem live_of_delete {w' : World} (h : w.delete a = .ok w') : w.heap.Live a := by
  unfold delete at h
  cases hg : w.heap.nextGeneration with
  | zero =>
      rw [hg] at h
      exact absurd h (by simp [destroy])
  | succ n =>
      rw [hg] at h
      obtain ⟨k, hk, -⟩ := Outcome.bind_eq_ok.mp h
      exact Option.isSome_iff_exists.mpr ⟨k, (Heap.node_eq_ok _).mp hk⟩

end World

end SimplyNode
