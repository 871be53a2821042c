import SimplyNode.Lib.PointerForest
import SimplyNode.Removal

/-!
# What Deleting a Node Does

`World.delete` runs a destructor that edits the parent's vectors, deletes the children one
after the other, each of which edits the vectors of a parent that is itself being destroyed,
and touches the owner's lists before and after the recursion. `delete_eq` says what comes
out: the node leaves its parent or its owner's root list (`unlink`), and then every node of
its subtree is gone at once (`without`), from memory, from the registry, from the table of
alive nodes and from the executors' registrations and timers, and nothing else changes.

The subtree has to be a tree below the deleted node (`Tree`): every record in it is live and
registered, is the parent of its children, and none of these is a root. Elsewhere the heap
may be anything.
-/

open PointerForest

namespace SimplyNode

namespace Heap

variable (h : Heap)

/-- The heap without the nodes of a list: their memory is free, their blocks say dead, and
both tables have forgotten their addresses. -/
def without (S : List Addr) : Heap where
  mem x := if x ∈ S then none else h.mem x
  blocks g := if ∃ x ∈ S, h.generationOf x = some g then { h.blocks g with alive := false }
    else h.blocks g
  registry x := if x ∈ S then none else h.registry x
  aliveNodes x := if x ∈ S then none else h.aliveNodes x
  nextGeneration := h.nextGeneration

variable {h} {S T : List Addr} {x : Addr}

/-- The objects without some nodes. -/
theorem mem_without (x : Addr) : (h.without S).mem x = if x ∈ S then none else h.mem x := rfl

/-- The blocks without some nodes. -/
theorem blocks_without (g : Generation) :
    (h.without S).blocks g =
      if ∃ x ∈ S, h.generationOf x = some g then { h.blocks g with alive := false }
      else h.blocks g := rfl

/-- An object that is left is the same. -/
theorem mem_without_of_notMem (hx : x ∉ S) : (h.without S).mem x = h.mem x :=
  if_neg hx

/-- A node that is left has its generation. -/
theorem generationOf_without_of_notMem (hx : x ∉ S) :
    (h.without S).generationOf x = h.generationOf x := by
  simp [generationOf, mem_without_of_notMem hx]

/-- A node that is left has its children. -/
theorem childrenOf_without_of_notMem (hx : x ∉ S) :
    (h.without S).childrenOf x = h.childrenOf x := by
  simp [childrenOf, mem_without_of_notMem hx]

/-- A node that is left has its class. -/
theorem isTimer_without_of_notMem (hx : x ∉ S) :
    (h.without S).isTimer x = h.isTimer x := by
  simp [isTimer, mem_without_of_notMem hx]

/-- Blocks keep their owner. -/
@[simp] theorem owner_blocks_without (g : Generation) :
    ((h.without S).blocks g).owner = (h.blocks g).owner := by
  simp only [without]
  split <;> rfl

/-- Nodes that are gone leave the owners of the others. -/
@[simp] theorem ownerExecutor_without (n : Node) :
    (h.without S).ownerExecutor n = h.ownerExecutor n :=
  owner_blocks_without n.generation

/-- A node that is left has its owner. -/
theorem ownerOf_without_of_notMem (hx : x ∉ S) :
    (h.without S).ownerOf x = h.ownerOf x := by
  rw [ownerOf, ownerOf, mem_without_of_notMem hx]
  cases h.mem x with
  | none => rfl
  | some n => exact ownerExecutor_without n

/-- The nodes that are alive without some nodes. -/
theorem live_without (x : Addr) : (h.without S).Live x ↔ x ∉ S ∧ h.Live x := by
  unfold Live
  rw [mem_without]
  split <;> rename_i hx
  · simp [hx]
  · simp [hx]

/-- The parents without some nodes. -/
theorem parentOf_without (x : Addr) :
    (h.without S).parentOf x = if x ∈ S then none else h.parentOf x := by
  rw [parentOf, mem_without]
  split <;> rfl

/-- The roots without some nodes. -/
theorem isRoot_without (x : Addr) :
    (h.without S).isRoot x = if x ∈ S then false else h.isRoot x := by
  rw [isRoot, mem_without]
  split <;> rfl

/-- The generations without some nodes. -/
theorem generationOf_without (x : Addr) :
    (h.without S).generationOf x = if x ∈ S then none else h.generationOf x := by
  rw [generationOf, mem_without]
  split <;> rfl

/-- The children without some nodes. -/
theorem childrenOf_without (x : Addr) :
    (h.without S).childrenOf x = if x ∈ S then [] else h.childrenOf x := by
  split <;> rename_i hx
  · rw [childrenOf, mem_without, if_pos hx]
  · exact childrenOf_without_of_notMem hx

/-- The owners without some nodes. -/
theorem ownerOf_without (x : Addr) :
    (h.without S).ownerOf x = if x ∈ S then none else h.ownerOf x := by
  split <;> rename_i hx
  · rw [ownerOf, mem_without, if_pos hx]
    rfl
  · exact ownerOf_without_of_notMem hx

/-- Without no node the heap is the same. -/
@[simp] theorem without_nil : h.without [] = h := by
  simp [without]

/-- Removing one list after another is removing both. -/
theorem without_without (hST : ∀ x ∈ T, x ∉ S) :
    (h.without S).without T = h.without (S ++ T) := by
  refine Heap.ext (funext fun x => ?_) (funext fun g => ?_) (funext fun x => ?_)
    (funext fun x => ?_) rfl
  · simp only [without, List.mem_append]
    grind
  · have hT : (∃ x ∈ T, (h.without S).generationOf x = some g) ↔
        ∃ x ∈ T, h.generationOf x = some g := exists_congr fun x => and_congr_right fun hx => by
      rw [generationOf_without_of_notMem (hST x hx)]
    simp only [blocks_without g, hT, List.mem_append,
      or_and_right, exists_or]
    by_cases h₁ : ∃ x ∈ T, h.generationOf x = some g
    · by_cases h₂ : ∃ x ∈ S, h.generationOf x = some g
      · simp only [h₁, h₂, or_self, if_true]
      · simp only [h₁, h₂, or_true, if_true, if_false]
    · simp only [h₁, or_false, if_false]
  · simp only [without, List.mem_append]
    grind
  · simp only [without, List.mem_append]
    grind

/-- Another node keeps its generation. -/
theorem generationOf_modifyNode_of_ne {a : Addr} (f : Node → Node) (hx : x ≠ a) :
    (h.modifyNode a f).generationOf x = h.generationOf x := by
  simp [generationOf, mem_modifyNode_of_ne h f hx]

/-- Another node keeps its children. -/
theorem childrenOf_modifyNode_of_ne {a : Addr} (f : Node → Node) (hx : x ≠ a) :
    (h.modifyNode a f).childrenOf x = h.childrenOf x := by
  simp [childrenOf, mem_modifyNode_of_ne h f hx]

/-- Another node keeps its class. -/
theorem isTimer_modifyNode_of_ne {a : Addr} (f : Node → Node) (hx : x ≠ a) :
    (h.modifyNode a f).isTimer x = h.isTimer x := by
  simp [isTimer, mem_modifyNode_of_ne h f hx]

/-- Another node keeps its owner. -/
theorem ownerOf_modifyNode_of_ne {a : Addr} (f : Node → Node) (hx : x ≠ a) :
    (h.modifyNode a f).ownerOf x = h.ownerOf x := by
  simp only [ownerOf, mem_modifyNode_of_ne h f hx]
  rfl

/-- A record outside the list may be changed before or after. -/
theorem modifyNode_without {a : Addr} (f : Node → Node) (ha : a ∉ S) :
    (h.without S).modifyNode a f = (h.modifyNode a f).without S := by
  refine Heap.ext (funext fun x => ?_) (funext fun g => ?_) rfl rfl rfl
  · rw [mem_modifyNode, mem_without, mem_without, mem_without, mem_modifyNode, if_neg ha]
    grind
  · have hS : (∃ x ∈ S, (h.modifyNode a f).generationOf x = some g) ↔
        ∃ x ∈ S, h.generationOf x = some g := exists_congr fun x => and_congr_right fun hx => by
      rw [generationOf_modifyNode_of_ne f (ne_of_mem_of_not_mem hx ha)]
    simp only [blocks_modifyNode, without, hS]

/-- Two changes of one object. -/
theorem modifyNode_modifyNode (a : Addr) (f g : Node → Node) :
    (h.modifyNode a f).modifyNode a g = h.modifyNode a (g ∘ f) := by
  simp [modifyNode]

/-- Changes of records that do not disturb each other can be exchanged. -/
theorem modifyNode_comm {a b : Addr} {f g : Node → Node} (hfg : ∀ n, f (g n) = g (f n)) :
    (h.modifyNode a f).modifyNode b g = (h.modifyNode b g).modifyNode a f := by
  by_cases hab : a = b
  · subst hab
    rw [modifyNode_modifyNode, modifyNode_modifyNode]
    exact congrArg (h.modifyNode a) (funext fun n => (hfg n).symm)
  · refine Heap.ext (funext fun x => ?_) rfl rfl rfl rfl
    simp only [mem_modifyNode]
    grind

end Heap

namespace World

variable (w : World)

/-- The world without the nodes of a list. -/
def without (S : List Addr) : World where
  heap := w.heap.without S
  execs := w.execs.without w.heap.ownerOf w.heap.isTimer S
  now := w.now

/-- The node leaves its owner's root list, or its parent's two vectors. -/
def unlink (a : Addr) : World :=
  match w.heap.mem a with
  | none => w
  | some n =>
      if n.isRoot && (w.heap.ownerExecutor n).isSome then
        w.withExecs (w.execs.removeRootFrom (w.heap.ownerExecutor n) a)
      else
        match n.parent with
        | some p => w.modifyNode p fun m =>
            { m with
              children := m.children.removeAll a
              childrenToDelete := m.childrenToDelete.removeAll a }
        | none => w

variable {w} {S T : List Addr} {a : Addr} {n : ℕ}

/-- Without some nodes, and then without others. -/
theorem without_without (hST : ∀ x ∈ T, x ∉ S) :
    (w.without S).without T = w.without (S ++ T) := by
  refine World.ext (Heap.without_without hST) ?_ rfl
  rw [without, without, without, ← Executors.without_without]
  exact Executors.without_congr (fun x hx => Heap.ownerOf_without_of_notMem (hST x hx))
    fun x hx => Heap.isTimer_without_of_notMem (hST x hx)

/-- Without no node the world is the same. -/
@[simp] theorem without_nil : w.without [] = w := by
  simp [without]

/-- A node that is left is changed before or after. -/
theorem modifyNode_without (f : Node → Node) (ha : a ∉ S) :
    (w.without S).modifyNode a f = (w.modifyNode a f).without S := by
  refine World.ext (Heap.modifyNode_without f ha) ?_ rfl
  refine Executors.without_congr (fun x hx => ?_) fun x hx => ?_
  · rw [heap_modifyNode, Heap.ownerOf_modifyNode_of_ne f (ne_of_mem_of_not_mem hx ha)]
  · rw [heap_modifyNode, Heap.isTimer_modifyNode_of_ne f (ne_of_mem_of_not_mem hx ha)]

/-- Two changes of one object. -/
theorem modifyNode_modifyNode (a : Addr) (f g : Node → Node) :
    (w.modifyNode a f).modifyNode a g = w.modifyNode a (g ∘ f) :=
  World.ext (Heap.modifyNode_modifyNode a f g) rfl rfl

end World

/-! ### The subtree that goes -/

namespace Heap

/-- The subtree at `a` is a tree of depth at most `n`: its records are live and registered,
and each is the parent of its children, which are no roots. -/
def Tree (h : Heap) : ℕ → Addr → Prop
  | 0, _ => False
  | n + 1, a => h.Live a ∧ (h.aliveNodes a).isSome ∧
      ∀ c ∈ h.childrenOf a, h.parentOf c = some a ∧ h.isRoot c = false ∧ h.Tree n c

variable {h h' : Heap} {n : ℕ} {a : Addr}

/-- A tree bounds the depth of its nodes. -/
theorem Tree.bounded (ht : h.Tree n a) : Bounded h.childrenOf n a := by
  induction n generalizing a with
  | zero => exact ht.elim
  | succ n ih => exact fun c hc => ih (ht.2.2 c hc).2.2

/-- The top of a tree is alive. -/
theorem Tree.live (ht : h.Tree n a) : h.Live a := by
  cases n with
  | zero => exact ht.elim
  | succ n => exact ht.1

/-- Only the records of the subtree matter. -/
theorem Tree.congr (ht : h.Tree n a)
    (hm : ∀ x ∈ preorder h.childrenOf n a, h'.mem x = h.mem x)
    (ha : ∀ x ∈ preorder h.childrenOf n a, h'.aliveNodes x = h.aliveNodes x) :
    h'.Tree n a := by
  induction n generalizing a with
  | zero => exact ht.elim
  | succ n ih =>
      obtain ⟨hlive, halive, hkids⟩ := ht
      have hma : h'.mem a = h.mem a := hm a List.mem_cons_self
      have hca : h'.childrenOf a = h.childrenOf a := by simp only [childrenOf, hma]
      have hsub : ∀ c ∈ h.childrenOf a, ∀ x ∈ preorder h.childrenOf n c,
          x ∈ preorder h.childrenOf (n + 1) a := fun c hc x hx =>
        List.mem_cons_of_mem _ (List.mem_flatMap.mpr ⟨c, hc, hx⟩)
      refine ⟨?_, ?_, fun c hc => ?_⟩
      · simpa only [Live, hma] using hlive
      · rw [ha a List.mem_cons_self]
        exact halive
      · rw [hca] at hc
        obtain ⟨hp, hr, ht⟩ := hkids c hc
        have hmc : h'.mem c = h.mem c := hm c (hsub c hc c (mem_preorder_self ht.bounded))
        refine ⟨?_, ?_, ih ht (fun x hx => hm x (hsub c hc x hx)) fun x hx =>
          ha x (hsub c hc x hx)⟩
        · rw [parentOf, hmc]
          exact hp
        · rw [isRoot, hmc]
          exact hr

end Heap

/-! ### One destructor -/

namespace World

variable {w : World} {S T : List Addr} {a : Addr} {m : Node} {n : ℕ}

/-- The heap of a world without some nodes. -/
theorem heap_without : (w.without S).heap = w.heap.without S := rfl

/-- The executors of a world without some nodes. -/
theorem execs_without :
    (w.without S).execs = w.execs.without w.heap.ownerOf w.heap.isTimer S := rfl

/-- The parent is live: what the destructor needs to leave the parent's vectors. -/
def ParentLive (w : World) (a : Addr) : Prop :=
  ∀ p, w.heap.parentOf a = some p → w.heap.Live p

/-- Leaving the parent or the root list does not fail. -/
theorem detach_eq {k : Node} (hk : w.heap.mem a = some k) (hroot : m.isRoot = k.isRoot)
    (hpar : m.parent = k.parent) (hgen : m.generation = k.generation)
    (hp : w.ParentLive a) : w.detach a m = .ok (w.unlink a) := by
  have hown : w.heap.ownerExecutor m = w.heap.ownerExecutor k := by
    simp only [Heap.ownerExecutor, hgen]
  rw [detach, unlink]
  rw [hk, hroot, hpar, hown]
  by_cases hr : (k.isRoot && (w.heap.ownerExecutor k).isSome) = true
  · simp only [hr, if_true]
    rfl
  · rw [Bool.not_eq_true] at hr
    simp only [hr, if_neg Bool.false_ne_true]
    cases hmp : k.parent with
    | none => rfl
    | some p =>
        have hpar : w.heap.parentOf a = some p := by simp [Heap.parentOf, hk, hmp]
        obtain ⟨l, hl⟩ := Option.isSome_iff_exists.mp (hp p hpar)
        simp only [Heap.node_of_mem hl]
        rfl

/-- The class part of a record after the destructor of a timer, and of any other class. -/
def expiredClass : NodeClass → NodeClass → NodeClass
  | .timer t, _ => .timer { t with active := false, generation := t.generation + 1 }
  | _, c => c

/-- The start of a destructor: the timer is cancelled, the block says dead and the registry
has forgotten the address. -/
def expire (w : World) (a : Addr) (m : Node) : World where
  heap := (w.heap.modifyNode a fun k => { k with cls := expiredClass m.cls k.cls }).expire a m
  execs := if m.cls.isTimer then w.execs.cancelTimerWith (w.heap.ownerExecutor m) a
    else w.execs
  now := w.now

/-- The first two statements of the destructor. -/
theorem expire_eq (w : World) (a : Addr) (m : Node) :
    (w.timerDestructor a m).withHeap ((w.timerDestructor a m).heap.expire a m) =
      w.expire a m := by
  have hid : ∀ h : Heap, (h.modifyNode a fun k => { k with cls := k.cls }) = h := fun h => by
    simp [Heap.modifyNode]
  rw [timerDestructor, expire]
  cases m.cls
  all_goals simp only [expiredClass, NodeClass.isTimer, hid]
  all_goals rfl

/-- The record that a destructor changes at its start. -/
theorem mem_expire_self (hm : w.heap.mem a = some m) :
    (w.expire a m).heap.mem a = some { m with cls := expiredClass m.cls m.cls } := by
  simp [expire, hm]

/-- A node that expires leaves the other objects. -/
theorem mem_expire_of_ne {x : Addr} (hx : x ≠ a) :
    (w.expire a m).heap.mem x = w.heap.mem x := by
  simp [expire, Heap.mem_modifyNode_of_ne _ _ hx]

/-- A node that expires is still one of the alive nodes. -/
@[simp] theorem aliveNodes_expire : (w.expire a m).heap.aliveNodes = w.heap.aliveNodes := rfl

/-- The block of a node that expires says dead. -/
theorem blocks_expire (g : Generation) : (w.expire a m).heap.blocks g =
    if g = m.generation then { w.heap.blocks g with alive := false }
    else w.heap.blocks g := by
  simp only [expire, Heap.expire]
  rw [Heap.blocks_modifyBlock]
  split <;> rename_i hg
  · simp [hg]
  · rfl

/-- A node that expires keeps its owner in its block. -/
theorem owner_blocks_expire (g : Generation) :
    ((w.expire a m).heap.blocks g).owner = (w.heap.blocks g).owner := by
  rw [blocks_expire]
  split <;> rfl

/-- Expiring first and leaving the parent then, or the other way round. -/
theorem unlink_expire (hm : w.heap.mem a = some m) :
    (w.expire a m).unlink a = (w.unlink a).expire a m := by
  have hown : ∀ k : Node, (w.expire a m).heap.ownerExecutor k = w.heap.ownerExecutor k :=
    fun k => owner_blocks_expire k.generation
  unfold unlink
  rw [mem_expire_self hm, hm]
  simp only [hown]
  by_cases hr : (m.isRoot && (w.heap.ownerExecutor m).isSome) = true
  · simp only [Heap.ownerExecutor] at hr ⊢
    simp only [hr, if_true]
    refine World.ext rfl ?_ rfl
    simp only [expire, execs_withExecs, heap_withExecs]
    split
    · exact Executors.removeRootFrom_cancelTimerWith ..
    · rfl
  · simp only [Heap.ownerExecutor] at hr ⊢
    simp only [hr]
    cases m.parent with
    | none => rfl
    | some p =>
        refine World.ext ?_ rfl rfl
        have hcomm := Heap.modifyNode_comm (h := w.heap) (a := a) (b := p)
          (f := fun k => { k with cls := expiredClass m.cls k.cls })
          (g := fun k =>
            { k with
              children := k.children.removeAll a
              childrenToDelete := k.childrenToDelete.removeAll a }) fun _ => rfl
        exact congrArg (fun h : Heap => h.expire a m) hcomm

/-- Leaving the tree only changes the two vectors of a record. -/
theorem mem_unlink (w : World) (a x : Addr) : ∃ f g : Node → SlotVector Addr,
    (w.unlink a).heap.mem x = (w.heap.mem x).map fun k =>
      { k with children := f k, childrenToDelete := g k } := by
  have hid : w.heap.mem x = (w.heap.mem x).map fun k =>
      { k with children := k.children, childrenToDelete := k.childrenToDelete } := by simp
  rw [unlink]
  split
  · exact ⟨_, _, hid⟩
  · split
    · exact ⟨_, _, hid⟩
    · split
      · rename_i p _
        by_cases hx : x = p
        · subst hx
          exact ⟨_, _, Heap.mem_modifyNode_self ..⟩
        · rw [heap_modifyNode, Heap.mem_modifyNode_of_ne _ _ hx]
          exact ⟨_, _, hid⟩
      · exact ⟨_, _, hid⟩

/-- Leaving the tree only changes links. -/
theorem sameNodes_unlink (w : World) (a : Addr) : Heap.SameNodes w.heap (w.unlink a).heap := by
  rw [unlink]
  split
  · exact .refl _
  · split
    · exact .refl _
    · split
      · exact .modifyNode _ _ (fun _ => rfl) fun _ => rfl
      · exact .refl _

/-- The parents when a node is taken out of its parent's list. -/
@[simp] theorem parentOf_unlink (x : Addr) :
    (w.unlink a).heap.parentOf x = w.heap.parentOf x := by
  obtain ⟨f, g, h⟩ := w.mem_unlink a x
  simp only [Heap.parentOf, h]
  cases w.heap.mem x <;> rfl

/-- The roots when a node is taken out of its parent's list. -/
@[simp] theorem isRoot_unlink (x : Addr) :
    (w.unlink a).heap.isRoot x = w.heap.isRoot x := by
  obtain ⟨f, g, h⟩ := w.mem_unlink a x
  simp only [Heap.isRoot, h]
  cases w.heap.mem x <;> rfl

/-- Leaving the vectors of a live parent. -/
theorem unlink_of_parent {p : Addr} (hpar : w.heap.parentOf a = some p)
    (hroot : w.heap.isRoot a = false) :
    w.unlink a = w.modifyNode p fun m =>
      { m with
        children := m.children.removeAll a
        childrenToDelete := m.childrenToDelete.removeAll a } := by
  obtain ⟨k, hk, hkp⟩ := Option.bind_eq_some_iff.mp hpar
  have hkr : k.isRoot = false := by simpa [Heap.isRoot, hk] using hroot
  rw [unlink]
  simp [hk, hkp, hkr]

/-! ### The children, one after the other -/

/-- Everything there is to know about the listed records is their own. -/
theorem mem_modifyNode_without {x : Addr} {f : Node → Node} (hxa : x ≠ a) (hxT : x ∉ T) :
    ((w.modifyNode a f).without T).heap.mem x = w.heap.mem x := by
  rw [heap_without, Heap.mem_without_of_notMem hxT, heap_modifyNode,
    Heap.mem_modifyNode_of_ne _ _ hxa]

/-- The statement of `destroy_eq` for recursions of depth `n`. -/
def DestroyEq (n : ℕ) : Prop :=
  ∀ (w : World) (c : Addr), w.ParentLive c → (w.unlink c).heap.Tree n c →
    (preorder (w.unlink c).heap.childrenOf n c).Nodup →
    destroy n w c = .ok ((w.unlink c).without (preorder (w.unlink c).heap.childrenOf n c))

/-- One child of a dying node: it leaves the dying node's vectors and takes its subtree
with it; of all that is left, only the record of the dying node changes. -/
theorem destroy_child (ih : DestroyEq n) {c : Addr} (ha : w.heap.Live a)
    (hpar : w.heap.parentOf c = some a) (hroot : w.heap.isRoot c = false)
    (htree : w.heap.Tree n c) (hac : a ∉ preorder w.heap.childrenOf n c) (haT : a ∉ T)
    (hnd : (T ++ preorder w.heap.childrenOf n c).Nodup) (f : Node → Node) :
    ∃ f', destroy n ((w.modifyNode a f).without T) c =
      .ok ((w.modifyNode a f').without (T ++ preorder w.heap.childrenOf n c)) := by
  set P := preorder w.heap.childrenOf n c with hP
  have hdisj : ∀ x ∈ P, x ∉ T := fun x hx hxT =>
    (List.nodup_append.mp hnd).2.2 x hxT x hx rfl
  have hxa : ∀ x ∈ P, x ≠ a := fun x hx => ne_of_mem_of_not_mem hx hac
  have hcP : c ∈ P := mem_preorder_self htree.bounded
  have hmem : ∀ (g : Node → Node), ∀ x ∈ P,
      ((w.modifyNode a g).without T).heap.mem x = w.heap.mem x := fun g x hx =>
    mem_modifyNode_without (hxa x hx) (hdisj x hx)
  set v := (w.modifyNode a f).without T with hv
  have hvpar : v.heap.parentOf c = some a := by
    rw [Heap.parentOf, hmem f c hcP]
    exact hpar
  have hvroot : v.heap.isRoot c = false := by
    rw [Heap.isRoot, hmem f c hcP]
    exact hroot
  obtain ⟨g, hg⟩ : ∃ g, v.unlink c = (w.modifyNode a g).without T := by
    have hswap := modifyNode_without (w := w.modifyNode a f) (fun m =>
      { m with
        children := m.children.removeAll c
        childrenToDelete := m.childrenToDelete.removeAll c }) haT
    rw [modifyNode_modifyNode] at hswap
    exact ⟨_, (unlink_of_parent hvpar hvroot).trans hswap⟩
  have hkids : ∀ x ∈ P, (v.unlink c).heap.childrenOf x = w.heap.childrenOf x := fun x hx => by
    simp only [Heap.childrenOf, hg, hmem g x hx]
  have hPeq : preorder (v.unlink c).heap.childrenOf n c = P := preorder_congr hkids
  have hvlive : v.ParentLive c := by
    intro p hp
    obtain rfl : a = p := Option.some.inj (hvpar.symm.trans hp)
    rw [hv, Heap.Live, heap_without, Heap.mem_without_of_notMem haT, heap_modifyNode,
      Heap.mem_modifyNode_self, Option.isSome_map]
    exact ha
  have hvtree : (v.unlink c).heap.Tree n c := by
    refine htree.congr (fun x hx => ?_) fun x hx => ?_
    · rw [hg]
      exact hmem g x hx
    · rw [hg]
      exact if_neg (hdisj x hx)
  refine ⟨g, ?_⟩
  rw [ih v c hvlive hvtree (hPeq ▸ (List.nodup_append.mp hnd).2.1), hPeq, hg,
    without_without hdisj]

/-- **The children of a dying node**, one after the other. -/
theorem foldlM_destroy (ih : DestroyEq n) {kids : List Addr} (ha : w.heap.Live a)
    (hkids : ∀ c ∈ kids, w.heap.parentOf c = some a ∧ w.heap.isRoot c = false ∧
      w.heap.Tree n c)
    (haT : a ∉ T ++ kids.flatMap (preorder w.heap.childrenOf n))
    (hnd : (T ++ kids.flatMap (preorder w.heap.childrenOf n)).Nodup) (f : Node → Node) :
    ∃ f', kids.foldlM (destroy n) ((w.modifyNode a f).without T) =
      .ok ((w.modifyNode a f').without
        (T ++ kids.flatMap (preorder w.heap.childrenOf n))) := by
  induction kids generalizing T f with
  | nil => exact ⟨f, by simp⟩
  | cons c kids ihk =>
      obtain ⟨hpar, hroot, htree⟩ := hkids c List.mem_cons_self
      rw [List.flatMap_cons, ← List.append_assoc] at haT hnd ⊢
      simp only [List.mem_append, not_or] at haT
      obtain ⟨g, hg⟩ := destroy_child ih ha hpar hroot htree haT.1.2 haT.1.1
        (List.nodup_append.mp hnd).1 f
      obtain ⟨f', hf'⟩ := ihk (fun d hd => hkids d (List.mem_cons_of_mem _ hd))
        (by simpa only [List.mem_append, not_or] using haT) hnd g
      refine ⟨f', ?_⟩
      rw [List.foldlM_cons, hg]
      exact hf'

/-- What is left to do once the children are gone: the registration, the entry in the table
of alive nodes, and the memory. -/
def finish (w : World) (e : Option ExecutorId) (a : Addr) : World where
  heap := { w.heap with
    mem := Function.update w.heap.mem a none
    aliveNodes := Function.update w.heap.aliveNodes a none }
  execs := w.execs.removeNodeFrom e a
  now := w.now

/-- **The steps around the recursion** remove one node more. -/
theorem finish_without {u : World} (hm : u.heap.mem a = some m) (haT : a ∉ T)
    (f : Node → Node) :
    ((((u.expire a m).modifyNode a f).without T).finish (u.heap.ownerExecutor m) a) =
      u.without (a :: T) := by
  have hgen : u.heap.generationOf a = some m.generation := by simp [Heap.generationOf, hm]
  have hown : u.heap.ownerOf a = u.heap.ownerExecutor m := Heap.ownerOf_of_mem hm
  have htimer : u.heap.isTimer a = m.cls.isTimer := by simp [Heap.isTimer, hm]
  set v := (u.expire a m).modifyNode a f with hv
  have hmem : ∀ x ∈ T, v.heap.mem x = u.heap.mem x := fun x hx => by
    have hxa : x ≠ a := ne_of_mem_of_not_mem hx haT
    rw [hv, heap_modifyNode, Heap.mem_modifyNode_of_ne _ _ hxa, mem_expire_of_ne hxa]
  refine World.ext (Heap.ext (funext fun x => ?_) (funext fun g => ?_) (funext fun x => ?_)
    (funext fun x => ?_) rfl) ?_ rfl
  · simp only [finish, heap_without, Function.update_apply, Heap.mem_without, List.mem_cons]
    by_cases hxa : x = a
    · simp [hxa]
    · simp only [hxa, if_false, false_or]
      by_cases hxT : x ∈ T
      · simp [hxT]
      · simp only [hxT, if_false]
        rw [hv, heap_modifyNode, Heap.mem_modifyNode_of_ne _ _ hxa, mem_expire_of_ne hxa]
  · have hT : (∃ x ∈ T, v.heap.generationOf x = some g) ↔
        ∃ x ∈ T, u.heap.generationOf x = some g := exists_congr fun x => and_congr_right
      fun hx => by rw [Heap.generationOf, hmem x hx, Heap.generationOf]
    have hb : v.heap.blocks g = if g = m.generation then
        { u.heap.blocks g with alive := false } else u.heap.blocks g := blocks_expire g
    simp only [finish, heap_without, Heap.blocks_without, List.exists_mem_cons_iff, hgen, hT,
      hb, Option.some.injEq]
    by_cases hg : g = m.generation
    · simp [hg]
    · simp [hg, Ne.symm hg]
  · simp only [finish, heap_without, Heap.without, List.mem_cons]
    rw [hv]
    simp only [heap_modifyNode, Heap.registry_modifyNode, expire, Heap.expire,
      Function.update_apply]
    grind
  · simp only [finish, heap_without, Heap.without, List.mem_cons, Function.update_apply]
    rw [hv]
    simp only [heap_modifyNode, Heap.aliveNodes_modifyNode, aliveNodes_expire]
    grind
  · have hcong : v.execs.without v.heap.ownerOf v.heap.isTimer T =
        v.execs.without u.heap.ownerOf u.heap.isTimer T := by
      refine Executors.without_congr (fun x hx => ?_) fun x hx => ?_
      · rw [Heap.ownerOf, hmem x hx, Heap.ownerOf]
        cases u.heap.mem x with
        | none => rfl
        | some k => exact owner_blocks_expire k.generation
      · rw [Heap.isTimer, hmem x hx, Heap.isTimer]
    have hexecs : v.execs =
        if u.heap.isTimer a then u.execs.cancelTimerWith (u.heap.ownerOf a) a else u.execs := by
      rw [htimer, hown]
      rfl
    rw [finish, execs_without, execs_without, hcong, hexecs, ← hown, Executors.without_cons]

/-- The parent stays live while the destructor starts. -/
theorem ParentLive.expire (hp : w.ParentLive a) (hm : w.heap.mem a = some m) :
    (w.expire a m).ParentLive a := by
  intro p hpar
  have hpar' : w.heap.parentOf a = some p := by
    rw [Heap.parentOf, mem_expire_self hm] at hpar
    rw [Heap.parentOf, hm]
    exact hpar
  by_cases hpa : p = a
  · subst hpa
    simp [Heap.Live, mem_expire_self hm]
  · rw [Heap.Live, mem_expire_of_ne hpa]
    exact hp p hpar'

/-- **What a destructor does.** -/
theorem destroy_eq (n : ℕ) : DestroyEq n := by
  induction n with
  | zero => exact fun w a _ htree => htree.elim
  | succ n ih =>
      intro w a hp htree hnd
      obtain ⟨hlive, halive, hkids⟩ := htree
      obtain ⟨m, hm⟩ := Option.isSome_iff_exists.mp (((w.sameNodes_unlink a).live a).mp hlive)
      obtain ⟨fc, fd, hum⟩ := w.mem_unlink a a
      rw [hm, Option.map_some] at hum
      -- the source expires first and leaves the parent then
      have hdetach : (w.expire a m).detach a m = .ok ((w.unlink a).expire a m) :=
        (detach_eq (m := m) (mem_expire_self hm) rfl rfl rfl (hp.expire hm)).trans
          (congrArg _ (unlink_expire hm))
      have hexp : (w.unlink a).expire a m = (w.unlink a).expire a
          { m with children := fc m, childrenToDelete := fd m } := rfl
      set m' : Node := { m with children := fc m, childrenToDelete := fd m } with hm'
      set u := w.unlink a with hu
      set v := u.expire a m' with hv
      have hmem : ∀ x, x ≠ a → v.heap.mem x = u.heap.mem x := fun x hx => mem_expire_of_ne hx
      have hkidsOf : v.heap.childrenOf a = u.heap.childrenOf a := by
        rw [Heap.childrenOf_of_mem (mem_expire_self hum), Heap.childrenOf_of_mem hum]
      set P := preorder u.heap.childrenOf n with hP
      obtain ⟨haP, hndP⟩ := List.nodup_cons.mp hnd
      rw [← hP] at haP hndP
      have hxa : ∀ c ∈ u.heap.childrenOf a, ∀ x ∈ P c, x ≠ a := fun c hc x hx =>
        ne_of_mem_of_not_mem (List.mem_flatMap.mpr ⟨c, hc, hx⟩) haP
      have hPv : ∀ c ∈ u.heap.childrenOf a, preorder v.heap.childrenOf n c = P c :=
        fun c hc => preorder_congr fun x hx => by
          simp only [Heap.childrenOf, hmem x (hxa c hc x hx)]
      have hflat : (u.heap.childrenOf a).flatMap (preorder v.heap.childrenOf n) =
          (u.heap.childrenOf a).flatMap P := List.flatMap_congr hPv
      have hkidsv : ∀ c ∈ u.heap.childrenOf a, v.heap.parentOf c = some a ∧
          v.heap.isRoot c = false ∧ v.heap.Tree n c := fun c hc => by
        obtain ⟨hpar, hroot, htree⟩ := hkids c hc
        have hca : c ≠ a := hxa c hc c (mem_preorder_self htree.bounded)
        refine ⟨?_, ?_, htree.congr (fun x hx => hmem x (hxa c hc x hx)) fun _ _ => rfl⟩
        · rw [Heap.parentOf, hmem c hca]
          exact hpar
        · rw [Heap.isRoot, hmem c hca]
          exact hroot
      have hvlive : v.heap.Live a := by
        simp [Heap.Live, hv, mem_expire_self hum]
      obtain ⟨f, hf⟩ := foldlM_destroy (w := v) (T := []) ih hvlive hkidsv
        (by rw [hflat]; exact haP) (by rw [hflat]; exact hndP)
        fun k => { k with children := k.children.movedFrom }
      rw [hflat, List.nil_append] at hf
      set T := (u.heap.childrenOf a).flatMap P with hT
      -- the steps after the children do not fail, the node being registered
      have halive' : (((v.modifyNode a f).without T).heap.aliveNodes a) =
          u.heap.aliveNodes a := if_neg haP
      obtain ⟨e, he⟩ := Option.isSome_iff_exists.mp halive
      have hdone := finish_without hum haP f
      have hown : u.heap.ownerExecutor m' = w.heap.ownerExecutor m := by
        simp only [Heap.ownerExecutor, hu, (w.sameNodes_unlink a).blocks, hm']
      rw [destroy]
      rw [Heap.node_of_mem hm]
      simp only [Outcome.ok_bind]
      rw [expire_eq, hdetach]
      simp only [Outcome.ok_bind, hexp, hkidsOf]
      rw [without_nil] at hf
      rw [hf]
      simp only [Outcome.ok_bind, heap_withExecs, Heap.unregisterAliveNode, halive', he]
      rw [preorder, ← hT, ← hdone, hown]
      rfl

/-- **What deleting a node does.** The node leaves its parent or its owner's root list, and
its whole subtree is gone. -/
theorem delete_eq (hp : w.ParentLive a)
    (htree : (w.unlink a).heap.Tree w.heap.nextGeneration a)
    (hnd : (preorder (w.unlink a).heap.childrenOf w.heap.nextGeneration a).Nodup) :
    w.delete a = .ok ((w.unlink a).without
      (preorder (w.unlink a).heap.childrenOf w.heap.nextGeneration a)) :=
  destroy_eq _ w a hp htree hnd

end World

end SimplyNode
