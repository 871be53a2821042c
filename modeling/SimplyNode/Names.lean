import SimplyNode.MoveSubtree
import SimplyNode.Ownership
import SimplyNode.Queues

/-!
# Nodes That Tasks Refer To

A posted task captures a node's address together with its lifetime block. `Heap.Names` says
that such a pair can be relied on: as long as the block says alive, the object at the address
is the node of that block. No operation breaks this for a pair that has it, whatever happens
to the address in the meantime.

## Main results

* `KeepsNames.born`, `KeepsNames.without`: constructions and deletions.
* `TreeOp.keepsNames_apply`, `TreeOp.nothingQueued_apply`: all tree operations.
-/

namespace SimplyNode

namespace Heap

/-- The block of generation `g` stands for the node at `a`, as long as it says alive. -/
def Names (h : Heap) (a : Addr) (g : Generation) : Prop :=
  g < h.nextGeneration ∧ ((h.blocks g).alive = true → h.generationOf a = some g)

/-- A `NodePtr` with a block stands for a node. -/
def NamesPtr (h : Heap) (p : NodePtr) : Prop := ∀ g, p.block = some g → h.Names p.node g

/-- What a pair of an address and a block stands for in `h`, it stands for in `h'`. -/
def KeepsNames (h h' : Heap) : Prop := ∀ a g, h.Names a g → h'.Names a g

variable {h h' h'' : Heap} {a x : Addr} {S : List Addr}

/-- A node is named by its own generation. -/
theorem Named.names (hn : h.Named) {n : Node} (hm : h.mem a = some n) :
    h.Names a n.generation := by
  have hg : h.generationOf a = some n.generation := by simp [generationOf, hm]
  exact ⟨hn.gen_lt a _ hg, fun _ => hg⟩

/-- A `NodePtr` that is built from an address stands for the node there, if there is one. -/
theorem Named.namesPtr (hn : h.Named) (a : Addr) : h.NamesPtr (h.nodePtr a) := by
  intro g hg
  have hgen : h.generationOf a = some g := (hn.registry a).symm.trans hg
  exact ⟨hn.gen_lt a g hgen, fun _ => hgen⟩

namespace KeepsNames

/-- A heap keeps its own names. -/
theorem refl (h : Heap) : KeepsNames h h := fun _ _ hn => hn

/-- Two steps that keep names keep them together. -/
theorem trans (hk : KeepsNames h h') (hk' : KeepsNames h' h'') : KeepsNames h h'' :=
  fun a g hn => hk' a g (hk a g hn)

/-- The same objects, and the same blocks alive. -/
theorem of_eq (hgen : ∀ x, h'.generationOf x = h.generationOf x)
    (halive : ∀ g, (h'.blocks g).alive = (h.blocks g).alive)
    (hnext : h'.nextGeneration = h.nextGeneration) : KeepsNames h h' := by
  rintro a g ⟨hlt, hn⟩
  refine ⟨hnext ▸ hlt, fun hg => ?_⟩
  rw [hgen]
  exact hn (halive g ▸ hg)

/-- Where the nodes are the same, so are their names. -/
theorem sameNodes (hs : SameNodes h h') : KeepsNames h h' :=
  of_eq hs.generationOf (fun g => by rw [hs.blocks]) hs.nextGeneration

/-- Where the tree is the same, so are the names. -/
theorem sameTree (hs : SameTree h h') : KeepsNames h h' :=
  of_eq hs.generationOf hs.alive hs.nextGeneration

/-- A change of owners keeps the names. -/
theorem reowned {e : ExecutorId} : KeepsNames h (h.reowned S e) :=
  of_eq (fun _ => rfl) (fun g => by rw [blocks_reowned]; split <;> rfl) rfl

/-- A node at a free address takes a generation of its own. -/
theorem born {cls : NodeClass} {v : Option Addr} {o : Option ExecutorId}
    (ha : h.mem a = none) : KeepsNames h (h.born a cls v o) := by
  rintro x g ⟨hlt, hn⟩
  refine ⟨Nat.lt_succ_of_lt hlt, fun hg => ?_⟩
  have hblock : (h.born a cls v o).blocks g = h.blocks g :=
    Function.update_of_ne (Nat.ne_of_lt hlt) ..
  rw [hblock] at hg
  have hx := hn hg
  have hne : x ≠ a := by
    rintro rfl
    rw [generationOf, ha] at hx
    exact absurd hx (by simp)
  rw [generationOf_born, if_neg hne]
  exact hx

/-- The blocks of deleted nodes say dead. -/
theorem without : KeepsNames h (h.without S) := by
  rintro x g ⟨hlt, hn⟩
  refine ⟨hlt, fun hg => ?_⟩
  rw [blocks_without] at hg
  split at hg <;> rename_i hdead
  · exact absurd hg (by simp)
  · have hx := hn hg
    have hxS : x ∉ S := fun hmem => hdead ⟨x, hmem, hx⟩
    rw [generationOf_without_of_notMem hxS]
    exact hx

end KeepsNames

end Heap

/-- A node that a task captures can be relied on. -/
def Task.Names (h : Heap) : Task → Prop
  | .deleteNode a g => h.Names a g
  | .moveToThread a g _ => h.Names a g
  | .moveToTaskPool a g _ => h.Names a g
  | .slot a g _ => h.Names a g
  | .timer p _ => h.NamesPtr p
  | .timeout p _ => h.NamesPtr p
  | .call _ => True

/-- A task names live nodes as long as the names are kept. -/
theorem Task.Names.keeps {h h' : Heap} (hk : Heap.KeepsNames h h') {t : Task}
    (ht : t.Names h) : t.Names h' := by
  cases t with
  | deleteNode a g => exact hk a g ht
  | moveToThread a g t => exact hk a g ht
  | moveToTaskPool a g p => exact hk a g ht
  | slot a g c => exact hk a g ht
  | timer p c => exact fun g hg => hk p.node g (ht g hg)
  | timeout p g => exact fun g hg => hk p.node g (ht g hg)
  | call id => trivial

/-! ### The tree operations -/

namespace TreeOp

variable {w w' : World} {ctx : CallContext} {op : TreeOp}

/-- No tree operation puts anything into a queue. -/
theorem nothingQueued_apply (h : op.apply ctx w = .ok w') :
    Executors.NothingQueued w.execs w'.execs := by
  cases op with
  | construct a cls parent => exact World.nothingQueued_construct h
  | addChild p c => exact World.nothingQueued_addChild h
  | setParent a parent => exact World.nothingQueued_setParent h
  | delete a => exact World.nothingQueued_delete h

/-- No tree operation breaks what a task relies on. -/
theorem keepsNames_apply (hs : Sound w) (h : op.apply ctx w = .ok w') :
    Heap.KeepsNames w.heap w'.heap := by
  cases op with
  | construct a cls parent =>
      have ha := (World.construct_ok h).1
      cases parent with
      | none =>
          have hctx := World.strand_of_construct h
          obtain rfl := Except.ok.inj ((World.construct_root ha hctx).symm.trans h)
          exact .born ha
      | some p =>
          obtain ⟨hp, hctx⟩ := World.live_of_construct h
          obtain rfl := Except.ok.inj
            ((World.construct_child hs.named ha hp hctx).symm.trans h)
          have hlist : Heap.SameNodes (w.heap.born a cls (some p) (w.heap.ownerOf p))
              ((w.heap.born a cls (some p) (w.heap.ownerOf p)).listChild (some p) a) :=
            Heap.sameNodes_listChild
          exact (Heap.KeepsNames.born ha).trans (.sameNodes hlist)
  | addChild p c =>
      obtain ⟨hp, hc⟩ := World.live_of_addChild h
      obtain rfl := Except.ok.inj ((World.addChild_eq hp hc).symm.trans h)
      exact .sameNodes Heap.sameNodes_adopt
  | setParent a parent =>
      obtain ⟨ha, hp⟩ := World.live_of_setParent h
      cases parent with
      | none =>
          obtain rfl := Except.ok.inj ((World.setParent_none hs.linked ha).symm.trans h)
          exact .sameNodes (Heap.sameNodes_leave.trans Heap.sameNodes_enroot)
      | some p =>
          obtain rfl := Except.ok.inj
            ((World.setParent_some hs.linked ha (hp p rfl)).symm.trans h)
          exact .sameNodes (Heap.sameNodes_leave.trans Heap.sameNodes_adopt)
  | delete a =>
      obtain ⟨u, hu, -, rfl⟩ := hs.delete (World.live_of_delete h)
      obtain rfl := Except.ok.inj (hu.symm.trans h)
      exact (Heap.KeepsNames.sameNodes (w.sameNodes_unlink a)).trans .without

end TreeOp

end SimplyNode
