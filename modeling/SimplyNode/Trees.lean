import SimplyNode.Affinity

/-!
# Finite Trees

In a `Forested` state every chain of parents ends, so the subtree of a node is what deleting
the node takes down, and a node is never below its own children. `Deleted` says object by
object what `delete` leaves behind in such a state.

## Main results

* `Forested.delete`: deleting a live node.
* `Forested.parent_not_below`: there are no cycles.
* `forested_of_run`: safe tree operations inside one executor.
-/

open PointerForest Transition

namespace SimplyNode

/-- Chains of parents and subtrees are the same thing. -/
theorem Heap.Linked.below_iff_above {h : Heap} (hl : h.Linked) {a x : Addr} :
    Below h.childrenOf a x ↔ Above h.parentOf x a := by
  have hswap : (fun p c => c ∈ h.childrenOf p) = Function.swap fun c p => h.parentOf c = some p :=
    funext fun p => funext fun c => propext (hl.mem_childrenOf p c)
  have hswap' : Below h.childrenOf a x ↔
      Relation.ReflTransGen (Function.swap fun c p => h.parentOf c = some p) a x := by
    rw [← hswap]
  rw [hswap']
  exact Relation.reflTransGen_swap

/-- The vectors of a node that a child leaves. -/
def Node.removeChild (a : Addr) (n : Node) : Node :=
  { n with
    children := n.children.removeAll a
    childrenToDelete := n.childrenToDelete.removeAll a }

/-- **What deleting a node leaves behind**: the objects below it are gone, its parent has
forgotten it, and the other objects are as they were. -/
structure Deleted (h h' : Heap) (a : Addr) : Prop where
  gone : ∀ x, Below h.childrenOf a x → h'.mem x = none
  parent : ∀ p, h.parentOf a = some p → h'.mem p = (h.mem p).map (Node.removeChild a)
  kept : ∀ x, ¬ Below h.childrenOf a x → h.parentOf a ≠ some x → h'.mem x = h.mem x
  owner : ∀ g, (h'.blocks g).owner = (h.blocks g).owner
  marked : ∀ g, (h'.blocks g).markedForDelete = (h.blocks g).markedForDelete
  alive : ∀ g, (h'.blocks g).alive = true ↔ (h.blocks g).alive = true ∧
    ∀ x, Below h.childrenOf a x → h.generationOf x ≠ some g
  nextGeneration : h'.nextGeneration = h.nextGeneration

namespace Deleted

variable {h h' : Heap} {a x : Addr}

/-- What is not below the deleted node only loses it from its vectors. -/
theorem exists_map (hd : Deleted h h' a) (hx : ¬ Below h.childrenOf a x) :
    h'.mem x = h.mem x ∨ h'.mem x = (h.mem x).map (Node.removeChild a) := by
  by_cases hp : h.parentOf a = some x
  · exact Or.inr (hd.parent x hp)
  · exact Or.inl (hd.kept x hx hp)

/-- Whatever is read off a record apart from its vectors is the same. -/
theorem map_eq {β : Type} (hd : Deleted h h' a) (hx : ¬ Below h.childrenOf a x) (f : Node → β)
    (hf : ∀ n : Node, f (n.removeChild a) = f n) :
    (h'.mem x).map f = (h.mem x).map f := by
  rcases hd.exists_map hx with hm | hm
  · rw [hm]
  · rw [hm, Option.map_map]
    exact congrArg (fun g => (h.mem x).map g) (funext hf)

/-- Alive is what was alive and not below. -/
theorem live (hd : Deleted h h' a) (x : Addr) :
    h'.Live x ↔ h.Live x ∧ ¬ Below h.childrenOf a x := by
  by_cases hx : Below h.childrenOf a x
  · simp [Heap.Live, hd.gone x hx, hx]
  · have hmap := congrArg Option.isSome (hd.map_eq hx Node.generation fun _ => rfl)
    rw [Option.isSome_map, Option.isSome_map] at hmap
    simp [Heap.Live, hmap, hx]

/-- What is not below keeps its generation. -/
theorem generationOf (hd : Deleted h h' a) (hx : ¬ Below h.childrenOf a x) :
    h'.generationOf x = h.generationOf x :=
  hd.map_eq hx Node.generation fun _ => rfl

/-- What is not below keeps its parent. -/
theorem parentOf (hd : Deleted h h' a) (hx : ¬ Below h.childrenOf a x) :
    h'.parentOf x = h.parentOf x := by
  have hmap := hd.map_eq hx Node.parent fun _ => rfl
  unfold Heap.parentOf
  cases hm : h.mem x <;> cases hm' : h'.mem x
  all_goals simp_all

/-- What is not below keeps its owner. -/
theorem ownerOf (hd : Deleted h h' a) (hx : ¬ Below h.childrenOf a x) :
    h'.ownerOf x = h.ownerOf x := by
  have hgen := hd.generationOf hx
  unfold Heap.generationOf at hgen
  unfold Heap.ownerOf
  cases hm : h.mem x <;> cases hm' : h'.mem x
  all_goals simp_all [Heap.ownerExecutor, hd.owner]

/-- Whether one node is above another does not change for the nodes that are left. -/
theorem above (hd : Deleted h h' a) (hl : h.Linked) {r : Addr}
    (hx : ¬ Below h.childrenOf a x) (hr : Above h.parentOf x r) : Above h'.parentOf x r := by
  induction hr using Relation.ReflTransGen.head_induction_on with
  | refl => exact .refl
  | @head x p hp _ ih =>
      have hnot : ¬ Below h.childrenOf a p := fun hb =>
        hx (hb.tail ((hl.mem_childrenOf p x).mpr hp))
      exact .head ((hd.parentOf hx).trans hp) (ih hnot)

/-- The nodes below the deleted one are dead. -/
theorem dead_of_below (hd : Deleted h h' a) (hx : Below h.childrenOf a x) {g : Generation}
    (hg : h.generationOf x = some g) : (h'.blocks g).alive = false := by
  rw [← Bool.not_eq_true, hd.alive]
  exact fun h => h.2 x hx hg

end Deleted

/-- The state is consistent and the nodes form a forest. -/
structure Forested (w : World) : Prop where
  consistent : Consistent w
  grounded : ∀ a, Grounded w.heap.parentOf a

namespace Forested

variable {w : World} {a c p x : Addr}

/-- In a forest the blocks name their nodes. -/
theorem named (hf : Forested w) : w.heap.Named := hf.consistent.sound.named

/-- In a forest children and parents agree. -/
theorem linked (hf : Forested w) : w.heap.Linked := hf.consistent.sound.linked

/-- No node is below one of its children. -/
theorem parent_not_below (hf : Forested w) (hp : w.heap.parentOf c = some p) :
    ¬ Below w.heap.childrenOf c p := by
  rw [hf.linked.below_iff_above]
  exact (hf.grounded c).not_cycle hp

/-- Two nodes are not above each other. -/
theorem above_antisymm (hf : Forested w) (hac : Above w.heap.parentOf a c)
    (hca : Above w.heap.parentOf c a) : a = c := by
  rcases Relation.ReflTransGen.cases_head hac with h | ⟨p, hp, hpc⟩
  · exact h
  · exact absurd (hpc.trans hca) ((hf.grounded a).not_cycle hp)

/-- Two children of a node are not below each other. -/
theorem sibling_not_below (hf : Forested w) {d : Addr} (hc : w.heap.parentOf c = some p)
    (hd : w.heap.parentOf d = some p) (hne : c ≠ d) : ¬ Below w.heap.childrenOf c d := by
  intro hcd
  refine hf.parent_not_below hc ?_
  exact hcd.of_sibling hf.linked.one_owner ((hf.linked.mem_childrenOf p d).mpr hd) hne

/-- What is below a node in spite of its unlinking. -/
theorem below_unlink_iff (hf : Forested w) (ha : w.heap.Live a) :
    Below (w.unlink a).heap.childrenOf a x ↔ Below w.heap.childrenOf a x := by
  constructor
  · intro hx
    induction hx with
    | refl => exact .refl
    | tail _ hc ih =>
        obtain ⟨hp, -⟩ := (World.mem_childrenOf_unlink hf.linked ha _).mp hc
        exact ih.tail ((hf.linked.mem_childrenOf _ _).mpr hp)
  · intro hx
    induction hx with
    | refl => exact .refl
    | @tail q d hq hd ih =>
        have hp := (hf.linked.mem_childrenOf q d).mp hd
        refine ih.tail ((World.mem_childrenOf_unlink hf.linked ha q).mpr ⟨hp, ?_⟩)
        rintro rfl
        exact hf.parent_not_below hp hq

/-- Deleting a node takes down what is below it. -/
theorem mem_doomed_iff (hf : Forested w) (ha : w.heap.Live a) :
    x ∈ w.doomed a ↔ Below w.heap.childrenOf a x :=
  (World.mem_doomed_iff hf.named hf.linked ha).trans (hf.below_unlink_iff ha)

/-- **Deleting a live node.** -/
theorem delete (hf : Forested w) (ha : w.heap.Live a) :
    ∃ w', w.delete a = .ok w' ∧ Forested w' ∧ Deleted w.heap w'.heap a := by
  obtain ⟨w', hw', hc⟩ := hf.consistent.delete ha
  have heq := World.delete_eq_of_linked hf.named hf.linked ha
  obtain rfl := Except.ok.inj (heq.symm.trans hw')
  have hmem : ∀ x, ((w.unlink a).without (w.doomed a)).heap.mem x =
      if x ∈ w.doomed a then none else (w.unlink a).heap.mem x := fun x => rfl
  have hblocks : (w.unlink a).heap.blocks = w.heap.blocks := (w.sameNodes_unlink a).blocks
  have halive : ∀ g, (∃ x ∈ w.doomed a, (w.unlink a).heap.generationOf x = some g) ↔
      ∃ x, Below w.heap.childrenOf a x ∧ w.heap.generationOf x = some g := fun g =>
    exists_congr fun x => by rw [hf.mem_doomed_iff ha, (w.sameNodes_unlink a).generationOf]
  refine ⟨_, hw', ⟨hc, fun x => (hf.grounded x).restrict fun y => ?_⟩, ?_⟩
  · rw [World.heap_without, Heap.parentOf_without, World.parentOf_unlink]
    split
    · exact Or.inl rfl
    · exact Or.inr rfl
  · exact
      { gone := fun x hx => by rw [hmem, if_pos ((hf.mem_doomed_iff ha).mpr hx)]
        parent := fun p hp => by
          have hnot : p ∉ w.doomed a := fun hmem =>
            hf.parent_not_below hp ((hf.mem_doomed_iff ha).mp hmem)
          rw [hmem, if_neg hnot, World.unlink_of_parent hp (hf.linked.isRoot_of_parentOf hp)]
          exact Heap.mem_modifyNode_self ..
        kept := fun x hx hp => by
          rw [hmem, if_neg fun h => hx ((hf.mem_doomed_iff ha).mp h)]
          cases hpar : w.heap.parentOf a with
          | none => rw [World.heap_unlink_of_root hpar]
          | some q =>
              rw [World.unlink_of_parent hpar (hf.linked.isRoot_of_parentOf hpar)]
              refine Heap.mem_modifyNode_of_ne _ _ ?_
              rintro rfl
              exact hp hpar
        owner := fun g => by
          rw [World.heap_without, Heap.owner_blocks_without, hblocks]
        marked := fun g => by
          rw [World.heap_without, Heap.blocks_without, hblocks]
          split <;> rfl
        alive := fun g => by
          rw [World.heap_without, Heap.blocks_without, hblocks]
          split <;> rename_i hg
          · simp only [Bool.false_eq_true, false_iff, not_and, not_forall]
            obtain ⟨x, hx, hxg⟩ := (halive g).mp hg
            exact fun _ => ⟨x, hx, fun hne => hne hxg⟩
          · refine (and_iff_left ?_).symm
            exact fun x hx hxg => hg ((halive g).mpr ⟨x, hx, hxg⟩)
        nextGeneration := (w.sameNodes_unlink a).nextGeneration }

/-- Marks and queues do not matter. -/
theorem sameTree (hf : Forested w) {h : Heap} (hs : Heap.SameTree w.heap h) :
    Forested (w.withHeap h) where
  consistent := hf.consistent.sameTree hs
  grounded a := by
    have hpar : h.parentOf = w.heap.parentOf := funext hs.parentOf
    rw [World.heap_withHeap, hpar]
    exact hf.grounded a

end Forested

/-- A world without nodes is a forest. -/
theorem World.Unused.forested {w : World} (h : w.Unused) : Forested w where
  consistent := h.consistent
  grounded a := .top (by rw [Heap.parentOf, h.noNodes.mem a]; rfl)

/-- Safe tree operations inside one executor lead from a forest to a forest. -/
theorem forested_of_run {t : ThreadId} {e : ExecutorId} {w₀ w : World} {ops : List TreeOp}
    (h₀ : w₀.Unused) (he : ∀ s, e = .strand s → s < w₀.execs.nextStrand)
    (hrun : Run (TreeStep t e) (fun v op => op.Safe v) w₀ ops w) : Forested w := by
  have hinv : TreeOp.Inv e w ∧ Consistent w := by
    refine hrun.invariant_of_ok (I := fun v => TreeOp.Inv e v ∧ Consistent v)
      (fun v op v' hi hok h => ?_) ⟨TreeOp.inv_of_noNodes h₀.noNodes he, h₀.consistent⟩
    have hi' := TreeOp.inv_apply hi.1 hok h
    exact ⟨hi', hi.2.apply _ _ h hi'.sound⟩
  exact ⟨hinv.2, hinv.1.grounded⟩

end SimplyNode
