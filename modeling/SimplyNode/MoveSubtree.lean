import SimplyNode.Migration

/-!
# What a Migration Does

`applyMoveTo` recurses into the children with the owners changing on the way. `moveSubtree_eq`
says what comes out for a root of a sound state: the blocks of the subtree name the new owner
(`Heap.reowned`), the books are balanced again, and no object has changed.

Between the first node and the last one a child can have another owner than its parent, so
the invariant of the tree operations does not hold inside the recursion. What does hold at
every node is that the books are balanced.

## Main results

* `applyMoveTo_spec`: the recursion, for a subtree with one owner.
* `Sound.moveSubtree`: moving a root keeps the state sound.
-/

open PointerForest

namespace SimplyNode

namespace Heap

variable {h h' : Heap} {S T : List Addr} {e : ExecutorId} {a x : Addr}

/-- The heap with a new owner for the nodes of a list. -/
def reowned (h : Heap) (S : List Addr) (e : ExecutorId) : Heap :=
  { h with
    blocks := fun g => if ∃ x ∈ S, h.generationOf x = some g then
      { h.blocks g with owner := some e } else h.blocks g }

/-- The blocks of the nodes that have a new owner. -/
theorem blocks_reowned (g : Generation) : (h.reowned S e).blocks g =
    if ∃ x ∈ S, h.generationOf x = some g then { h.blocks g with owner := some e }
    else h.blocks g := rfl

/-- The objects are the same. -/
@[simp] theorem mem_reowned : (h.reowned S e).mem = h.mem := rfl

/-- The generations are the same. -/
@[simp] theorem generationOf_reowned : (h.reowned S e).generationOf x = h.generationOf x := rfl

/-- The children are the same. -/
@[simp] theorem childrenOf_reowned : (h.reowned S e).childrenOf = h.childrenOf := rfl

/-- The parents are the same. -/
@[simp] theorem parentOf_reowned : (h.reowned S e).parentOf = h.parentOf := rfl

/-- The roots are the same. -/
@[simp] theorem isRoot_reowned : (h.reowned S e).isRoot = h.isRoot := rfl

/-- The same nodes are alive. -/
@[simp] theorem live_reowned : (h.reowned S e).Live x ↔ h.Live x := Iff.rfl

/-- Without no node nothing changes its owner. -/
@[simp] theorem reowned_nil : h.reowned [] e = h := by
  simp [reowned]

/-- One list after another. -/
theorem reowned_reowned : (h.reowned S e).reowned T e = h.reowned (S ++ T) e := by
  refine Heap.ext rfl (funext fun g => ?_) rfl rfl rfl
  simp only [blocks_reowned, generationOf_reowned, List.mem_append, or_and_right, exists_or]
  by_cases hT : ∃ x ∈ T, h.generationOf x = some g
  · by_cases hS : ∃ x ∈ S, h.generationOf x = some g
    · simp only [hS, hT, or_self, if_true]
    · simp only [hS, hT, or_true, if_true, if_false]
  · simp only [hT, or_false, if_false]

/-- Exactly the listed nodes have the new owner. -/
theorem ownerOf_reowned (hn : h.Named) (hx : x ∈ S → h.Live x) :
    (h.reowned S e).ownerOf x = if x ∈ S then some e else h.ownerOf x := by
  cases hm : h.mem x with
  | none =>
      have hxS : x ∉ S := fun hmem => by
        have hlive := hx hmem
        rw [Live, hm] at hlive
        exact absurd hlive (by simp)
      rw [if_neg hxS]
      simp [ownerOf, hm]
  | some n =>
      have hg : h.generationOf x = some n.generation := by simp [generationOf, hm]
      have hiff : (∃ y ∈ S, h.generationOf y = some n.generation) ↔ x ∈ S := by
        constructor
        · rintro ⟨y, hy, hyg⟩
          exact hn.gen_inj y x _ hyg hg ▸ hy
        · exact fun hxS => ⟨x, hxS, hg⟩
      rw [ownerOf_of_mem (h := h.reowned S e) hm, ownerOf_of_mem hm, blocks_reowned]
      simp only [hiff]
      split <;> rfl

/-- Giving live nodes another owner keeps the tables. -/
theorem Named.reowned (hn : h.Named) : (h.reowned S e).Named where
  gen_lt := hn.gen_lt
  gen_inj := hn.gen_inj
  registry := hn.registry
  aliveNodes := hn.aliveNodes
  alive x g hg := by
    rw [blocks_reowned]
    split
    · exact hn.alive x g hg
    · exact hn.alive x g hg
  owned x hx := by
    rw [ownerOf_reowned hn fun _ => hx]
    split
    · rfl
    · exact hn.owned x hx

/-- The links are in the objects. -/
theorem Linked.congr_mem (hl : h.Linked) (hm : h'.mem = h.mem) : h'.Linked where
  mem_childrenOf p c := by
    simp only [childrenOf, parentOf, hm]
    exact hl.mem_childrenOf p c
  nodup p := by
    simp only [childrenOf, hm]
    exact hl.nodup p
  isRoot_iff x hx := by
    simp only [Live, isRoot, parentOf, hm] at hx ⊢
    exact hl.isRoot_iff x hx

end Heap

namespace World

variable {w w' : World} {a : Addr} {m : Node} {target old : ExecutorId} {n : ℕ}

/-- One node of a migration, without its children. -/
def moveNode (w : World) (a : Addr) (m : Node) (target : ExecutorId) : World :=
  (((w.onAboutToMoveToThread a m).leaveExecutor a m).enterExecutor a m target).onMovedToThread
    a m

/-- `onAboutToMoveToThread` leaves the heap. -/
theorem heap_onAboutToMoveToThread : (w.onAboutToMoveToThread a m).heap = w.heap := by
  rw [onAboutToMoveToThread]
  split <;> rfl

/-- `onMovedToThread` leaves the heap. -/
theorem heap_onMovedToThread : (w.onMovedToThread a m).heap = w.heap := by
  rw [onMovedToThread]
  split
  · split <;> rfl
  · rfl

/-- `onAboutToMoveToThread` keeps the books. -/
theorem sameBooks_onAboutToMoveToThread :
    Executors.SameBooks w.execs (w.onAboutToMoveToThread a m).execs := by
  rw [onAboutToMoveToThread]
  split
  · exact Executors.sameBooks_cancelTimerWith
  · exact .refl _

/-- `onMovedToThread` keeps the books. -/
theorem sameBooks_onMovedToThread :
    Executors.SameBooks w.execs (w.onMovedToThread a m).execs := by
  rw [onMovedToThread]
  split
  · split
    · exact Executors.sameBooks_scheduleTimerWith
    · exact .refl _
  · exact .refl _

/-- The object of the node does not change, its block names the new owner. -/
theorem heap_moveNode (target : ExecutorId) (hm : w.heap.mem a = some m) :
    (w.moveNode a m target).heap = w.heap.reowned [a] target := by
  have hg : w.heap.generationOf a = some m.generation := by simp [Heap.generationOf, hm]
  rw [moveNode]
  rw [heap_onMovedToThread]
  refine Heap.ext ?_ (funext fun g => ?_) ?_ ?_ ?_
  · simp [enterExecutor, leaveExecutor, heap_onAboutToMoveToThread, Heap.setOwnerExecutor]
  · simp only [enterExecutor, leaveExecutor, heap_onAboutToMoveToThread,
      Heap.setOwnerExecutor, heap_withExecs, heap_withHeap, Heap.blocks_modifyBlock,
      Heap.blocks_reowned, List.mem_singleton, exists_eq_left, hg, Option.some.injEq]
    by_cases hgm : g = m.generation
    · simp [hgm]
    · simp [hgm, Ne.symm hgm]
  · simp [enterExecutor, leaveExecutor, heap_onAboutToMoveToThread, Heap.setOwnerExecutor,
      Heap.modifyBlock, Heap.reowned]
  · simp [enterExecutor, leaveExecutor, heap_onAboutToMoveToThread, Heap.setOwnerExecutor,
      Heap.modifyBlock, Heap.reowned]
  · simp [enterExecutor, leaveExecutor, heap_onAboutToMoveToThread, Heap.setOwnerExecutor,
      Heap.modifyBlock, Heap.reowned]

/-- The books between the two hooks. -/
def rebook (x : Executors) (a : Addr) (root : Bool) (old target : Option ExecutorId) :
    Executors :=
  let x := x.removeNodeFrom old a
  let x := if root then x.removeRootFrom old a else x
  let x := x.addNodeTo target a
  if root then x.addRootTo target a else x

/-- The executors that the last hook starts from. -/
theorem execs_enterExecutor (hown : w.heap.ownerExecutor m = some old) :
    (((w.onAboutToMoveToThread a m).leaveExecutor a m).enterExecutor a m target).execs =
      rebook (w.onAboutToMoveToThread a m).execs a m.isRoot (some old) (some target) := by
  rw [enterExecutor, leaveExecutor, rebook]
  rw [heap_onAboutToMoveToThread, hown]
  cases m.isRoot <;> rfl

/-- What an executor registers when a node goes from one to another. -/
theorem registers_rebook {x : Executors} {root : Bool} {d : ExecutorId} {l : List Addr}
    (hne : old ≠ target) (hl : l.Nodup) (ha : d = old → a ∈ l) (hr : x.Registers d l) :
    (rebook x a root (some old) (some target)).Registers d
      (if d = old then l.filter (· ≠ a) else if d = target then l ++ [a] else l) := by
  have h₁ := Executors.registers_removeNodeFrom (o := some old) hr hl
    fun h => ha (Option.some.inj h).symm
  have h₂ : (if root then (x.removeNodeFrom (some old) a).removeRootFrom (some old) a
      else x.removeNodeFrom (some old) a).Registers d
        (if some old = some d then l.filter (· ≠ a) else l) := by
    split
    · exact Executors.registers_removeRootFrom.mpr h₁
    · exact h₁
  have h₃ := Executors.registers_addNodeTo (o := some target) (a := a) h₂
  have hlist : (if some target = some d then
      (if some old = some d then l.filter (· ≠ a) else l) ++ [a]
      else if some old = some d then l.filter (· ≠ a) else l) =
      if d = old then l.filter (· ≠ a) else if d = target then l ++ [a] else l := by
    simp only [Option.some.injEq, eq_comm (b := d)]
    by_cases hd : d = old
    · subst hd
      simp [hne]
    · simp [hd]
  rw [hlist] at h₃
  cases root with
  | false => exact h₃
  | true =>
      show (Executors.addRootTo _ (some target) a).Registers d _
      exact Executors.registers_addRootTo.mpr h₃

/-- The root nodes of an executor when a node goes from one to another. -/
theorem rootNodes_rebook {x : Executors} {root : Bool} {d : ExecutorId} :
    (rebook x a root (some old) (some target)).rootNodes d =
      if root then
        (if d = old then (x.rootNodes d).filter (· ≠ a) else x.rootNodes d) ++
          if d = target then [a] else []
      else x.rootNodes d := by
  rw [rebook]
  cases root
  · simp only [Bool.false_eq_true, if_false, Executors.rootNodes_addNodeTo,
      Executors.rootNodes_removeNodeFrom]
  · simp only [if_true, Executors.rootNodes_addRootTo, Executors.rootNodes_addNodeTo,
      Executors.rootNodes_removeRootFrom, Executors.rootNodes_removeNodeFrom,
      Option.some.injEq, eq_comm (b := d)]
    by_cases hd : d = target
    · simp [hd]
    · simp [hd]

/-- A node that goes from one executor to another leaves the strands to their pools. -/
theorem sameStrands_rebook {x : Executors} {b : Bool} {o t : Option ExecutorId} :
    Executors.SameStrands x (rebook x a b o t) := by
  rw [rebook]
  cases b
  · exact Executors.sameStrands_removeNodeFrom.trans Executors.sameStrands_addNodeTo
  · exact ((Executors.sameStrands_removeNodeFrom.trans
      (Executors.sameStrands_removeRootFrom _ _)).trans Executors.sameStrands_addNodeTo).trans
        Executors.sameStrands_addRootTo

/-- **One node keeps the books balanced.** -/
theorem balanced_moveNode (hn : w.heap.Named) (hb : Balanced w.heap w.execs)
    (hm : w.heap.mem a = some m) (hown : w.heap.ownerOf a = some old) (hne : old ≠ target) :
    Balanced (w.moveNode a m target).heap (w.moveNode a m target).execs := by
  have ha : w.heap.Live a := Option.isSome_iff_exists.mpr ⟨m, hm⟩
  have hexec : w.heap.ownerExecutor m = some old := (Heap.ownerOf_of_mem hm).symm.trans hown
  have hroot : w.heap.isRoot a = m.isRoot := by simp [Heap.isRoot, hm]
  have hb₀ := hb.sameBooks (sameBooks_onAboutToMoveToThread (a := a) (m := m))
  have hbooks := sameBooks_onMovedToThread (a := a) (m := m)
    (w := ((w.onAboutToMoveToThread a m).leaveExecutor a m).enterExecutor a m target)
  rw [execs_enterExecutor hexec] at hbooks
  rw [heap_moveNode target hm]
  refine Balanced.sameBooks ?_ hbooks
  refine hb₀.move hown hne (fun c => ?_) (fun _ => rfl)
    (fun d l hl ha hr => registers_rebook hne hl ha hr) fun d => ?_
  · have hlisted : c ∈ [a] → w.heap.Live c := fun hc => List.mem_singleton.mp hc ▸ ha
    rw [Heap.ownerOf_reowned hn hlisted]
    simp only [List.mem_singleton]
  · rw [rootNodes_rebook, hroot]
    cases hr : m.isRoot with
    | true =>
        by_cases hd : d = old
        · simp [hd, hne]
        · by_cases hd' : d = target
          · simp [hd', Ne.symm hne]
          · simp [hd, hd']
    | false =>
        have hkeep : ∀ d, ((w.onAboutToMoveToThread a m).execs.rootNodes d).filter (· ≠ a) =
            (w.onAboutToMoveToThread a m).execs.rootNodes d := fun d =>
          hb₀.filter_rootNodes (Or.inl (hroot.trans hr))
        by_cases hd : d = old
        · rw [if_pos hd, hkeep]
          simp
        · simp [hd]

/-- `onAboutToMoveToThread` leaves the strands to their pools. -/
theorem sameStrands_onAboutToMoveToThread :
    Executors.SameStrands w.execs (w.onAboutToMoveToThread a m).execs := by
  rw [onAboutToMoveToThread]
  split
  · exact Executors.sameStrands_cancelTimerWith
  · exact .refl _

/-- `onMovedToThread` leaves the strands to their pools. -/
theorem sameStrands_onMovedToThread :
    Executors.SameStrands w.execs (w.onMovedToThread a m).execs := by
  rw [onMovedToThread]
  split
  · split
    · exact Executors.sameStrands_scheduleTimerWith
    · exact .refl _
  · exact .refl _

/-- The move of a node leaves the strands to their pools. -/
theorem sameStrands_moveNode (hown : w.heap.ownerExecutor m = some old) :
    Executors.SameStrands w.execs (w.moveNode a m target).execs := by
  have henter := sameStrands_rebook (x := (w.onAboutToMoveToThread a m).execs) (a := a)
    (b := m.isRoot) (o := some old) (t := some target)
  rw [← execs_enterExecutor hown] at henter
  exact (sameStrands_onAboutToMoveToThread.trans henter).trans sameStrands_onMovedToThread

/-! ### The recursion -/

/-- The nodes of a list have moved: their blocks name the new owner, no object has changed,
and the books are balanced. -/
structure Migrated (w w' : World) (S : List Addr) (target : ExecutorId) : Prop where
  heap : w'.heap = w.heap.reowned S target
  balanced : Balanced w'.heap w'.execs
  strands : Executors.SameStrands w.execs w'.execs

/-- The statement of `applyMoveTo_spec` for recursions of depth `n`. -/
def ApplyMoveToSpec (n : ℕ) (old target : ExecutorId) : Prop :=
  ∀ (w : World) (a : Addr), w.heap.Named → Balanced w.heap w.execs →
    Bounded w.heap.childrenOf n a → (preorder w.heap.childrenOf n a).Nodup →
    (∀ x ∈ preorder w.heap.childrenOf n a, w.heap.ownerOf x = some old) →
    ∃ w', applyMoveTo n w a target = .ok w' ∧
      Migrated w w' (preorder w.heap.childrenOf n a) target

/-- The children, one after the other. -/
theorem foldlM_applyMoveTo (ih : ApplyMoveToSpec n old target) (kids : List Addr)
    (hn : w.heap.Named) (hb : Balanced w.heap w.execs)
    (hbound : ∀ c ∈ kids, Bounded w.heap.childrenOf n c)
    (hnd : (kids.flatMap (preorder w.heap.childrenOf n)).Nodup)
    (hown : ∀ x ∈ kids.flatMap (preorder w.heap.childrenOf n), w.heap.ownerOf x = some old) :
    ∃ w', kids.foldlM (fun w c => applyMoveTo n w c target) w = .ok w' ∧
      Migrated w w' (kids.flatMap (preorder w.heap.childrenOf n)) target := by
  induction kids generalizing w with
  | nil => exact ⟨w, rfl, by simp, hb, .refl _⟩
  | cons c kids ihk =>
      rw [List.flatMap_cons] at hnd hown ⊢
      obtain ⟨hnd₁, hnd₂, hdisj⟩ := List.nodup_append.mp hnd
      obtain ⟨v, hv, hmv⟩ := ih w c hn hb (hbound c List.mem_cons_self) hnd₁
        fun x hx => hown x (List.mem_append_left _ hx)
      have hkids : v.heap.childrenOf = w.heap.childrenOf := by rw [hmv.heap]; rfl
      have hownv : ∀ x ∈ kids.flatMap (preorder w.heap.childrenOf n),
          v.heap.ownerOf x = some old := fun x hx => by
        have hxw : w.heap.ownerOf x = some old := hown x (List.mem_append_right _ hx)
        rw [hmv.heap, Heap.ownerOf_reowned hn fun _ => Heap.live_of_ownerOf hxw,
          if_neg fun hxc => hdisj x hxc x hx rfl]
        exact hxw
      obtain ⟨w', hw', hmw⟩ := ihk (w := v) (hmv.heap ▸ hn.reowned) hmv.balanced
        (fun d hd => hkids ▸ hbound d (List.mem_cons_of_mem _ hd)) (hkids ▸ hnd₂)
        (hkids ▸ hownv)
      refine ⟨w', ?_, ?_, hmw.balanced, hmv.strands.trans hmw.strands⟩
      · rw [List.foldlM_cons, hv]
        exact hw'
      · rw [hmw.heap, hkids, hmv.heap, Heap.reowned_reowned]

/-- **What a migration does**, for a subtree with one owner other than the target. -/
theorem applyMoveTo_spec (hne : old ≠ target) (n : ℕ) : ApplyMoveToSpec n old target := by
  induction n with
  | zero => exact fun w a _ _ hbound => hbound.elim
  | succ n ih =>
      intro w a hn hb hbound hnd hown
      have hoa : w.heap.ownerOf a = some old := hown a List.mem_cons_self
      obtain ⟨m, hm⟩ := Option.isSome_iff_exists.mp (Heap.live_of_ownerOf hoa)
      have hexec : w.heap.ownerExecutor m = some old := (Heap.ownerOf_of_mem hm).symm.trans hoa
      have hheap := heap_moveNode target hm
      set v := w.moveNode a m target with hv
      obtain ⟨haP, hndP⟩ := List.nodup_cons.mp hnd
      have hkids : v.heap.childrenOf = w.heap.childrenOf := by rw [hheap]; rfl
      have hownv : ∀ x ∈ (w.heap.childrenOf a).flatMap (preorder w.heap.childrenOf n),
          v.heap.ownerOf x = some old := fun x hx => by
        have hxw : w.heap.ownerOf x = some old := hown x (List.mem_cons_of_mem _ hx)
        have hxa : x ∉ [a] := by simpa using ne_of_mem_of_not_mem hx haP
        rw [hheap, Heap.ownerOf_reowned hn fun _ => Heap.live_of_ownerOf hxw, if_neg hxa]
        exact hxw
      obtain ⟨w', hw', hmw⟩ := foldlM_applyMoveTo ih (w.heap.childrenOf a) (w := v)
        (hheap ▸ hn.reowned) (balanced_moveNode hn hb hm hoa hne)
        (fun c hc => hkids ▸ hbound c hc) (hkids ▸ hndP) (hkids ▸ hownv)
      refine ⟨w', ?_, ?_, hmw.balanced, (sameStrands_moveNode hexec).trans hmw.strands⟩
      · rw [applyMoveTo]
        rw [Heap.node_of_mem hm]
        simp only [Outcome.ok_bind]
        rw [hexec, if_neg fun h => hne (Option.some.inj h)]
        rw [← hkids] at hw'
        exact hw'
      · rw [hmw.heap, hkids, hheap, Heap.reowned_reowned]
        rfl

end World

end SimplyNode
