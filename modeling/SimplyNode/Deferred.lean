import SimplyNode.Migration

/-!
# Running Tasks and Deferred Deletes

What an executor does with its queues: it pops a task and runs it, and it takes the list of
pending deletes and deletes the nodes in it whose `NodePtr`, built from the address at that
moment, says alive. A strand's drain ends by handing the strand back to its pool.

## Main results

* `isAlive_nodePtr`: in a named heap the check says whether an object is at the address.
* `World.deleteLater_cases`: what a request does.
-/

namespace SimplyNode

namespace Executors

variable (x : Executors)

/-- `EventLoop::popNextTask`, and the same step of `Strand::drain`. -/
def popTask (e : ExecutorId) : Option (Task × Executors) :=
  match e with
  | .loop t =>
      match (x.loops t).tasks with
      | [] => none
      | task :: rest => some (task, x.modifyLoop t fun l => { l with tasks := rest })
  | .strand s =>
      match (x.strands s).queue with
      | [] => none
      | task :: rest => some (task, x.modifyStrand s fun st => { st with queue := rest })

/-- `EventLoop::takePendingDeletes`, and the swap in `Strand::runPendingDeletes`. -/
def takePendingDeletes (e : ExecutorId) : List Addr × Executors :=
  match e with
  | .loop t =>
      ((x.loops t).nodesToDelete, x.modifyLoop t fun l => { l with nodesToDelete := [] })
  | .strand s =>
      ((x.strands s).pendingDeletes, x.modifyStrand s fun st => { st with pendingDeletes := [] })

/-- The end of `Strand::drain`: the strand is scheduled again if it has tasks, and else
idle and given back. -/
def finishDrain (s : StrandId) : Executors :=
  if (x.strands s).queue.isEmpty then
    (x.modifyStrand s fun st => { st with scheduled := false }).recycleStrandIfIdle s
  else x.scheduleStrand s

end Executors

namespace World

variable (w : World)

/-- The executor runs its next task, if there is one. -/
def runNextTask (e : ExecutorId) : Outcome World :=
  match w.execs.popTask e with
  | none => pure w
  | some (task, x) => (w.withExecs x).runTask e task

/-- One entry of a list of pending deletes: the check of a fresh `NodePtr`, then `delete`. -/
def deleteIfAlive (a : Addr) : Outcome World :=
  if w.heap.isAlive (w.heap.nodePtr a) then w.delete a else pure w

/-- The deferred deletes of an event loop's iteration, or one round of
`Strand::runPendingDeletes`. -/
def runPendingDeletes (e : ExecutorId) : Outcome World :=
  let (batch, x) := w.execs.takePendingDeletes e
  batch.foldlM deleteIfAlive (w.withExecs x)

end World

/-- In a named heap the check of `NodePtr` says whether an object is at the address. -/
theorem Heap.Named.isAlive_nodePtr {h : Heap} (hn : h.Named) (a : Addr) :
    h.isAlive (h.nodePtr a) = true ↔ h.Live a := by
  rw [isAlive, nodePtr]
  rw [hn.registry]
  cases hg : h.generationOf a with
  | none =>
      have hnot : ¬ h.Live a := fun ha => by
        obtain ⟨g, hg'⟩ := live_iff_generationOf.mp ha
        rw [hg] at hg'
        exact absurd hg' (by simp)
      simp [hnot]
  | some g =>
      have hlive : h.Live a := live_iff_generationOf.mpr ⟨g, hg⟩
      simp [hlive, hn.alive a g hg]

/-! ### What does not change the tree -/

/-- A node apart from its queue of children to delete and its timer. -/
def Node.tree (n : Node) : Node := { n with childrenToDelete := .empty, cls := .plain }

/-- The two heaps hold the same tree: only queues of children to delete, marks and the states
of timers may differ. -/
structure Heap.SameTree (h h' : Heap) : Prop where
  tree : ∀ x, (h'.mem x).map Node.tree = (h.mem x).map Node.tree
  alive : ∀ g, (h'.blocks g).alive = (h.blocks g).alive
  owner : ∀ g, (h'.blocks g).owner = (h.blocks g).owner
  registry : h'.registry = h.registry
  aliveNodes : ∀ x, (h'.aliveNodes x).isSome = (h.aliveNodes x).isSome
  nextGeneration : h'.nextGeneration = h.nextGeneration

namespace Heap.SameTree

variable {h h' h'' : Heap}

/-- A heap has its own tree. -/
theorem refl (h : Heap) : SameTree h h :=
  ⟨fun _ => rfl, fun _ => rfl, fun _ => rfl, rfl, fun _ => rfl, rfl⟩

/-- Two changes that keep the tree keep it together. -/
theorem trans (hs : SameTree h h') (hs' : SameTree h' h'') : SameTree h h'' where
  tree x := (hs'.tree x).trans (hs.tree x)
  alive g := (hs'.alive g).trans (hs.alive g)
  owner g := (hs'.owner g).trans (hs.owner g)
  registry := hs'.registry.trans hs.registry
  aliveNodes x := (hs'.aliveNodes x).trans (hs.aliveNodes x)
  nextGeneration := hs'.nextGeneration.trans hs.nextGeneration

/-- What is read off a record without its queue and its class is the same. -/
theorem map_eq {β : Type} (hs : SameTree h h') (x : Addr) (f : Node → β)
    (hf : ∀ n : Node, f n.tree = f n) :
    (h'.mem x).map f = (h.mem x).map f := by
  have hx := congrArg (Option.map f) (hs.tree x)
  rw [Option.map_map, Option.map_map] at hx
  simpa only [Function.comp_def, hf] using hx

/-- The same nodes are alive. -/
theorem live (hs : SameTree h h') (x : Addr) : h'.Live x ↔ h.Live x := by
  have hx := congrArg Option.isSome (hs.tree x)
  rw [Option.isSome_map, Option.isSome_map] at hx
  rw [Live, hx, Live]

/-- They have the same generations. -/
theorem generationOf (hs : SameTree h h') (x : Addr) :
    h'.generationOf x = h.generationOf x :=
  hs.map_eq x Node.generation fun _ => rfl

/-- They have the same parents. -/
theorem parentOf (hs : SameTree h h') (x : Addr) : h'.parentOf x = h.parentOf x := by
  have hx := hs.map_eq x Node.parent fun _ => rfl
  unfold Heap.parentOf
  cases hm : h.mem x <;> cases hm' : h'.mem x
  all_goals simp_all

/-- They have the same children. -/
theorem childrenOf (hs : SameTree h h') (x : Addr) : h'.childrenOf x = h.childrenOf x := by
  have hx := hs.map_eq x (fun n => n.children.live) fun _ => rfl
  unfold Heap.childrenOf
  cases hm : h.mem x <;> cases hm' : h'.mem x
  all_goals simp_all

/-- The same nodes are roots. -/
theorem isRoot (hs : SameTree h h') (x : Addr) : h'.isRoot x = h.isRoot x := by
  have hx := hs.map_eq x Node.isRoot fun _ => rfl
  unfold Heap.isRoot
  cases hm : h.mem x <;> cases hm' : h'.mem x
  all_goals simp_all

/-- They have the same owners. -/
theorem ownerOf (hs : SameTree h h') (x : Addr) : h'.ownerOf x = h.ownerOf x := by
  have hx := hs.map_eq x Node.generation fun _ => rfl
  unfold Heap.ownerOf
  cases hm : h.mem x <;> cases hm' : h'.mem x
  all_goals simp_all [ownerExecutor, hs.owner]

/-- The names are the same. -/
theorem named (hs : SameTree h h') (hn : h.Named) : h'.Named :=
  hn.congr hs.generationOf hs.ownerOf hs.alive hs.registry hs.aliveNodes hs.nextGeneration

/-- The links are the same. -/
theorem linked (hs : SameTree h h') (hl : h.Linked) : h'.Linked where
  mem_childrenOf p c := by rw [hs.childrenOf, hs.parentOf, hl.mem_childrenOf]
  nodup p := by
    rw [hs.childrenOf]
    exact hl.nodup p
  isRoot_iff a ha := by
    rw [hs.isRoot, hs.parentOf]
    exact hl.isRoot_iff a ((hs.live a).mp ha)

/-- A mark in a block. -/
theorem mark (h : Heap) (g : Generation) :
    SameTree h (h.modifyBlock g fun b => { b with markedForDelete := true }) where
  tree _ := rfl
  alive k := by
    rw [blocks_modifyBlock]
    split <;> rename_i hk
    · rw [hk]
    · rfl
  owner k := by
    rw [blocks_modifyBlock]
    split <;> rename_i hk
    · rw [hk]
    · rfl
  registry := rfl
  aliveNodes _ := rfl
  nextGeneration := rfl

/-- A mark in the table of alive nodes. -/
theorem markToDelete {a : Addr} (hm : h.markToDelete a = .ok h') : SameTree h h' := by
  unfold Heap.markToDelete at hm
  split at hm
  · rename_i k hk
    obtain rfl := Except.ok.inj hm
    refine ⟨fun _ => rfl, fun _ => rfl, fun _ => rfl, rfl, fun x => ?_, rfl⟩
    by_cases hx : x = a
    · subst hx
      simp [hk]
    · simp [hx]
  · exact absurd hm (by simp)

/-- A timer gets another state. -/
theorem setTimer (w : World) (a : Addr) (t : TimerState) :
    SameTree w.heap (w.setTimer a t).heap := by
  refine ⟨fun x => ?_, fun _ => rfl, fun _ => rfl, rfl, fun _ => rfl, rfl⟩
  rw [World.setTimer, World.heap_modifyNode, mem_modifyNode]
  split <;> rename_i hx
  · rw [hx, Option.map_map]
    rfl
  · rfl

/-- A child is queued with its parent. -/
theorem pushDeleteChild {p c : Addr} (hp : h.Live p) :
    ∃ h', h.pushDeleteChild p c = .ok h' ∧ SameTree h h' := by
  obtain ⟨n, hn⟩ := Option.isSome_iff_exists.mp hp
  rw [Heap.pushDeleteChild]
  rw [node_of_mem hn]
  simp only [Outcome.ok_bind]
  split
  · refine ⟨_, rfl, fun x => ?_, fun _ => rfl, fun _ => rfl, rfl, fun _ => rfl, rfl⟩
    rw [mem_modifyNode]
    split <;> rename_i hx
    · rw [hx, Option.map_map]
      rfl
    · rfl
  · exact ⟨h, rfl, refl h⟩

end Heap.SameTree

/-! ### What `deleteLater` does -/

/-- **Inversion of `deleteLater`.** The node is marked in both tables, which `k` says, and
then the request is posted to the owner, or queued with the owner, or queued with the
parent. -/
theorem World.deleteLater_cases {w w' : World} {ctx : CallContext} {a : Addr}
    (h : w.deleteLater ctx a = .ok w') :
    ∃ n k, w.heap.mem a = some n ∧ Heap.SameTree w.heap k ∧ k.mem = w.heap.mem ∧
      ((∃ e, w.heap.ownerOf a = some e ∧
          w' = (w.withHeap k).withExecs (w.execs.post e (.deleteNode a n.generation))) ∨
        (∃ e, w.heap.ownerOf a = some e ∧ ctx.isCurrent e = true ∧
          w' = (w.withHeap k).withExecs (w.execs.enqueueDelete e a)) ∨
        ∃ p k', n.parent = some p ∧ k.pushDeleteChild p a = .ok k' ∧ w' = w.withHeap k') := by
  obtain ⟨n, hn, h⟩ := Outcome.bind_eq_ok.mp h
  obtain ⟨k, hk, h⟩ := Outcome.bind_eq_ok.mp h
  have hm := (Heap.node_eq_ok _).mp hn
  have hown : w.heap.ownerOf a = w.heap.ownerExecutor n := Heap.ownerOf_of_mem hm
  have hmem : k.mem = w.heap.mem := by
    unfold Heap.markToDelete at hk
    split at hk
    · obtain rfl := Except.ok.inj hk
      rfl
    · exact absurd hk (by simp)
  refine ⟨n, k, hm, (Heap.SameTree.mark w.heap n.generation).trans (.markToDelete hk), hmem, ?_⟩
  have hpush : ∀ p, n.parent = some p →
      (do let h ← k.pushDeleteChild p a; pure (w.withHeap h)) = Except.ok w' →
      ∃ p k', n.parent = some p ∧ k.pushDeleteChild p a = .ok k' ∧ w' = w.withHeap k' := by
    intro p hp h
    obtain ⟨k', hk', h⟩ := Outcome.bind_eq_ok.mp h
    exact ⟨p, k', hp, hk', (Except.ok.inj h).symm⟩
  cases ho : w.heap.ownerExecutor n with
  | none =>
      rw [ho] at h
      cases hp : n.parent with
      | none =>
          rw [hp] at h
          exact absurd h (by simp)
      | some p =>
          rw [hp] at h
          exact Or.inr (Or.inr (hp ▸ hpush p hp h))
  | some e =>
      rw [ho] at h hown
      dsimp only at h
      split at h <;> rename_i hctx
      · exact Or.inl ⟨e, hown, (Except.ok.inj h).symm⟩
      · have hctx : ctx.isCurrent e = true := by simpa using hctx
        cases e with
        | strand s => exact Or.inr (Or.inl ⟨_, hown, hctx, (Except.ok.inj h).symm⟩)
        | loop t =>
            cases hp : n.parent with
            | none =>
                rw [hp] at h
                exact Or.inr (Or.inl ⟨_, hown, hctx, (Except.ok.inj h).symm⟩)
            | some p =>
                rw [hp] at h
                exact Or.inr (Or.inr (hp ▸ hpush p hp h))

/-- What a child does to its parent's queue. -/
theorem Heap.pushDeleteChild_ok {h h' : Heap} {p c : Addr} (hp : h.pushDeleteChild p c = .ok h') :
    Heap.SameTree h h' ∧ ∀ x, h'.mem x = h.mem x ∨ (x = p ∧ c ∈ h.childrenOf p ∧
      h'.mem x = (h.mem x).map fun n =>
        { n with childrenToDelete := n.childrenToDelete.pushBack c }) := by
  obtain ⟨n, hn, -⟩ := Outcome.bind_eq_ok.mp hp
  have hm := (Heap.node_eq_ok _).mp hn
  obtain ⟨k, hk, hs⟩ := Heap.SameTree.pushDeleteChild (c := c)
    (Option.isSome_iff_exists.mpr ⟨n, hm⟩)
  obtain rfl := Except.ok.inj (hk.symm.trans hp)
  refine ⟨hs, fun x => ?_⟩
  obtain ⟨m, hm', hp⟩ := Outcome.bind_eq_ok.mp hp
  split at hp <;> rename_i hc
  · obtain rfl := Except.ok.inj hp
    by_cases hx : x = p
    · subst hx
      refine Or.inr ⟨rfl, ?_, Heap.mem_modifyNode_self ..⟩
      rw [Heap.childrenOf_of_mem ((Heap.node_eq_ok _).mp hm')]
      exact hc
    · exact Or.inl (Heap.mem_modifyNode_of_ne _ _ hx)
  · obtain rfl := Except.ok.inj hp
    exact Or.inl rfl

namespace Executors

variable {x : Executors} {e : ExecutorId}

/-- Taking a task off a queue changes no registration. -/
theorem sameBooks_popTask {task : Task} {y : Executors} (h : x.popTask e = some (task, y)) :
    SameBooks x y ∧ SameStrands x y := by
  unfold popTask at h
  split at h
  · split at h
    · exact absurd h (by simp)
    · obtain ⟨-, rfl⟩ := Prod.mk.inj (Option.some.inj h)
      exact ⟨.modifyLoop x _ (by intro; rfl) (by intro; rfl), rfl, fun _ => rfl⟩
  · split at h
    · exact absurd h (by simp)
    · obtain ⟨-, rfl⟩ := Prod.mk.inj (Option.some.inj h)
      exact ⟨.modifyStrand x _ (by intro; rfl) (by intro; rfl), rfl, fun _ => rfl⟩

/-- Taking the pending deletes changes no registration. -/
theorem sameBooks_takePendingDeletes : SameBooks x (x.takePendingDeletes e).2 := by
  cases e with
  | loop t =>
      exact SameBooks.modifyLoop x t (f := fun l => { l with nodesToDelete := [] })
        (fun _ => rfl) fun _ => rfl
  | strand s =>
      exact SameBooks.modifyStrand x s (f := fun st => { st with pendingDeletes := [] })
        (fun _ => rfl) fun _ => rfl

/-- Taking the pending deletes creates no strand. -/
theorem sameStrands_takePendingDeletes : SameStrands x (x.takePendingDeletes e).2 := by
  cases e <;> exact ⟨rfl, fun _ => rfl⟩

end Executors

end SimplyNode
