import SimplyNode.Names

/-!
# Migration Requests and Their Tasks

The requests that move nodes, the tasks they post, and the deferred deletes, all as
operations that succeed and keep the state consistent. `Consistent` adds to `Sound` that the
free strands of the pools exist, so that a node never moves to a strand that is created
later, and that the nodes captured by posted tasks can be relied on.

## Main results

* `Consistent.treeOp`: the tree operations.
* `Consistent.moveSubtree`: moving a root, or a node that is there already.
* `Consistent.moveToThread`, `Consistent.moveToTaskPool`, `Consistent.deleteLater`: the
  requests.
* `Consistent.timerCall`, `Consistent.dispatchTimeout`: timers.
* `Consistent.runNextTask`: the tasks, also the forwarded and the dropped ones.
* `Consistent.runPendingDeletes`, `Consistent.finishDrain`: the rest of a drain.
-/

open PointerForest

namespace SimplyNode

namespace Executors

variable {x : Executors} {e : ExecutorId} {s : StrandId}

theorem sameStrands_scheduleStrand : SameStrands x (x.scheduleStrand s) := by
  unfold scheduleStrand
  split <;> rename_i hp
  · refine ⟨rfl, fun p' => ?_⟩
    unfold TaskPool.enqueueStrandDrain at hp
    split at hp
    · exact absurd hp (by simp)
    · obtain rfl := Option.some.inj hp
      by_cases hp' : p' = (x.strands s).pool
      · subst hp'
        simp [Executors.modifyPool]
      · simp [Executors.modifyPool, hp']
  · exact ⟨rfl, fun _ => rfl⟩

theorem sameStrands_post {t : Task} : SameStrands x (x.post e t) := by
  cases e with
  | loop th => exact ⟨rfl, fun _ => rfl⟩
  | strand s =>
      simp only [post, postStrand]
      split
      · exact .refl x
      · split
        · exact ⟨rfl, fun _ => rfl⟩
        · have hq : SameStrands x (x.modifyStrand s fun st =>
              { st with queue := st.queue ++ [t], scheduled := true }) := ⟨rfl, fun _ => rfl⟩
          exact hq.trans sameStrands_scheduleStrand

theorem sameStrands_enqueueDelete {a : Addr} : SameStrands x (x.enqueueDelete e a) := by
  cases e <;> exact ⟨rfl, fun _ => rfl⟩

end Executors

/-! ### Roots -/

namespace World

variable {w : World} {a x : Addr}

/-- A root has no one to leave. -/
theorem heap_unlink_of_root (hp : w.heap.parentOf a = none) : (w.unlink a).heap = w.heap := by
  rw [unlink]
  split
  · rfl
  · rename_i n hn
    have hnp : n.parent = none := by simpa [Heap.parentOf, hn] using hp
    rw [hnp]
    split <;> rfl

/-- The nodes of the subtree of a root. -/
def subtree (w : World) (a : Addr) : List Addr :=
  preorder w.heap.childrenOf w.heap.nextGeneration a

/-- The subtree of a root is a finite tree. -/
theorem bounded_of_root (hn : w.heap.Named) (hl : w.heap.Linked) (ha : w.heap.Live a)
    (hp : w.heap.parentOf a = none) :
    Bounded w.heap.childrenOf w.heap.nextGeneration a ∧ (w.subtree a).Nodup := by
  have hb := bounded_unlink hn hl ha
  have hnd := nodup_doomed hl ha
  rw [heap_unlink_of_root hp] at hb
  rw [doomed, heap_unlink_of_root hp] at hnd
  exact ⟨hb, hnd⟩

theorem mem_subtree_iff (hn : w.heap.Named) (hl : w.heap.Linked) (ha : w.heap.Live a)
    (hp : w.heap.parentOf a = none) : x ∈ w.subtree a ↔ Below w.heap.childrenOf a x :=
  mem_preorder_iff (bounded_of_root hn hl ha hp).1

/-- The nodes below `a`, and no others, have the owner `e`; no object has changed. -/
structure Moved (w w' : World) (a : Addr) (e : ExecutorId) : Prop where
  mem : w'.heap.mem = w.heap.mem
  inside : ∀ x, Below w.heap.childrenOf a x → w'.heap.ownerOf x = some e
  outside : ∀ x, ¬ Below w.heap.childrenOf a x → w'.heap.ownerOf x = w.heap.ownerOf x
  queues : Executors.NothingQueued w.execs w'.execs

end World

/-- The invariant of all operations. -/
structure Consistent (w : World) : Prop where
  sound : Sound w
  free_lt : ∀ p s, s ∈ (w.execs.pools p).freeStrands → s < w.execs.nextStrand
  names : ∀ e t, t ∈ w.execs.tasks e → t.Names w.heap

namespace Consistent

variable {w : World} {a : Addr} {e target : ExecutorId} {s : StrandId}

/-- From one sound state to another, with nothing new in the queues. -/
theorem step (hc : Consistent w) {w' : World} (hsound : Sound w')
    (hs : Executors.SameStrands w.execs w'.execs) (hk : Heap.KeepsNames w.heap w'.heap)
    (hq : Executors.NothingQueued w.execs w'.execs) : Consistent w' where
  sound := hsound
  free_lt p s hmem := by
    rw [hs.freeStrands] at hmem
    rw [hs.nextStrand]
    exact hc.free_lt p s hmem
  names e t ht := (hc.names e t (hq.tasks e ht)).keeps hk

/-- The executors may change in everything but their books, with nothing new queued. -/
theorem sameBooks (hc : Consistent w) {x : Executors} (hb : Executors.SameBooks w.execs x)
    (hs : Executors.SameStrands w.execs x) (hq : Executors.NothingQueued w.execs x) :
    Consistent (w.withExecs x) :=
  hc.step (hc.sound.sameBooks hb (Nat.le_of_eq hs.nextStrand.symm)) hs (.refl _) hq

/-- All nodes of the subtree of a root have its owner. -/
theorem ownerOf_of_below (hs : Sound w) {x : Addr} (hx : Below w.heap.childrenOf a x) :
    w.heap.ownerOf x = w.heap.ownerOf a := by
  induction hx with
  | refl => rfl
  | tail _ hc ih => exact (hs.affine _ _ ((hs.linked.mem_childrenOf _ _).mp hc)).trans ih

/-- A node that is with the target already stays. -/
theorem moveSubtree_self (hc : Consistent w) {target : ExecutorId} (ha : w.heap.Live a)
    (howner : w.heap.ownerOf a = some target) :
    w.moveSubtree a target = .ok w ∧ w.Moved w a target := by
  have hn := hc.sound.named
  obtain ⟨m, hm⟩ := Option.isSome_iff_exists.mp ha
  have hexec : w.heap.ownerExecutor m = some target :=
    (Heap.ownerOf_of_mem hm).symm.trans howner
  refine ⟨?_,
    { mem := rfl
      inside := fun x hx => (ownerOf_of_below hc.sound hx).trans howner
      outside := fun x _ => rfl
      queues := .refl _ }⟩
  have hgen : 0 < w.heap.nextGeneration :=
    Nat.lt_of_le_of_lt (Nat.zero_le _) (hn.gen_lt a m.generation (by simp [Heap.generationOf, hm]))
  obtain ⟨k, hk⟩ : ∃ k, w.heap.nextGeneration = k + 1 := ⟨_, (Nat.succ_pred_eq_of_pos hgen).symm⟩
  rw [World.moveSubtree]
  rw [hk]
  rw [World.applyMoveTo]
  rw [Heap.node_of_mem hm]
  simp only [Outcome.ok_bind]
  rw [hexec, if_pos rfl]
  rfl

/-- A child is in the tree of a root exactly if its parent is. -/
theorem mem_subtree_parent_iff (hc : Consistent w) (ha : w.heap.Live a)
    (hp : w.heap.parentOf a = none) {c p : Addr} (hcp : w.heap.parentOf c = some p) :
    c ∈ w.subtree a ↔ p ∈ w.subtree a := by
  have hl := hc.sound.linked
  have hmem := fun x => World.mem_subtree_iff (x := x) hc.sound.named hl ha hp
  rw [hmem, hmem]
  constructor
  · intro hx
    have hca : c ≠ a := by
      rintro rfl
      rw [hp] at hcp
      exact absurd hcp (by simp)
    obtain ⟨q, hq, hcq⟩ := Below.owner hx hca
    exact hl.one_owner p q c ((hl.mem_childrenOf p c).mpr hcp) hcq ▸ hq
  · exact fun hx => hx.tail ((hl.mem_childrenOf p c).mpr hcp)

/-- A root takes its whole tree along. -/
theorem moveSubtree_root (hc : Consistent w) {target old : ExecutorId} (ha : w.heap.Live a)
    (hp : w.heap.parentOf a = none) (hold : w.heap.ownerOf a = some old) (hne : old ≠ target)
    (ht : ∀ s, target = .strand s → s < w.execs.nextStrand) :
    ∃ w', w.moveSubtree a target = .ok w' ∧ Consistent w' ∧
      w'.execs.nextStrand = w.execs.nextStrand ∧ w.Moved w' a target := by
  have hn := hc.sound.named
  have hl := hc.sound.linked
  have hmem := fun x => World.mem_subtree_iff (x := x) hn hl ha hp
  obtain ⟨hbound, hnd⟩ := World.bounded_of_root hn hl ha hp
  have hownS : ∀ x ∈ w.subtree a, w.heap.ownerOf x = some old := fun x hx =>
    (ownerOf_of_below hc.sound ((hmem x).mp hx)).trans hold
  obtain ⟨w', hw', hmig⟩ := World.applyMoveTo_spec hne _ w a hn
    hc.sound.balanced hbound hnd hownS
  have hmig : World.Migrated w w' (w.subtree a) target := hmig
  have hown : ∀ x, w'.heap.ownerOf x =
      if x ∈ w.subtree a then some target else w.heap.ownerOf x := fun x => by
    rw [hmig.heap, Heap.ownerOf_reowned hn fun hx => Heap.live_of_ownerOf (hownS x hx)]
  have hpar : w'.heap.parentOf = w.heap.parentOf := by rw [hmig.heap]; rfl
  have hmoved : w.Moved w' a target :=
    { mem := by rw [hmig.heap]; rfl
      inside := fun x hx => by rw [hown, if_pos ((hmem x).mpr hx)]
      outside := fun x hx => by rw [hown, if_neg fun h => hx ((hmem x).mp h)]
      queues := World.nothingQueued_applyMoveTo hw' }
  refine ⟨w', hw', hc.step ?_ hmig.strands ?_ hmoved.queues, hmig.strands.nextStrand, hmoved⟩
  · exact
      { named := hmig.heap ▸ hn.reowned
        linked := hl.congr_mem (by rw [hmig.heap]; rfl)
        affine := fun c p hcp => by
          rw [hpar] at hcp
          simp only [hown, hc.mem_subtree_parent_iff ha hp hcp, hc.sound.affine c p hcp]
        balanced := hmig.balanced
        strand_lt := fun x s hs => by
          rw [hown] at hs
          rw [hmig.strands.nextStrand]
          split at hs
          · exact ht s (Option.some.inj hs)
          · exact hc.sound.strand_lt x s hs }
  · rw [hmig.heap]
    exact .reowned

/-- **Moving a subtree.** A root takes its whole tree along; a node that is with the target
already stays. -/
theorem moveSubtree (hc : Consistent w) (target : ExecutorId) (ha : w.heap.Live a)
    (hok : w.heap.parentOf a = none ∨ w.heap.ownerOf a = some target)
    (ht : ∀ s, target = .strand s → s < w.execs.nextStrand) :
    ∃ w', w.moveSubtree a target = .ok w' ∧ Consistent w' ∧
      w'.execs.nextStrand = w.execs.nextStrand ∧ w.Moved w' a target ∧
      (w.heap.ownerOf a = some target → w' = w) := by
  obtain ⟨old, hold⟩ := Option.isSome_iff_exists.mp (hc.sound.named.owned a ha)
  by_cases hne : old = target
  · subst hne
    obtain ⟨hw, hmoved⟩ := hc.moveSubtree_self ha hold
    exact ⟨w, hw, hc, rfl, hmoved, fun _ => rfl⟩
  · have howner : ¬ w.heap.ownerOf a = some target := fun h =>
      hne (Option.some.inj (hold.symm.trans h))
    obtain ⟨w', hw', hc', hnext, hmoved⟩ :=
      hc.moveSubtree_root ha (hok.resolve_right howner) hold hne ht
    exact ⟨w', hw', hc', hnext, hmoved, fun h => absurd h howner⟩

/-! ### Requests and tasks -/

/-- What the check of the parent's thread says. -/
theorem parentOnThread_spec (hs : Sound w) {n : Node} (hm : w.heap.mem a = some n)
    (t : ThreadId) : ∃ b, w.parentOnThread n t = .ok b ∧
      (b = true → w.heap.parentOf a = none ∨ w.heap.ownerOf a = some (.loop t)) := by
  have hpar : w.heap.parentOf a = n.parent := by simp [Heap.parentOf, hm]
  unfold World.parentOnThread
  cases hnp : n.parent with
  | none => exact ⟨true, rfl, fun _ => Or.inl (hpar.trans hnp)⟩
  | some p =>
      have hp : w.heap.parentOf a = some p := hpar.trans hnp
      obtain ⟨k, hk⟩ := Option.isSome_iff_exists.mp (hs.linked.live_parent hp)
      refine ⟨w.ownerThreadId k == some t, ?_, fun hb => Or.inr ?_⟩
      · simp only [Heap.node_of_mem hk, Outcome.ok_bind, Outcome.pure_eq]
      · have howner : w.heap.ownerExecutor k = some (.loop t) := by
          unfold World.ownerThreadId at hb
          split at hb
          · rename_i t' ho
            obtain rfl : t' = t := by simpa using hb
            exact ho
          · exact absurd hb (by simp)
        rw [hs.affine a p hp]
        exact (Heap.ownerOf_of_mem hk).trans howner

/-- A task that captures a node by its own block is posted. -/
theorem post (hc : Consistent w) (e : ExecutorId) {t : Task} (ht : t.Names w.heap) :
    Consistent (w.withExecs (w.execs.post e t)) where
  sound := hc.sound.sameBooks Executors.sameBooks_post
    (Nat.le_of_eq Executors.sameStrands_post.nextStrand.symm)
  free_lt p s hmem := by
    rw [World.execs_withExecs, Executors.sameStrands_post.freeStrands] at hmem
    rw [World.execs_withExecs, Executors.sameStrands_post.nextStrand]
    exact hc.free_lt p s hmem
  names e' t' ht' := by
    rcases Executors.mem_tasks_post ht' with rfl | hmem
    · exact ht
    · exact hc.names e' t' hmem

/-- A node is queued for deletion. -/
theorem enqueueDelete (hc : Consistent w) (e : ExecutorId) (a : Addr) :
    Consistent (w.withExecs (w.execs.enqueueDelete e a)) where
  sound := hc.sound.sameBooks Executors.sameBooks_enqueueDelete
    (Nat.le_of_eq Executors.sameStrands_enqueueDelete.nextStrand.symm)
  free_lt p s hmem := by
    rw [World.execs_withExecs, Executors.sameStrands_enqueueDelete.freeStrands] at hmem
    rw [World.execs_withExecs, Executors.sameStrands_enqueueDelete.nextStrand]
    exact hc.free_lt p s hmem
  names e' t ht := by
    rw [World.execs_withExecs, Executors.tasks_enqueueDelete] at ht
    exact hc.names e' t ht

/-- `moveToThread`. -/
theorem moveToThread (hc : Consistent w) (ctx : CallContext) (ha : w.heap.Live a)
    (t : ThreadId) : ∃ b w', w.moveToThread ctx a t = .ok (b, w') ∧ Consistent w' := by
  obtain ⟨n, hm⟩ := Option.isSome_iff_exists.mp ha
  rw [World.moveToThread]
  split
  · exact ⟨false, w, rfl, hc⟩
  · rw [Heap.node_of_mem hm]
    simp only [Outcome.ok_bind]
    split
    · exact ⟨false, w, rfl, hc⟩
    · rename_i owner _
      obtain ⟨b, hb, hok⟩ := parentOnThread_spec hc.sound hm t
      rw [hb]
      simp only [Outcome.ok_bind]
      cases b with
      | false => exact ⟨false, w, rfl, hc⟩
      | true =>
          rw [Bool.not_true, if_neg Bool.false_ne_true]
          split
          · obtain ⟨w', hw', hc', -⟩ := hc.moveSubtree (.loop t) ha (hok rfl)
              (fun s hs => absurd hs (by simp))
            exact ⟨true, w', by rw [hw']; rfl, hc'⟩
          · exact ⟨true, _, rfl, hc.post owner (hc.sound.named.names hm)⟩

/-- What the task of `moveToThread` applies. -/
theorem applyMoveToThread (hc : Consistent w) (ha : w.heap.Live a) (t : ThreadId) :
    ∃ w', w.applyMoveToThread a t = .ok w' ∧ Consistent w' := by
  obtain ⟨n, hm⟩ := Option.isSome_iff_exists.mp ha
  obtain ⟨b, hb, hok⟩ := parentOnThread_spec hc.sound hm t
  rw [World.applyMoveToThread]
  rw [Heap.node_of_mem hm]
  simp only [Outcome.ok_bind]
  rw [hb]
  simp only [Outcome.ok_bind]
  split <;> rename_i hcond
  · exact ⟨w, rfl, hc⟩
  · have hbt : b = true := by
      cases b
      · exact absurd hcond (by simp)
      · rfl
    obtain ⟨w', hw', hc', -⟩ :=
      hc.moveSubtree (.loop t) ha (hok hbt) fun s hs => absurd hs (by simp)
    exact ⟨w', hw', hc'⟩

/-- The search for a node that needs an event loop ends, below a root. -/
theorem subtreeRequiresEventLoop_ok {h : Heap} {n : ℕ} {a : Addr}
    (hb : Bounded h.childrenOf n a) (hlive : ∀ x ∈ preorder h.childrenOf n a, h.Live x) :
    ∃ b, World.subtreeRequiresEventLoop n h a = .ok b := by
  induction n generalizing a with
  | zero => exact hb.elim
  | succ n ih =>
      obtain ⟨m, hm⟩ := Option.isSome_iff_exists.mp (hlive a List.mem_cons_self)
      have hkids : h.childrenOf a = m.children.live := Heap.childrenOf_of_mem hm
      rw [World.subtreeRequiresEventLoop]
      rw [Heap.node_of_mem hm]
      simp only [Outcome.ok_bind]
      split
      · exact ⟨true, rfl⟩
      · have hall : ∀ c ∈ m.children.live,
            ∃ b, World.subtreeRequiresEventLoop n h c = .ok b := fun c hc => by
          rw [← hkids] at hc
          exact ih (hb c hc) fun x hx => hlive x
            (List.mem_cons_of_mem _ (List.mem_flatMap.mpr ⟨c, hc, hx⟩))
        generalize m.children.live = l at hall
        induction l with
        | nil => exact ⟨false, rfl⟩
        | cons c l ihl =>
            obtain ⟨b, hcb⟩ := hall c List.mem_cons_self
            obtain ⟨b', hb'⟩ := ihl fun d hd => hall d (List.mem_cons_of_mem _ hd)
            rw [List.anyM, hcb]
            cases b
            · exact ⟨b', hb'⟩
            · exact ⟨true, rfl⟩

/-- Nothing is owned by a strand that does not exist yet. -/
theorem registers_fresh (hc : Consistent w) :
    w.execs.Registers (.strand w.execs.nextStrand) [] ∧
      w.execs.rootNodes (.strand w.execs.nextStrand) = [] := by
  have hno : ∀ x, w.heap.ownerOf x ≠ some (.strand w.execs.nextStrand) := fun x hx =>
    absurd (hc.sound.strand_lt x _ hx) (Nat.lt_irrefl _)
  obtain ⟨l, -, hl, hreg⟩ := hc.sound.balanced.nodes (.strand w.execs.nextStrand)
  obtain rfl : l = [] := List.eq_nil_iff_forall_not_mem.mpr fun x hx => hno x ((hl x).mp hx)
  refine ⟨hreg, List.eq_nil_iff_forall_not_mem.mpr fun x hx => ?_⟩
  exact hno x ((hc.sound.balanced.roots _ x).mp hx).2

/-- A strand that is taken from the pool, or created for the caller. -/
theorem acquireStrand (hc : Consistent w) {p : PoolId} {x : Executors}
    (h : w.execs.acquireStrand p = some (s, x)) :
    Consistent (w.withExecs x) ∧ s < x.nextStrand := by
  have hnames : ∀ e t, t ∈ x.tasks e → t.Names w.heap := fun e t ht =>
    hc.names e t ((Executors.nothingQueued_acquireStrand h).tasks e ht)
  unfold Executors.acquireStrand at h
  split at h
  · exact absurd h (by simp)
  · split at h
    · rename_i s' hfree
      obtain ⟨rfl, rfl⟩ := Prod.mk.inj (Option.some.inj h)
      have hmem : s' ∈ (w.execs.pools p).freeStrands := List.mem_of_getLast? hfree
      refine ⟨⟨hc.sound.sameBooks ?_ (Nat.le_refl _), fun q s hs => ?_, hnames⟩,
        hc.free_lt p s' hmem⟩
      · exact (Executors.SameBooks.modifyPool _ p _).trans
          (.modifyStrand _ s' (by intro; rfl) (by intro; rfl))
      · refine hc.free_lt q s ?_
        by_cases hq : q = p
        · subst hq
          have hs' : s ∈ (w.execs.pools q).freeStrands.dropLast := by
            simpa [Executors.modifyStrand, Executors.modifyPool] using hs
          exact (List.dropLast_sublist _).mem hs'
        · simpa [Executors.modifyStrand, Executors.modifyPool, hq] using hs
    · obtain ⟨rfl, rfl⟩ := Prod.mk.inj (Option.some.inj h)
      obtain ⟨hreg, hroots⟩ := hc.registers_fresh
      refine ⟨⟨hc.sound.sameBooks ?_ (Nat.le_succ _), fun q s hs => ?_, hnames⟩,
        Nat.lt_succ_self _⟩
      · refine ⟨fun _ => rfl, fun s' => ?_, fun e => ?_⟩
        · by_cases hs' : s' = w.execs.nextStrand
          · subst hs'
            simpa [Executors.modifyStrand, Executors.Registers] using hreg.symm
          · simp [Executors.modifyStrand, Executors.modifyPool, hs']
        · cases e with
          | loop t => rfl
          | strand s' =>
              by_cases hs' : s' = w.execs.nextStrand
              · subst hs'
                simpa [Executors.modifyStrand, Executors.rootNodes] using hroots.symm
              · simp [Executors.modifyStrand, Executors.modifyPool, Executors.rootNodes, hs']
      · refine Nat.lt_succ_of_lt (hc.free_lt q s ?_)
        by_cases hq : q = p
        · subst hq
          simpa [Executors.modifyStrand, Executors.modifyPool] using hs
        · simpa [Executors.modifyStrand, Executors.modifyPool, hq] using hs

/-- A strand goes back to its pool. -/
theorem recycleStrandIfIdle (hc : Consistent w) (hs : s < w.execs.nextStrand) :
    Consistent (w.withExecs (w.execs.recycleStrandIfIdle s)) where
  sound := hc.sound.sameBooks Executors.sameBooks_recycleStrandIfIdle <| by
    rw [Executors.recycleStrandIfIdle]
    split
    · exact Nat.le_refl _
    · exact Nat.le_refl _
  free_lt p s' hs' := by
    rw [Executors.recycleStrandIfIdle] at hs' ⊢
    split at hs' <;> rename_i hr
    · rw [if_pos hr]
      by_cases hp : p = (w.execs.strands s).pool
      · subst hp
        have hmem : s' ∈ (w.execs.pools (w.execs.strands s).pool).freeStrands ∨ s' = s := by
          simpa [Executors.modifyPool, Executors.modifyStrand] using hs'
        rcases hmem with h | rfl
        · exact hc.free_lt _ s' h
        · exact hs
      · exact hc.free_lt p s' (by
          simpa [Executors.modifyPool, Executors.modifyStrand, hp] using hs')
    · rw [if_neg hr]
      exact hc.free_lt p s' hs'
  names e t ht := hc.names e t (Executors.nothingQueued_recycleStrandIfIdle.tasks e ht)

/-- A change of one strand that keeps its books. -/
theorem modifyStrand (hc : Consistent w) (s : StrandId) {f : Strand → Strand}
    (hn : ∀ st, (f st).nodeCount = st.nodeCount)
    (hr : ∀ st, (f st).rootNodes = st.rootNodes)
    (ht : ∀ st, (f st).queue ⊆ st.queue)
    (hd : ∀ st, (f st).pendingDeletes ⊆ st.pendingDeletes) :
    Consistent (w.withExecs (w.execs.modifyStrand s f)) :=
  hc.sameBooks (.modifyStrand _ s hn hr) ⟨rfl, fun _ => rfl⟩ (.modifyStrand _ s ht hd)

/-- The end of a drain. -/
theorem finishDrain (hc : Consistent w) (hs : s < w.execs.nextStrand) :
    Consistent (w.withExecs (w.execs.finishDrain s)) := by
  rw [Executors.finishDrain]
  split
  · have hoff := hc.modifyStrand s (f := fun st => { st with scheduled := false })
      (fun _ => rfl) (fun _ => rfl) (fun _ => List.Subset.refl _) fun _ => List.Subset.refl _
    exact hoff.recycleStrandIfIdle hs
  · exact hc.sameBooks Executors.sameBooks_scheduleStrand Executors.sameStrands_scheduleStrand
      Executors.nothingQueued_scheduleStrand

/-- `applyMoveToTaskPool`. -/
theorem applyMoveToTaskPool (hc : Consistent w) (ha : w.heap.Live a) (p : PoolId) :
    ∃ b w', w.applyMoveToTaskPool a p = .ok (b, w') ∧ Consistent w' := by
  obtain ⟨n, hm⟩ := Option.isSome_iff_exists.mp ha
  have hpar : w.heap.parentOf a = n.parent := by simp [Heap.parentOf, hm]
  rw [World.applyMoveToTaskPool]
  rw [Heap.node_of_mem hm]
  simp only [Outcome.ok_bind]
  split <;> rename_i hroot
  · exact ⟨false, w, rfl, hc⟩
  · have hp : w.heap.parentOf a = none := by
      rw [hpar]
      simpa using hroot
    have hn := hc.sound.named
    have hl := hc.sound.linked
    obtain ⟨b, hb⟩ := subtreeRequiresEventLoop_ok (World.bounded_of_root hn hl ha hp).1
      fun x hx => hl.live_below ha ((World.mem_subtree_iff hn hl ha hp).mp hx)
    rw [hb]
    simp only [Outcome.ok_bind]
    split
    · exact ⟨false, w, rfl, hc⟩
    · split
      · exact ⟨true, w, rfl, hc⟩
      · split
        · exact ⟨false, w, rfl, hc⟩
        · rename_i s x hs
          obtain ⟨hcx, hlt⟩ := hc.acquireStrand hs
          obtain ⟨w', hw', hc', hnext, -⟩ := hcx.moveSubtree (.strand s) ha
            (Or.inl hp) fun s' hs' => ExecutorId.strand.inj hs' ▸ hlt
          refine ⟨true, _, by rw [hw']; rfl, ?_⟩
          have hfree := hc'.modifyStrand s (f := fun st => { st with reserved := false })
            (fun _ => rfl) (fun _ => rfl) (fun _ => List.Subset.refl _) fun _ => List.Subset.refl _
          exact hfree.recycleStrandIfIdle
            (Nat.lt_of_lt_of_le hlt (Nat.le_of_eq hnext.symm))

/-- `moveToTaskPool`. -/
theorem moveToTaskPool (hc : Consistent w) (ctx : CallContext) (ha : w.heap.Live a)
    (p : PoolId) : ∃ b w', w.moveToTaskPool ctx a p = .ok (b, w') ∧ Consistent w' := by
  obtain ⟨n, hm⟩ := Option.isSome_iff_exists.mp ha
  obtain ⟨owner, ho⟩ := Option.isSome_iff_exists.mp (hc.sound.named.owned a ha)
  have hexec : w.heap.ownerExecutor n = some owner := (Heap.ownerOf_of_mem hm).symm.trans ho
  rw [World.moveToTaskPool]
  split
  · exact ⟨false, w, rfl, hc⟩
  · rw [Heap.node_of_mem hm]
    simp only [Outcome.ok_bind]
    rw [hexec]
    dsimp only
    split
    · exact hc.applyMoveToTaskPool ha p
    · exact ⟨true, _, rfl, hc.post owner (hc.sound.named.names hm)⟩

/-! ### Timers -/

/-- Marks and queues of children to delete. -/
theorem sameTree (hc : Consistent w) {h : Heap} (hs : Heap.SameTree w.heap h) :
    Consistent (w.withHeap h) :=
  hc.step
    { named := hs.named hc.sound.named
      linked := hs.linked hc.sound.linked
      affine := fun c p hp => by
        rw [World.heap_withHeap] at hp ⊢
        rw [hs.parentOf] at hp
        rw [hs.ownerOf, hs.ownerOf]
        exact hc.sound.affine c p hp
      balanced := hc.sound.balanced.congr hs.ownerOf hs.isRoot
      strand_lt := fun x s hx => by
        rw [World.heap_withHeap, hs.ownerOf] at hx
        exact hc.sound.strand_lt x s hx }
    (.refl _) (.sameTree hs) (.refl _)

/-- A timer is armed with an executor. -/
theorem armTimer (hc : Consistent w) (o : Option ExecutorId) (a : Addr) (t : TimerState) :
    Consistent (w.armTimer o a t) :=
  hc.sameBooks Executors.sameBooks_scheduleTimerWith Executors.sameStrands_scheduleTimerWith
    Executors.nothingQueued_scheduleTimerWith

/-- A timer has another state. -/
theorem setTimer (hc : Consistent w) (a : Addr) (t : TimerState) :
    Consistent (w.setTimer a t) :=
  hc.sameTree (.setTimer w a t)

/-- What the member functions of `Timer` do inside the owner. -/
theorem applyTimerCall (hc : Consistent w) (o : Option ExecutorId) (a : Addr) (t : TimerState)
    (call : TimerCall) : Consistent (w.applyTimerCall o a t call) := by
  cases call with
  | start => exact (hc.setTimer a _).armTimer o a _
  | startWith interval => exact (hc.setTimer a _).armTimer o a _
  | stop =>
      exact (hc.setTimer a t.stopped).sameBooks Executors.sameBooks_cancelTimerWith
        Executors.sameStrands_cancelTimerWith Executors.nothingQueued_cancelTimerWith
  | setInterval interval =>
      simp only [World.applyTimerCall]
      split
      · exact (hc.setTimer a _).armTimer o a _
      · exact hc.setTimer a _
  | setSingleShot singleShot => exact hc.setTimer a _

/-- A member function of `Timer`. -/
theorem timerCall (hc : Consistent w) (ctx : CallContext) (ha : w.heap.Live a)
    (call : TimerCall) : ∃ w', w.timerCall ctx a call = .ok w' ∧ Consistent w' := by
  obtain ⟨n, hm⟩ := Option.isSome_iff_exists.mp ha
  rw [World.timerCall]
  rw [Heap.node_of_mem hm]
  simp only [Outcome.ok_bind]
  split
  · split
    · split
      · exact ⟨_, rfl, hc.applyTimerCall _ a _ call⟩
      · exact ⟨_, rfl, hc.post _ (hc.sound.named.namesPtr a)⟩
    · exact ⟨_, rfl, hc.applyTimerCall _ a _ call⟩
  · exact ⟨w, rfl, hc⟩

/-- `dispatchTimeout`. -/
theorem dispatchTimeout (hc : Consistent w) (ha : w.heap.Live a) (g : ℕ) :
    ∃ b w', w.dispatchTimeout a g = .ok (b, w') ∧ Consistent w' := by
  obtain ⟨n, hm⟩ := Option.isSome_iff_exists.mp ha
  rw [World.dispatchTimeout]
  rw [Heap.node_of_mem hm]
  simp only [Outcome.ok_bind]
  split
  · split
    · exact ⟨false, w, rfl, hc⟩
    · split
      · exact ⟨true, _, rfl, hc.setTimer a _⟩
      · exact ⟨true, _, rfl, (hc.setTimer a _).armTimer _ a _⟩
  · exact ⟨false, w, rfl, hc⟩

/-! ### Tasks -/

/-- The node of a block that says alive. -/
theorem live_of_names {h : Heap} {g : Generation} (hn : h.Names a g)
    (hg : (h.blocks g).alive = true) : h.Live a :=
  Heap.live_iff_generationOf.mpr ⟨g, hn.2 hg⟩

/-- The task of `postMoveToOwner` runs what it is to apply on a live node, if at all. -/
theorem runMoveTask (hc : Consistent w) (e : ExecutorId) {g : Generation} {t : Task}
    (apply : World → Outcome World) (hn : w.heap.Names a g) (ht : t.Names w.heap)
    (happly : w.heap.Live a → ∃ w', apply w = .ok w' ∧ Consistent w') :
    ∃ w', w.runMoveTask e g t apply = .ok w' ∧ Consistent w' := by
  rw [World.runMoveTask]
  split <;> rename_i hdead
  · exact ⟨w, rfl, hc⟩
  · have hlive : w.heap.Live a := live_of_names hn (by simpa using hdead)
    split
    · split
      · exact ⟨_, rfl, hc.post _ ht⟩
      · exact happly hlive
    · exact happly hlive

/-- A `NodePtr` that says alive points to a live node. -/
theorem live_of_isAlive {h : Heap} {p : NodePtr} (hn : h.NamesPtr p)
    (hp : h.isAlive p = true) : h.Live p.node := by
  unfold Heap.isAlive at hp
  cases hb : p.block with
  | none => simp [hb] at hp
  | some g =>
      rw [hb] at hp
      exact live_of_names (hn g hb) hp

/-- The task of a member function of `Timer`. -/
theorem runTimerTask (hc : Consistent w) (e : ExecutorId) {p : NodePtr}
    (hp : w.heap.NamesPtr p) (c : TimerCall) :
    ∃ w', w.runTimerTask e p c = .ok w' ∧ Consistent w' := by
  rw [World.runTimerTask]
  split <;> rename_i halive
  · exact ⟨w, rfl, hc⟩
  · have hlive : w.heap.Live p.node := live_of_isAlive hp (by simpa using halive)
    split
    · split
      · exact ⟨_, rfl, hc.post _ (hc.sound.named.namesPtr p.node)⟩
      · exact hc.timerCall _ hlive c
    · exact hc.timerCall _ hlive c

/-- The task of `TimerService::run`. -/
theorem runTimeoutTask (hc : Consistent w) (e : ExecutorId) {p : NodePtr}
    (hp : w.heap.NamesPtr p) (g : ℕ) :
    ∃ w', w.runTimeoutTask e p g = .ok w' ∧ Consistent w' := by
  rw [World.runTimeoutTask]
  split <;> rename_i halive
  · have halive := (Bool.and_eq_true_iff.mp halive).1
    obtain ⟨b, w', hw', hc'⟩ := hc.dispatchTimeout (live_of_isAlive hp halive) g
    exact ⟨w', by rw [hw']; rfl, hc'⟩
  · exact ⟨w, rfl, hc⟩

/-- **A posted task** succeeds: it is dropped, forwarded or applied. -/
theorem runTask (hc : Consistent w) (e : ExecutorId) {t : Task} (ht : t.Names w.heap) :
    ∃ w', w.runTask e t = .ok w' ∧ Consistent w' := by
  cases t with
  | deleteNode a g =>
      refine ⟨_, rfl, ?_⟩
      rw [World.runDeleteTask]
      split
      · exact hc
      · split
        · split
          · exact hc.post _ ht
          · exact hc.enqueueDelete e a
        · exact hc.enqueueDelete e a
  | moveToThread a g target =>
      exact hc.runMoveTask e (fun w => w.applyMoveToThread a target) ht ht
        fun hlive => hc.applyMoveToThread hlive target
  | moveToTaskPool a g pool =>
      rw [World.runTask]
      refine hc.runMoveTask e _ ht ht fun hlive => ?_
      obtain ⟨b, w', hw', hc'⟩ := hc.applyMoveToTaskPool hlive pool
      exact ⟨w', by rw [hw']; rfl, hc'⟩
  | slot a g c =>
      refine ⟨_, rfl, ?_⟩
      rw [World.runSlotTask]
      split
      · exact hc
      · split
        · split
          · exact hc.post _ ht
          · exact hc
        · exact hc
  | timer p c => exact hc.runTimerTask e ht c
  | timeout p g => exact hc.runTimeoutTask e ht g
  | call id => exact ⟨w, rfl, hc⟩

/-- The next task of an executor. -/
theorem runNextTask (hc : Consistent w) (e : ExecutorId) :
    ∃ w', w.runNextTask e = .ok w' ∧ Consistent w' := by
  rw [World.runNextTask]
  split
  · exact ⟨w, rfl, hc⟩
  · rename_i t x hpop
    obtain ⟨hb, hs⟩ := Executors.sameBooks_popTask hpop
    obtain ⟨hq, hmem⟩ := Executors.nothingQueued_popTask hpop
    exact (hc.sameBooks hb hs hq).runTask e (hc.names e t hmem)

/-! ### Deferred deletes -/

/-- `deleteLater`. -/
theorem deleteLater (hc : Consistent w) (ctx : CallContext) (ha : w.heap.Live a) :
    ∃ w', w.deleteLater ctx a = .ok w' ∧ Consistent w' := by
  obtain ⟨n, hm⟩ := Option.isSome_iff_exists.mp ha
  have hpar : w.heap.parentOf a = n.parent := by simp [Heap.parentOf, hm]
  obtain ⟨owner, ho⟩ := Option.isSome_iff_exists.mp (hc.sound.named.owned a ha)
  have hexec : w.heap.ownerExecutor n = some owner := (Heap.ownerOf_of_mem hm).symm.trans ho
  obtain ⟨k, hk⟩ := Option.isSome_iff_exists.mp ((hc.sound.named.aliveNodes a).mpr ha)
  set marked := w.heap.modifyBlock n.generation fun b => { b with markedForDelete := true }
    with hmarked
  obtain ⟨h, hmark⟩ : ∃ h, marked.markToDelete a = .ok h := by
    have hk' : marked.aliveNodes a = some k := hk
    rw [Heap.markToDelete]
    rw [hk']
    exact ⟨_, rfl⟩
  have hs : Heap.SameTree w.heap h :=
    (Heap.SameTree.mark w.heap n.generation).trans (.markToDelete hmark)
  have hch := hc.sameTree hs
  have hnames : (w.withHeap h).heap.Names a n.generation :=
    Heap.KeepsNames.sameTree hs a _ (hc.sound.named.names hm)
  rw [World.deleteLater]
  rw [Heap.node_of_mem hm]
  simp only [Outcome.ok_bind]
  rw [← hmarked, hmark, hexec]
  simp only [Outcome.ok_bind]
  split
  · exact ⟨_, rfl, hch.post owner hnames⟩
  · cases owner with
    | strand s => exact ⟨_, rfl, hch.enqueueDelete _ a⟩
    | loop t =>
        cases hp : n.parent with
        | none => exact ⟨_, rfl, hch.enqueueDelete _ a⟩
        | some p =>
            have hlive : h.Live p :=
              (hs.live p).mpr (hc.sound.linked.live_parent (hpar.trans hp))
            obtain ⟨h', hpush, hs'⟩ := Heap.SameTree.pushDeleteChild (c := a) hlive
            refine ⟨w.withHeap h', ?_, hc.sameTree (hs.trans hs')⟩
            simp only [World.heap_withHeap, hpush, Outcome.ok_bind]
            rfl

/-! ### The tree operations -/

/-- A successful tree operation between sound states. -/
theorem apply (hc : Consistent w) (ctx : CallContext) (op : TreeOp) {w' : World}
    (h : op.apply ctx w = .ok w') (hs : Sound w') : Consistent w' :=
  hc.step hs (TreeOp.sameStrands_apply hc.sound h) (TreeOp.keepsNames_apply hc.sound h)
    (TreeOp.nothingQueued_apply h)

/-- Deletion of a live node. -/
theorem delete (hc : Consistent w) (ha : w.heap.Live a) :
    ∃ w', w.delete a = .ok w' ∧ Consistent w' := by
  obtain ⟨w', hw', hs, -⟩ := hc.sound.delete ha
  exact ⟨w', hw', hc.apply (.onLoop 0) (.delete a) hw' hs⟩

/-- One entry of a list of pending deletes. -/
theorem deleteIfAlive (hc : Consistent w) (a : Addr) :
    ∃ w', w.deleteIfAlive a = .ok w' ∧ Consistent w' := by
  rw [World.deleteIfAlive]
  split <;> rename_i hlive
  · exact hc.delete ((hc.sound.named.isAlive_nodePtr a).mp hlive)
  · exact ⟨w, rfl, hc⟩

/-- A list of pending deletes. -/
theorem foldlM_deleteIfAlive (hc : Consistent w) (l : List Addr) :
    ∃ w', l.foldlM World.deleteIfAlive w = .ok w' ∧ Consistent w' := by
  induction l generalizing w with
  | nil => exact ⟨w, rfl, hc⟩
  | cons a l ih =>
      obtain ⟨u, hu, hcu⟩ := hc.deleteIfAlive a
      obtain ⟨w', hw', hc'⟩ := ih hcu
      exact ⟨w', by rw [List.foldlM_cons, hu]; exact hw', hc'⟩

/-- The pending deletes of an executor. -/
theorem runPendingDeletes (hc : Consistent w) (e : ExecutorId) :
    ∃ w', w.runPendingDeletes e = .ok w' ∧ Consistent w' :=
  (hc.sameBooks Executors.sameBooks_takePendingDeletes Executors.sameStrands_takePendingDeletes
    Executors.nothingQueued_takePendingDeletes).foldlM_deleteIfAlive _

end Consistent

end SimplyNode
