import SimplyNode.Deferred

/-!
# What Stays in the Queues

An executor's queues are its tasks and its pending deletes. Only `post` and `enqueueDelete`
put something in; `NothingQueued` is what all other operations have in common, and is proved
for each of them without an assumption about the state.

## Main results

* `nothingQueued_construct`, `nothingQueued_addChild`, `nothingQueued_setParent`,
  `nothingQueued_delete`: the tree operations.
* `nothingQueued_moveSubtree`: migration.
* `mem_tasks_post`, `mem_pendingDeletes_enqueueDelete`: what the two requests put in.
-/

namespace SimplyNode

namespace Executors

/-- The queues of `y` hold nothing that those of `x` do not hold. -/
structure NothingQueued (x y : Executors) : Prop where
  tasks : ∀ e, y.tasks e ⊆ x.tasks e
  pendingDeletes : ∀ e, y.pendingDeletes e ⊆ x.pendingDeletes e

variable {x y z : Executors} {e : ExecutorId} {o : Option ExecutorId} {a : Addr} {s : StrandId}

namespace NothingQueued

/-- Nothing is queued by doing nothing. -/
theorem refl (x : Executors) : NothingQueued x x :=
  ⟨fun _ => List.Subset.refl _, fun _ => List.Subset.refl _⟩

/-- Nothing is queued step by step. -/
theorem trans (h : NothingQueued x y) (h' : NothingQueued y z) : NothingQueued x z :=
  ⟨fun e => List.Subset.trans (h'.tasks e) (h.tasks e),
    fun e => List.Subset.trans (h'.pendingDeletes e) (h.pendingDeletes e)⟩

/-- A change of one loop. -/
theorem modifyLoop_at (x : Executors) (t : ThreadId) {f : EventLoop → EventLoop}
    (ht : (f (x.loops t)).tasks ⊆ (x.loops t).tasks)
    (hd : (f (x.loops t)).nodesToDelete ⊆ (x.loops t).nodesToDelete) :
    NothingQueued x (x.modifyLoop t f) := by
  have hloop : ∀ t', ((x.modifyLoop t f).loops t').tasks ⊆ (x.loops t').tasks ∧
      ((x.modifyLoop t f).loops t').nodesToDelete ⊆ (x.loops t').nodesToDelete := by
    intro t'
    by_cases h : t' = t
    · subst h
      simpa [Executors.modifyLoop] using ⟨ht, hd⟩
    · simp [Executors.modifyLoop, h]
  refine ⟨fun e => ?_, fun e => ?_⟩
  · cases e with
    | loop t' => exact (hloop t').1
    | strand s => exact List.Subset.refl _
  · cases e with
    | loop t' => exact (hloop t').2
    | strand s => exact List.Subset.refl _

/-- A change of a loop that adds no task and no pending delete. -/
theorem modifyLoop (x : Executors) (t : ThreadId) {f : EventLoop → EventLoop}
    (ht : ∀ l, (f l).tasks ⊆ l.tasks)
    (hd : ∀ l, (f l).nodesToDelete ⊆ l.nodesToDelete) : NothingQueued x (x.modifyLoop t f) :=
  modifyLoop_at x t (ht _) (hd _)

/-- A change of one strand. -/
theorem modifyStrand_at (x : Executors) (s : StrandId) {f : Strand → Strand}
    (ht : (f (x.strands s)).queue ⊆ (x.strands s).queue)
    (hd : (f (x.strands s)).pendingDeletes ⊆ (x.strands s).pendingDeletes) :
    NothingQueued x (x.modifyStrand s f) := by
  have hstrand : ∀ s', ((x.modifyStrand s f).strands s').queue ⊆ (x.strands s').queue ∧
      ((x.modifyStrand s f).strands s').pendingDeletes ⊆ (x.strands s').pendingDeletes := by
    intro s'
    by_cases h : s' = s
    · subst h
      simpa [Executors.modifyStrand] using ⟨ht, hd⟩
    · simp [Executors.modifyStrand, h]
  refine ⟨fun e => ?_, fun e => ?_⟩
  · cases e with
    | loop t => exact List.Subset.refl _
    | strand s' => exact (hstrand s').1
  · cases e with
    | loop t => exact List.Subset.refl _
    | strand s' => exact (hstrand s').2

/-- A change of a strand that adds no task and no pending delete. -/
theorem modifyStrand (x : Executors) (s : StrandId) {f : Strand → Strand}
    (ht : ∀ st, (f st).queue ⊆ st.queue)
    (hd : ∀ st, (f st).pendingDeletes ⊆ st.pendingDeletes) :
    NothingQueued x (x.modifyStrand s f) :=
  modifyStrand_at x s (ht _) (hd _)

/-- A pool has no queue of nodes. -/
theorem modifyPool (x : Executors) (p : PoolId) (f : TaskPool → TaskPool) :
    NothingQueued x (x.modifyPool p f) := by
  refine ⟨fun e => ?_, fun e => ?_⟩
  · cases e <;> exact List.Subset.refl _
  · cases e <;> exact List.Subset.refl _

/-- A change of an executor of either kind. -/
theorem modifyExecutor (x : Executors) (o : Option ExecutorId) {f : EventLoop → EventLoop}
    {g : Strand → Strand} (hf : ∀ t, NothingQueued x (x.modifyLoop t f))
    (hg : ∀ s, NothingQueued x (x.modifyStrand s g)) :
    NothingQueued x (x.modifyExecutor o f g) := by
  rcases o with - | t | s
  · exact refl x
  · exact hf t
  · exact hg s

end NothingQueued

/-! ### Books and timers -/

/-- `removeRootNode`. -/
theorem nothingQueued_removeRootFrom : NothingQueued x (x.removeRootFrom o a) := by
  rw [removeRootFrom_eq]
  exact .modifyExecutor x o
    (fun t => .modifyLoop x t (fun _ => List.Subset.refl _) fun _ => List.Subset.refl _)
    fun s => .modifyStrand x s (fun _ => List.Subset.refl _) fun _ => List.Subset.refl _

/-- `addRootNode`. -/
theorem nothingQueued_addRootTo : NothingQueued x (x.addRootTo o a) := by
  rw [addRootTo_eq]
  exact .modifyExecutor x o
    (fun t => .modifyLoop x t (fun _ => List.Subset.refl _) fun _ => List.Subset.refl _)
    fun s => .modifyStrand x s (fun _ => List.Subset.refl _) fun _ => List.Subset.refl _

/-- `addNode`. -/
theorem nothingQueued_addNodeTo : NothingQueued x (x.addNodeTo o a) := by
  rw [addNodeTo_eq]
  exact .modifyExecutor x o
    (fun t => .modifyLoop x t (fun _ => List.Subset.refl _) fun _ => List.Subset.refl _)
    fun s => .modifyStrand x s (fun _ => List.Subset.refl _) fun _ => List.Subset.refl _

/-- `removeNode`. -/
theorem nothingQueued_removeNodeFrom : NothingQueued x (x.removeNodeFrom o a) := by
  rw [removeNodeFrom_eq]
  exact .modifyExecutor x o
    (fun t => .modifyLoop x t (fun _ => List.Subset.refl _) fun _ => List.Subset.refl _)
    fun s => .modifyStrand x s (fun _ => List.Subset.refl _) fun _ => List.Subset.refl _

/-- `cancelTimer`. -/
theorem nothingQueued_cancelTimerWith : NothingQueued x (x.cancelTimerWith o a) := by
  rcases o with - | t | s
  · exact .refl x
  · exact NothingQueued.modifyLoop x t (f := (·.cancelTimer a))
      (fun _ => List.Subset.refl _) fun _ => List.Subset.refl _
  · exact NothingQueued.modifyPool x (x.strands s).pool (·.cancelTimer a)

/-- `scheduleTimer`. -/
theorem nothingQueued_scheduleTimerWith {p : NodePtr} {d : TimePoint} {g : ℕ} :
    NothingQueued x (x.scheduleTimerWith o p d g) := by
  rcases o with - | t | s
  · exact .refl x
  · exact NothingQueued.modifyLoop x t (f := (·.scheduleTimer p.node d g))
      (fun _ => List.Subset.refl _) fun _ => List.Subset.refl _
  · exact NothingQueued.modifyPool x (x.strands s).pool (·.scheduleTimer ⟨d, s, p, g⟩)

/-- The executors that the constructor of a root leaves. -/
theorem nothingQueued_newRootExecs {ctx : CallContext} :
    NothingQueued x (World.newRootExecs x ctx a) := by
  have hreg : ∀ y : Executors, ∀ e, NothingQueued y ((y.addRootNode e a).addNode e a) :=
    fun y e => (nothingQueued_addRootTo (o := some e)).trans
      (nothingQueued_addNodeTo (o := some e))
  rw [World.newRootExecs]
  cases World.newRootOwner ctx with
  | loop t =>
      have hcreated := NothingQueued.modifyLoop x t (f := fun l => { l with created := true })
        (fun _ => List.Subset.refl _) fun _ => List.Subset.refl _
      exact hcreated.trans (hreg _ _)
  | strand s => exact hreg x _

/-! ### Lists that a new node leaves alone -/

/-- A change of an executor that keeps its pending deletes. -/
theorem pendingDeletes_modifyExecutor {f : EventLoop → EventLoop} {g : Strand → Strand}
    (hf : ∀ l, (f l).nodesToDelete = l.nodesToDelete)
    (hg : ∀ st, (g st).pendingDeletes = st.pendingDeletes) :
    (x.modifyExecutor o f g).pendingDeletes e = x.pendingDeletes e := by
  rcases o with - | t | s
  · rfl
  · cases e with
    | strand s' => rfl
    | loop t' =>
        obtain rfl | hne := eq_or_ne t' t
        · simpa [modifyExecutor, Executors.modifyLoop, pendingDeletes] using hf _
        · simp [modifyExecutor, Executors.modifyLoop, pendingDeletes, hne]
  · cases e with
    | loop t' => rfl
    | strand s' =>
        obtain rfl | hne := eq_or_ne s' s
        · simpa [modifyExecutor, Executors.modifyStrand, pendingDeletes] using hg _
        · simp [modifyExecutor, Executors.modifyStrand, pendingDeletes, hne]

/-- `addNode` keeps the pending deletes. -/
theorem pendingDeletes_addNodeTo : (x.addNodeTo o a).pendingDeletes e = x.pendingDeletes e := by
  rw [addNodeTo_eq]
  exact pendingDeletes_modifyExecutor (fun _ => rfl) fun _ => rfl

/-- The constructor of a root keeps the pending deletes. -/
theorem pendingDeletes_newRootExecs {ctx : CallContext} :
    (World.newRootExecs x ctx a).pendingDeletes e = x.pendingDeletes e := by
  have hreg : ∀ y : Executors, ∀ d,
      ((y.addRootNode d a).addNode d a).pendingDeletes e = y.pendingDeletes e := by
    intro y d
    have hroot : (y.addRootTo (some d) a).pendingDeletes e = y.pendingDeletes e := by
      rw [addRootTo_eq]
      exact pendingDeletes_modifyExecutor (fun _ => rfl) fun _ => rfl
    exact (pendingDeletes_addNodeTo (o := some d)).trans hroot
  rw [World.newRootExecs]
  cases World.newRootOwner ctx with
  | loop t =>
      refine (hreg _ _).trans ?_
      exact pendingDeletes_modifyExecutor (o := some (.loop t))
        (f := fun l => { l with created := true }) (g := id) (fun _ => rfl) fun _ => rfl
  | strand s => exact hreg x _

/-! ### Strands of a pool -/

/-- A drain is offered to the pool. -/
theorem nothingQueued_scheduleStrand : NothingQueued x (x.scheduleStrand s) := by
  rw [scheduleStrand]
  split
  · exact .modifyPool x _ _
  · exact .modifyStrand x s (fun _ => List.Subset.refl _) fun _ => List.Subset.refl _

/-- A strand is recycled. -/
theorem nothingQueued_recycleStrandIfIdle : NothingQueued x (x.recycleStrandIfIdle s) := by
  rw [recycleStrandIfIdle]
  split
  · have hfree := NothingQueued.modifyStrand x s (f := fun st => { st with free := true })
      (fun _ => List.Subset.refl _) fun _ => List.Subset.refl _
    exact hfree.trans (.modifyPool _ _ _)
  · exact .refl x

/-- A reservation is released. -/
theorem nothingQueued_releaseStrandReservation :
    NothingQueued x (x.releaseStrandReservation s) :=
  NothingQueued.trans
    (.modifyStrand x s (by intro; exact List.Subset.refl _)
      (by intro; exact List.Subset.refl _))
    nothingQueued_recycleStrandIfIdle

/-- A strand is acquired. -/
theorem nothingQueued_acquireStrand {p : PoolId} (h : x.acquireStrand p = some (s, y)) :
    NothingQueued x y := by
  unfold acquireStrand at h
  split at h
  · exact absurd h (by simp)
  · split at h
    · obtain ⟨rfl, rfl⟩ := Prod.mk.inj (Option.some.inj h)
      exact (NothingQueued.modifyPool x p _).trans
        (.modifyStrand _ _ (by intro; exact List.Subset.refl _)
          (by intro; exact List.Subset.refl _))
    · obtain ⟨rfl, rfl⟩ := Prod.mk.inj (Option.some.inj h)
      have hnew := (NothingQueued.modifyPool x p fun q =>
        { q with strands := q.strands ++ [x.nextStrand] }).trans
        (.modifyStrand _ x.nextStrand (f := fun _ => { pool := p, reserved := true })
          (fun _ => List.nil_subset _) fun _ => List.nil_subset _)
      refine ⟨fun e => ?_, fun e => ?_⟩
      · cases e with
        | loop t => exact List.Subset.refl _
        | strand s' => exact hnew.tasks (.strand s')
      · cases e with
        | loop t => exact List.Subset.refl _
        | strand s' => exact hnew.pendingDeletes (.strand s')

/-! ### Taking from the queues -/

/-- A task is taken from a queue. -/
theorem nothingQueued_popTask {t : Task} (h : x.popTask e = some (t, y)) :
    NothingQueued x y ∧ t ∈ x.tasks e := by
  unfold popTask at h
  split at h
  · rename_i th
    split at h
    · exact absurd h (by simp)
    · rename_i task rest htasks
      obtain ⟨rfl, rfl⟩ := Prod.mk.inj (Option.some.inj h)
      refine ⟨.modifyLoop_at x th ?_ (List.Subset.refl _), ?_⟩
      · rw [htasks]
        exact List.subset_cons_self task rest
      · simp [tasks, htasks]
  · rename_i s
    split at h
    · exact absurd h (by simp)
    · rename_i task rest htasks
      obtain ⟨rfl, rfl⟩ := Prod.mk.inj (Option.some.inj h)
      refine ⟨.modifyStrand_at x s ?_ (List.Subset.refl _), ?_⟩
      · rw [htasks]
        exact List.subset_cons_self task rest
      · simp [tasks, htasks]

/-- The pending deletes are taken. -/
theorem nothingQueued_takePendingDeletes : NothingQueued x (x.takePendingDeletes e).2 := by
  cases e with
  | loop t =>
      exact NothingQueued.modifyLoop x t (f := fun l => { l with nodesToDelete := [] })
        (fun _ => List.Subset.refl _) fun _ => List.nil_subset _
  | strand s =>
      exact NothingQueued.modifyStrand x s (f := fun st => { st with pendingDeletes := [] })
        (fun _ => List.Subset.refl _) fun _ => List.nil_subset _

/-- What is taken is what was pending. -/
theorem takePendingDeletes_fst : (x.takePendingDeletes e).1 = x.pendingDeletes e := by
  cases e <;> rfl

/-! ### Putting into the queues -/

/-- `post` puts its task into one queue. -/
theorem mem_tasks_post {t t' : Task} {e' : ExecutorId} (h : t' ∈ (x.post e t).tasks e') :
    t' = t ∨ t' ∈ x.tasks e' := by
  cases e with
  | loop th =>
      cases e' with
      | strand s => exact Or.inr h
      | loop th' =>
          by_cases ht : th' = th
          · subst ht
            have h' : t' ∈ (x.loops th').tasks ∨ t' = t := by
              simpa [post, tasks, modifyLoop, EventLoop.post] using h
            exact h'.symm
          · exact Or.inr (by simpa [post, tasks, modifyLoop, ht] using h)
  | strand s =>
      have hput : ∀ {e'}, t' ∈ (x.modifyStrand s fun st =>
          { st with queue := st.queue ++ [t], scheduled := true }).tasks e' →
          t' = t ∨ t' ∈ x.tasks e' := by
        intro e' h
        cases e' with
        | loop th => exact Or.inr h
        | strand s' =>
            by_cases hs : s' = s
            · subst hs
              have h' : t' ∈ (x.strands s').queue ∨ t' = t := by
                simpa [tasks, modifyStrand] using h
              exact h'.symm
            · exact Or.inr (by simpa [tasks, modifyStrand, hs] using h)
      simp only [post, postStrand] at h
      split at h
      · exact Or.inr h
      · split at h
        · exact hput h
        · exact hput (nothingQueued_scheduleStrand.tasks e' h)

/-- `post` does not touch the pending deletes. -/
theorem pendingDeletes_post {t : Task} (e' : ExecutorId) :
    (x.post e t).pendingDeletes e' ⊆ x.pendingDeletes e' := by
  cases e with
  | loop th =>
      cases e' with
      | strand s => exact List.Subset.refl _
      | loop th' =>
          by_cases ht : th' = th
          · subst ht
            simp [post, Executors.pendingDeletes, modifyLoop, EventLoop.post]
          · simp [post, Executors.pendingDeletes, modifyLoop, ht]
  | strand s =>
      have hput : (x.modifyStrand s fun st =>
          { st with queue := st.queue ++ [t], scheduled := true }).pendingDeletes e' ⊆
          x.pendingDeletes e' := by
        cases e' with
        | loop th => exact List.Subset.refl _
        | strand s' =>
            by_cases hs : s' = s
            · subst hs
              simp [Executors.pendingDeletes, modifyStrand]
            · simp [Executors.pendingDeletes, modifyStrand, hs]
      simp only [post, postStrand]
      split
      · exact List.Subset.refl _
      · split
        · exact hput
        · exact List.Subset.trans (nothingQueued_scheduleStrand.pendingDeletes e') hput

/-- `enqueueDelete` puts the node into one list. -/
theorem mem_pendingDeletes_enqueueDelete {b : Addr} {e' : ExecutorId}
    (h : b ∈ (x.enqueueDelete e a).pendingDeletes e') :
    (b = a ∧ e' = e) ∨ b ∈ x.pendingDeletes e' := by
  cases e with
  | loop t =>
      cases e' with
      | strand s => exact Or.inr h
      | loop t' =>
          by_cases ht : t' = t
          · subst ht
            by_cases ha : a ∈ (x.loops t').nodesToDelete
            · exact Or.inr (by simpa [enqueueDelete, Executors.pendingDeletes, modifyLoop,
                EventLoop.enqueueDelete, ha] using h)
            · have h' : b ∈ (x.loops t').nodesToDelete ∨ b = a := by
                simpa [enqueueDelete, Executors.pendingDeletes, modifyLoop,
                  EventLoop.enqueueDelete, ha] using h
              exact h'.symm.imp_left fun hb => ⟨hb, rfl⟩
          · exact Or.inr (by
              simpa [enqueueDelete, Executors.pendingDeletes, modifyLoop, ht] using h)
  | strand s =>
      cases e' with
      | loop t => exact Or.inr h
      | strand s' =>
          by_cases hs : s' = s
          · subst hs
            have h' : b ∈ (x.strands s').pendingDeletes ∨ b = a := by
              simpa [enqueueDelete, Executors.pendingDeletes, modifyStrand,
                Strand.enqueueDelete] using h
            exact h'.symm.imp_left fun hb => ⟨hb, rfl⟩
          · exact Or.inr (by
              simpa [enqueueDelete, Executors.pendingDeletes, modifyStrand, hs] using h)

/-- `enqueueDelete` does not touch the tasks. -/
theorem tasks_enqueueDelete (e' : ExecutorId) :
    (x.enqueueDelete e a).tasks e' = x.tasks e' := by
  cases e with
  | loop t =>
      cases e' with
      | strand s => rfl
      | loop t' =>
          by_cases ht : t' = t
          · subst ht
            simp only [enqueueDelete, tasks, modifyLoop, Function.update_self,
              EventLoop.enqueueDelete]
            split <;> rfl
          · simp [enqueueDelete, tasks, modifyLoop, ht]
  | strand s =>
      cases e' with
      | loop t => rfl
      | strand s' =>
          by_cases hs : s' = s
          · subst hs
            simp [enqueueDelete, tasks, modifyStrand, Strand.enqueueDelete]
          · simp [enqueueDelete, tasks, modifyStrand, hs]

end Executors

/-! ### The operations of a node -/

namespace World

open Executors

variable {w w' : World} {a c p : Addr}

/-- `addChild`. -/
theorem nothingQueued_addChild (h : w.addChild p c = .ok w') :
    NothingQueued w.execs w'.execs := by
  obtain ⟨child, -, h⟩ := Outcome.bind_eq_ok.mp h
  obtain ⟨-, -, h⟩ := Outcome.bind_eq_ok.mp h
  obtain rfl := Except.ok.inj h
  simp only [execs_modifyNode]
  split
  · exact nothingQueued_removeRootFrom
  · exact .refl _

/-- `leaveParent`. -/
theorem nothingQueued_leaveParent {n : Node} (h : w.leaveParent a n = .ok w') :
    NothingQueued w.execs w'.execs := by
  unfold leaveParent at h
  split at h
  · obtain ⟨-, -, h⟩ := Outcome.bind_eq_ok.mp h
    obtain rfl := Except.ok.inj h
    exact .refl _
  · obtain rfl := Except.ok.inj h
    exact nothingQueued_removeRootFrom

/-- `setParent`. -/
theorem nothingQueued_setParent {parent : Option Addr} (h : w.setParent a parent = .ok w') :
    NothingQueued w.execs w'.execs := by
  obtain ⟨n, -, h⟩ := Outcome.bind_eq_ok.mp h
  obtain ⟨u, hu, h⟩ := Outcome.bind_eq_ok.mp h
  refine (nothingQueued_leaveParent hu).trans ?_
  cases parent with
  | none =>
      obtain rfl := Except.ok.inj h
      exact nothingQueued_addRootTo
  | some p =>
      exact nothingQueued_addChild (w := u.modifyNode a fun m => { m with isRoot := false }) h

/-- The constructor. -/
theorem nothingQueued_construct {ctx : CallContext} {cls : NodeClass} {parent : Option Addr}
    (h : w.construct ctx a cls parent = .ok w') : NothingQueued w.execs w'.execs := by
  obtain ⟨ha, hallowed⟩ := construct_ok h
  unfold construct at h
  rw [ha, hallowed] at h
  cases parent with
  | none =>
      obtain rfl := Except.ok.inj h
      exact nothingQueued_newRootExecs
  | some p =>
      obtain ⟨b, hb, h⟩ := Outcome.bind_eq_ok.mp h
      obtain rfl := Except.ok.inj hb
      obtain ⟨k, -, h⟩ := Outcome.bind_eq_ok.mp h
      obtain ⟨u, hu, h⟩ := Outcome.bind_eq_ok.mp h
      obtain rfl := Except.ok.inj h
      exact (nothingQueued_addChild hu).trans nothingQueued_addNodeTo

/-- `~Timer`. -/
theorem nothingQueued_timerDestructor {n : Node} :
    NothingQueued w.execs (w.timerDestructor a n).execs := by
  rw [timerDestructor]
  split
  · exact nothingQueued_cancelTimerWith
  · exact .refl _

/-- `detach`. -/
theorem nothingQueued_detach {n : Node} (h : w.detach a n = .ok w') :
    NothingQueued w.execs w'.execs := by
  unfold detach at h
  split at h
  · obtain rfl := Except.ok.inj h
    exact nothingQueued_removeRootFrom
  · split at h
    · obtain ⟨-, -, h⟩ := Outcome.bind_eq_ok.mp h
      obtain rfl := Except.ok.inj h
      exact .refl _
    · obtain rfl := Except.ok.inj h
      exact .refl _

/-- What each step keeps, a fold keeps. -/
theorem nothingQueued_foldlM {α : Type} {f : World → α → Outcome World}
    (hf : ∀ u b u', f u b = .ok u' → NothingQueued u.execs u'.execs) {l : List α}
    (h : l.foldlM f w = .ok w') : NothingQueued w.execs w'.execs := by
  induction l generalizing w with
  | nil =>
      obtain rfl := Except.ok.inj h
      exact .refl _
  | cons b l ih =>
      obtain ⟨u, hu, h⟩ := Outcome.bind_eq_ok.mp h
      exact (hf w b u hu).trans (ih h)

/-- The destructors of a subtree. -/
theorem nothingQueued_destroy {fuel : ℕ} (h : destroy fuel w a = .ok w') :
    NothingQueued w.execs w'.execs := by
  induction fuel generalizing w w' a with
  | zero => exact absurd h (by simp [destroy])
  | succ fuel ih =>
      obtain ⟨n, -, h⟩ := Outcome.bind_eq_ok.mp h
      obtain ⟨u, hu, h⟩ := Outcome.bind_eq_ok.mp h
      obtain ⟨v, hv, h⟩ := Outcome.bind_eq_ok.mp h
      obtain ⟨k, -, h⟩ := Outcome.bind_eq_ok.mp h
      obtain rfl := Except.ok.inj h
      have hdetach : NothingQueued (w.timerDestructor a n).execs u.execs :=
        nothingQueued_detach
          (w := (w.timerDestructor a n).withHeap ((w.timerDestructor a n).heap.expire a n)) hu
      have hkids := nothingQueued_foldlM (fun _ _ _ => ih) hv
      exact ((nothingQueued_timerDestructor.trans hdetach).trans hkids).trans
        nothingQueued_removeNodeFrom

/-- `delete`. -/
theorem nothingQueued_delete (h : w.delete a = .ok w') : NothingQueued w.execs w'.execs :=
  nothingQueued_destroy h

/-- `applyMoveTo`. -/
theorem nothingQueued_applyMoveTo {fuel : ℕ} {target : ExecutorId}
    (h : applyMoveTo fuel w a target = .ok w') : NothingQueued w.execs w'.execs := by
  induction fuel generalizing w w' a with
  | zero => exact absurd h (by simp [applyMoveTo])
  | succ fuel ih =>
      obtain ⟨n, -, h⟩ := Outcome.bind_eq_ok.mp h
      split at h
      · obtain rfl := Except.ok.inj h
        exact .refl _
      · refine NothingQueued.trans ?_ (nothingQueued_foldlM (fun _ _ _ => ih) h)
        have habout : NothingQueued w.execs (w.onAboutToMoveToThread a n).execs := by
          rw [onAboutToMoveToThread]
          split
          · exact nothingQueued_cancelTimerWith
          · exact .refl _
        have hleave : ∀ u : World, NothingQueued u.execs (u.leaveExecutor a n).execs := by
          intro u
          simp only [leaveExecutor, execs_withExecs]
          split
          · exact nothingQueued_removeNodeFrom.trans nothingQueued_removeRootFrom
          · exact nothingQueued_removeNodeFrom
        have henter : ∀ u : World, NothingQueued u.execs (u.enterExecutor a n target).execs := by
          intro u
          simp only [enterExecutor, execs_withExecs]
          split
          · exact nothingQueued_addNodeTo.trans nothingQueued_addRootTo
          · exact nothingQueued_addNodeTo
        have hmoved : ∀ u : World, NothingQueued u.execs (u.onMovedToThread a n).execs := by
          intro u
          rw [onMovedToThread]
          split
          · split
            · exact nothingQueued_scheduleTimerWith
            · exact .refl _
          · exact .refl _
        exact ((habout.trans (hleave _)).trans (henter _)).trans (hmoved _)

end World

end SimplyNode
