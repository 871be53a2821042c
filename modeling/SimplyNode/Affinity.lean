import SimplyNode.Requests

/-!
# Registrations and Affinity over Whole Runs

The framework as a transition system: on any number of threads and strands, code creates,
re-parents and deletes nodes, asks for deletions and migrations from inside and outside the
owners, and the executors run what has been posted to them, in any order.

What callers have to see to is `Op.Allowed`: `addChild` takes roots, and both `addChild` and
`setParent` stay inside one executor. That a new parent is not in the node's own subtree is
not needed here.

## Main results

* `Op.consistent_apply`: every allowed operation keeps the state consistent.
* `run_registrationsAgree`: in every state that is reached, the owners of children and
  parents agree, and so do owners and registrations; and no allowed call gets stuck.
-/

open Transition

namespace SimplyNode

/-! ### The operations -/

/-- What user code can call. -/
inductive Call
  | tree (op : TreeOp)
  | deleteLater (a : Addr)
  | moveToThread (a : Addr) (target : ThreadId)
  | moveToTaskPool (a : Addr) (pool : PoolId)
  | timer (a : Addr) (call : TimerCall)
  deriving DecidableEq

/-- What can happen next. -/
inductive Op
  /-- The thread gets an event loop. -/
  | openLoop (thread : ThreadId)
  /-- The event loop of the thread will not run again. -/
  | retireLoop (thread : ThreadId)
  /-- The pool accepts no more work. -/
  | stopPool (pool : PoolId)
  /-- User code makes a call from a context. -/
  | call (ctx : CallContext) (c : Call)
  /-- The clock goes on. -/
  | advanceClock (now : TimePoint)
  /-- An executor runs its next task. -/
  | runNextTask (e : ExecutorId)
  /-- An executor runs its pending deletes. -/
  | runPendingDeletes (e : ExecutorId)
  /-- A drain of the strand ends. -/
  | finishDrain (s : StrandId)
  deriving DecidableEq

namespace Call

/-- The effect; the results of the two migration requests are not looked at. -/
def apply (ctx : CallContext) (w : World) : Call → Outcome World
  | tree op => op.apply ctx w
  | deleteLater a => w.deleteLater ctx a
  | moveToThread a t => (w.moveToThread ctx a t).map Prod.snd
  | moveToTaskPool a p => (w.moveToTaskPool ctx a p).map Prod.snd
  | timer a c => w.timerCall ctx a c

/-- What callers have to see to: only roots are added with `addChild`, no node gets a parent
of another executor, and the strand that a constructor runs in exists. -/
def Allowed (ctx : CallContext) (w : World) : Call → Prop
  | tree (.construct _ _ _) => ∀ s, ctx.strand = some s → s < w.execs.nextStrand
  | tree (.addChild p c) => w.heap.isRoot c = true ∧ w.heap.ownerOf c = w.heap.ownerOf p
  | tree (.setParent a (some p)) => w.heap.ownerOf a = w.heap.ownerOf p
  | _ => True

/-- The call is made on live nodes; a constructor is given free memory and is not called on
a pool worker outside its strand. -/
def Callable (ctx : CallContext) (w : World) : Call → Prop
  | tree (.construct a _ parent) =>
      w.heap.mem a = none ∧ w.constructionAllowed ctx parent = .ok true
  | tree (.addChild p c) => w.heap.Live p ∧ w.heap.Live c
  | tree (.setParent a parent) => w.heap.Live a ∧ ∀ p, parent = some p → w.heap.Live p
  | tree (.delete a) => w.heap.Live a
  | deleteLater a => w.heap.Live a
  | moveToThread a _ => w.heap.Live a
  | moveToTaskPool a _ => w.heap.Live a
  | timer a _ => w.heap.Live a

end Call

namespace Op

/-- The effect. -/
def apply (w : World) : Op → Outcome World
  | openLoop t => pure (w.withExecs (w.execs.createLoop t))
  | retireLoop t =>
      pure (w.withExecs (w.execs.modifyLoop t fun l => { l with retired := true }))
  | stopPool p =>
      pure (w.withExecs (w.execs.modifyPool p fun q => { q with stopping := true }))
  | call ctx c => c.apply ctx w
  | advanceClock now => pure { w with now := now }
  | runNextTask e => w.runNextTask e
  | runPendingDeletes e => w.runPendingDeletes e
  | finishDrain s => pure (w.withExecs (w.execs.finishDrain s))

/-- What callers have to see to; and strands that run exist. -/
def Allowed (w : World) : Op → Prop
  | call ctx c => c.Allowed ctx w
  | finishDrain s => s < w.execs.nextStrand
  | _ => True

/-- The operation can be performed. -/
def Callable (w : World) : Op → Prop
  | call ctx c => c.Callable ctx w
  | _ => True

end Op

/-! ### What holds -/

/-- **Registrations and affinity agree.** -/
structure RegistrationsAgree (w : World) : Prop where
  /-- A child has its parent's owner. -/
  affine : ∀ c p, w.heap.parentOf c = some p ∨ c ∈ w.heap.childrenOf p →
    w.heap.ownerOf c = w.heap.ownerOf p
  /-- An event loop registers the live nodes it owns, each once. -/
  loop_nodes : ∀ t, (w.execs.loops t).nodes.Nodup ∧ ∀ a, a ∈ (w.execs.loops t).nodes ↔
    w.heap.Live a ∧ w.heap.ownerOf a = some (.loop t)
  /-- A strand counts the live nodes it owns. -/
  strand_count : ∀ s, ∃ l : List Addr, l.Nodup ∧
    (∀ a, a ∈ l ↔ w.heap.Live a ∧ w.heap.ownerOf a = some (.strand s)) ∧
    (w.execs.strands s).nodeCount = l.length
  /-- A root list holds the live roots the executor owns, each once. -/
  roots : ∀ e, (w.execs.rootNodes e).Nodup ∧ ∀ a, a ∈ w.execs.rootNodes e ↔
    w.heap.Live a ∧ w.heap.isRoot a = true ∧ w.heap.ownerOf a = some e

/-- The books and the tree of a sound state agree. -/
theorem Sound.registrationsAgree {w : World} (hs : Sound w) : RegistrationsAgree w where
  affine c p hcp := hs.affine c p (hcp.elim id (hs.linked.mem_childrenOf p c).mp)
  loop_nodes t := by
    obtain ⟨l, hnd, hmem, hreg⟩ := hs.balanced.nodes (.loop t)
    obtain rfl : (w.execs.loops t).nodes = l := hreg
    refine ⟨hnd, fun a => ?_⟩
    rw [hmem]
    exact ⟨fun h => ⟨Heap.live_of_ownerOf h, h⟩, And.right⟩
  strand_count s := by
    obtain ⟨l, hnd, hmem, hreg⟩ := hs.balanced.nodes (.strand s)
    refine ⟨l, hnd, fun a => ?_, hreg⟩
    rw [hmem]
    exact ⟨fun h => ⟨Heap.live_of_ownerOf h, h⟩, And.right⟩
  roots e := by
    refine ⟨hs.balanced.nodup e, fun a => ?_⟩
    rw [hs.balanced.roots]
    exact ⟨fun h => ⟨Heap.live_of_isRoot h.1, h⟩, And.right⟩

/-! ### The step lemma -/

namespace Call

variable {w : World} {ctx : CallContext}

/-- **Every allowed tree operation** succeeds where it can be called. -/
theorem consistent_tree (hc : Consistent w) {op : TreeOp} (hok : (tree op).Allowed ctx w)
    (hcall : (tree op).Callable ctx w) : ∃ w', op.apply ctx w = .ok w' ∧ Consistent w' := by
  have hs := hc.sound
  cases op with
  | construct a cls parent =>
      obtain ⟨ha, hallowed⟩ := hcall
      cases parent with
      | none =>
          have hctx : ctx.worker = false ∨ ctx.strand.isSome := by
            simpa only [Bool.or_eq_true, Bool.not_eq_true'] using Except.ok.inj hallowed
          obtain ⟨w', hw', hs', -⟩ := hs.construct_root cls ha hctx hok
          exact ⟨w', hw', hc.apply ctx (.construct a cls none) hw' hs'⟩
      | some p =>
          obtain ⟨n, hn, hb⟩ := Outcome.bind_eq_ok.mp hallowed
          have hm := (Heap.node_eq_ok _).mp hn
          have hp : w.heap.Live p := Option.isSome_iff_exists.mpr ⟨n, hm⟩
          have hctx : ctx.worker = false ∨ (w.heap.ownerOf p).any ctx.isCurrent := by
            have hown : w.heap.ownerOf p = w.heap.ownerExecutor n := Heap.ownerOf_of_mem hm
            rw [hown]
            simpa only [Bool.or_eq_true, Bool.not_eq_true'] using Except.ok.inj hb
          obtain ⟨w', hw', hs', -⟩ := hs.construct_child cls ha hp hctx
          exact ⟨w', hw', hc.apply ctx (.construct a cls (some p)) hw' hs'⟩
  | addChild p c =>
      obtain ⟨w', hw', hs', -⟩ := hs.addChild_root hcall.1 hok.1 hok.2
      exact ⟨w', hw', hc.apply ctx (.addChild p c) hw' hs'⟩
  | setParent a parent =>
      obtain ⟨ha, hp⟩ := hcall
      cases parent with
      | none =>
          obtain ⟨w', hw', hs', -⟩ := hs.setParent_none ha
          exact ⟨w', hw', hc.apply ctx (.setParent a none) hw' hs'⟩
      | some p =>
          obtain ⟨w', hw', hs', -⟩ := hs.setParent_some ha (hp p rfl) hok
          exact ⟨w', hw', hc.apply ctx (.setParent a (some p)) hw' hs'⟩
  | delete a => exact hc.delete hcall

/-- Every allowed call succeeds where it can be made. -/
theorem consistent_apply (hc : Consistent w) {c : Call} (hok : c.Allowed ctx w)
    (hcall : c.Callable ctx w) : ∃ w', c.apply ctx w = .ok w' ∧ Consistent w' := by
  cases c with
  | tree op => exact consistent_tree hc hok hcall
  | deleteLater a => exact hc.deleteLater ctx hcall
  | moveToThread a t =>
      obtain ⟨b, w', hw', hc'⟩ := hc.moveToThread ctx hcall t
      exact ⟨w', by rw [apply, hw']; rfl, hc'⟩
  | moveToTaskPool a p =>
      obtain ⟨b, w', hw', hc'⟩ := hc.moveToTaskPool ctx hcall p
      exact ⟨w', by rw [apply, hw']; rfl, hc'⟩
  | timer a c => exact hc.timerCall ctx hcall c

/-- A node that is read is live. -/
theorem live_of_node {β : Type} {a : Addr} {f : Node → Outcome β} {b : β}
    (h : w.heap.node a >>= f = .ok b) : w.heap.Live a := by
  obtain ⟨n, hn, -⟩ := Outcome.bind_eq_ok.mp h
  exact Option.isSome_iff_exists.mpr ⟨n, (Heap.node_eq_ok _).mp hn⟩

/-- What has succeeded was callable, or was refused without looking at the node. -/
theorem callable_of_apply {c : Call} {w' : World} (h : c.apply ctx w = .ok w') :
    c.Callable ctx w ∨ w' = w := by
  cases c with
  | tree op =>
      left
      cases op with
      | construct a cls parent => exact World.construct_ok h
      | addChild p c => exact World.live_of_addChild h
      | setParent a parent => exact World.live_of_setParent h
      | delete a => exact World.live_of_delete h
  | deleteLater a => exact Or.inl (live_of_node h)
  | timer a c => exact Or.inl (live_of_node h)
  | moveToThread a t =>
      have h : (w.moveToThread ctx a t).map Prod.snd = .ok w' := h
      unfold World.moveToThread at h
      split at h
      · exact Or.inr (Except.ok.inj h).symm
      · obtain ⟨r, hr, -⟩ := Outcome.map_eq_ok.mp h
        exact Or.inl (live_of_node hr)
  | moveToTaskPool a p =>
      have h : (w.moveToTaskPool ctx a p).map Prod.snd = .ok w' := h
      unfold World.moveToTaskPool at h
      split at h
      · exact Or.inr (Except.ok.inj h).symm
      · obtain ⟨r, hr, -⟩ := Outcome.map_eq_ok.mp h
        exact Or.inl (live_of_node hr)

end Call

namespace Op

variable {w : World}

/-- **The step lemma.** An allowed operation succeeds where it can be performed, and keeps
the state consistent. -/
theorem consistent_apply (hc : Consistent w) {op : Op} (hok : op.Allowed w)
    (hcall : op.Callable w) : ∃ w', op.apply w = .ok w' ∧ Consistent w' := by
  cases op with
  | openLoop t =>
      exact ⟨_, rfl, hc.sameBooks
        (.modifyLoop _ t (f := fun l => { l with created := true }) (fun _ => rfl) fun _ => rfl)
        ⟨rfl, fun _ => rfl⟩
        (.modifyLoop _ t (fun _ => List.Subset.refl _) fun _ => List.Subset.refl _)⟩
  | retireLoop t =>
      exact ⟨_, rfl, hc.sameBooks
        (.modifyLoop _ t (f := fun l => { l with retired := true }) (fun _ => rfl) fun _ => rfl)
        ⟨rfl, fun _ => rfl⟩
        (.modifyLoop _ t (fun _ => List.Subset.refl _) fun _ => List.Subset.refl _)⟩
  | stopPool p =>
      exact ⟨_, rfl, hc.sameBooks (.modifyPool _ p _)
        (.modifyPool _ p (f := fun q => { q with stopping := true }) fun _ => rfl)
        (.modifyPool _ p _)⟩
  | call ctx c => exact Call.consistent_apply hc hok hcall
  | advanceClock now =>
      have hs := hc.sound
      exact ⟨_, rfl, ⟨hs.named, hs.linked, hs.affine, hs.balanced, hs.strand_lt⟩, hc.free_lt,
        hc.names⟩
  | runNextTask e => exact hc.runNextTask e
  | runPendingDeletes e => exact hc.runPendingDeletes e
  | finishDrain s => exact ⟨_, rfl, hc.finishDrain hok⟩

/-- Allowed operations keep the state consistent. -/
theorem consistent_of_apply (hc : Consistent w) {op : Op} {w' : World} (hok : op.Allowed w)
    (h : op.apply w = .ok w') : Consistent w' := by
  have hcall : op.Callable w ∨ w' = w := by
    cases op with
    | call ctx c => exact Call.callable_of_apply h
    | openLoop t => exact Or.inl trivial
    | retireLoop t => exact Or.inl trivial
    | stopPool p => exact Or.inl trivial
    | advanceClock now => exact Or.inl trivial
    | runNextTask e => exact Or.inl trivial
    | runPendingDeletes e => exact Or.inl trivial
    | finishDrain s => exact Or.inl trivial
  rcases hcall with hcall | rfl
  · obtain ⟨u, hu, hcu⟩ := consistent_apply hc hok hcall
    obtain rfl := Except.ok.inj (hu.symm.trans h)
    exact hcu
  · exact hc

end Op

/-! ### Whole runs -/

/-- There are no nodes yet, nothing is posted, and no strand has been given back. -/
structure World.Unused (w : World) : Prop where
  noNodes : w.NoNodes
  tasks : ∀ e, w.execs.tasks e = []
  freeStrands : ∀ p, (w.execs.pools p).freeStrands = []

theorem World.unused_initial (main : ThreadId) (workers : ℕ) :
    (World.initial main workers).Unused where
  noNodes := noNodes_initial main workers
  tasks e := by cases e <;> rfl
  freeStrands p := by
    simp only [initial]
    split <;> rfl

theorem World.Unused.consistent {w : World} (h : w.Unused) : Consistent w where
  sound := h.noNodes.sound
  free_lt p s hs := by
    rw [h.freeStrands] at hs
    exact absurd hs List.not_mem_nil
  names e t ht := by
    rw [h.tasks] at ht
    exact absurd ht List.not_mem_nil

/-- **Registrations and affinity agree in every state that is reached**, and no allowed call
on live nodes gets stuck there. -/
theorem run_registrationsAgree {w₀ w : World} {ops : List Op} (h₀ : w₀.Unused)
    (hrun : Run (ofFun Op.apply) (fun v op => op.Allowed v) w₀ ops w) :
    RegistrationsAgree w ∧
      ∀ op : Op, op.Allowed w → op.Callable w → ∃ w', op.apply w = .ok w' := by
  have hc : Consistent w := hrun.invariant_of_ok (I := Consistent)
    (fun v op v' hc hok h => Op.consistent_of_apply hc hok h) h₀.consistent
  refine ⟨hc.sound.registrationsAgree, fun op hok hcall => ?_⟩
  obtain ⟨w', hw', -⟩ := Op.consistent_apply hc hok hcall
  exact ⟨w', hw'⟩

/-- A tree that goes from the main thread to a second thread and on to a task pool, the last
by a request that has to be forwarded. -/
def wanderingOps : List Op :=
  [.openLoop 1, .call (.onLoop 0) (.tree (.construct 10 .pooled none)),
    .call (.onLoop 0) (.tree (.construct 11 .plain (some 10))),
    .call (.onLoop 1) (.moveToTaskPool 10 0), .call (.onLoop 0) (.moveToThread 10 1),
    .runNextTask (.loop 0), .runNextTask (.loop 1), .call (.onLoop 0) (.deleteLater 11),
    .runNextTask (.strand 0), .runPendingDeletes (.strand 0), .finishDrain 0]

/-- At the end of the journey the books agree. -/
theorem wandering_registrationsAgree : ∃ w,
    Run (ofFun Op.apply) (fun v op => op.Allowed v) (World.initial 0 1) wanderingOps w ∧
      RegistrationsAgree w := by
  have hrun : ∃ w, Run (ofFun Op.apply) (fun v op => op.Allowed v) (World.initial 0 1)
      wanderingOps w :=
    ⟨_, .cons trivial rfl (.cons (fun s hs => absurd hs (by simp [CallContext.onLoop])) rfl
      (.cons (fun s hs => absurd hs (by simp [CallContext.onLoop])) rfl
      (.cons trivial rfl (.cons trivial rfl (.cons trivial rfl (.cons trivial rfl
      (.cons trivial rfl (.cons trivial rfl (.cons trivial rfl
      (.cons (show 0 < _ by decide) rfl (.nil _)))))))))))⟩
  obtain ⟨w, hrun⟩ := hrun
  exact ⟨w, hrun, (run_registrationsAgree (World.unused_initial 0 1) hrun).1⟩

end SimplyNode
