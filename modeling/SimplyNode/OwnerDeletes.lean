import SimplyNode.ChildQueues
import SimplyNode.Moves

/-!
# Deferred Deletes and Migration

A deferred delete is carried out by the executor that has the node in a list: its own list of
pending deletes, or the queue of the parent that `Node::run` works through in a tick. A
migration takes the node to another owner, but neither out of such a list nor out of a tick
that is going on.

`Crew` is a state of any number of event loops and strands that work through their lists and
tick their roots, while requests for deletions and migrations come in from anywhere.

## Main results

* `World.Keeps.enterRun`: `run()` of a node, up to its loop over the children.
* `Crew.Inv.step`: the step lemma.
* `run_deletes_own`: if no migration takes a node out of an executor that still holds it, every
  deferred delete is carried out by the owner.
-/

open PointerForest Transition

namespace SimplyNode

/-! ### The system -/

/-- A tick of an event loop: the roots left in its copy, and a frame for each `run()` in
progress. -/
structure Pass where
  todo : List Addr := []
  stack : List Frame := []

/-- A node that the tick will call `run()` of, or whose `run()` has children left to run. -/
def Pass.Holds (p : Pass) (a : Addr) : Prop :=
  a ∈ p.todo ∨ ∃ f ∈ p.stack, f.node = a ∧ f.updating = false ∧ f.next < f.stop

/-- Executors that work through their lists of pending deletes, and event loops in their
ticks. `batch e` is what is left of the lists that `e` has taken, the last one first. -/
structure Crew where
  world : World
  batch : ExecutorId → List Addr := fun _ => []
  pass : ThreadId → Pass := fun _ => {}

/-- What can happen next. -/
inductive CrewStep
  /-- `deleteLater()`. -/
  | deleteLater (ctx : CallContext) (a : Addr)
  /-- `moveToThread()`. -/
  | moveToThread (ctx : CallContext) (a : Addr) (target : ThreadId)
  /-- `moveToTaskPool()`. -/
  | moveToTaskPool (ctx : CallContext) (a : Addr) (pool : PoolId)
  /-- An executor runs its next task. -/
  | runTask (e : ExecutorId)
  /-- An executor takes its list of pending deletes. -/
  | take (e : ExecutorId)
  /-- An executor comes to the next entry of the list it has taken. -/
  | deleteNext (e : ExecutorId)
  /-- An event loop copies its list of roots. -/
  | startTick (t : ThreadId)
  /-- The next step of a tick. -/
  | tick (t : ThreadId)
  deriving DecidableEq

namespace Crew

/-- Another state of the world. -/
def withWorld (s : Crew) (w : World) : Crew := { s with world := w }

/-- A step of the system. -/
inductive Step : Crew → CrewStep → Crew → Prop
  | deleteLater {s : Crew} {w : World} {ctx : CallContext} {a : Addr} :
      s.world.deleteLater ctx a = .ok w → Step s (.deleteLater ctx a) (s.withWorld w)
  | moveToThread {s : Crew} {w : World} {ctx : CallContext} {a : Addr} {t : ThreadId}
      {b : Bool} :
      s.world.moveToThread ctx a t = .ok (b, w) →
      Step s (.moveToThread ctx a t) (s.withWorld w)
  | moveToTaskPool {s : Crew} {w : World} {ctx : CallContext} {a : Addr} {p : PoolId}
      {b : Bool} :
      s.world.moveToTaskPool ctx a p = .ok (b, w) →
      Step s (.moveToTaskPool ctx a p) (s.withWorld w)
  | runTask {s : Crew} {w : World} {e : ExecutorId} :
      s.world.runNextTask e = .ok w → Step s (.runTask e) (s.withWorld w)
  | take {s : Crew} {e : ExecutorId} :
      Step s (.take e)
        { s with
          world := s.world.withExecs (s.world.execs.takePendingDeletes e).2
          batch := Function.update s.batch e
            ((s.world.execs.takePendingDeletes e).1 ++ s.batch e) }
  | deleteNext {s : Crew} {w : World} {e : ExecutorId} {a : Addr} {rest : List Addr} :
      s.batch e = a :: rest → s.world.deleteIfAlive a = .ok w →
      Step s (.deleteNext e) { s with world := w, batch := Function.update s.batch e rest }
  | startTick {s : Crew} {t : ThreadId} :
      (s.pass t).todo = [] → (s.pass t).stack = [] →
      Step s (.startTick t)
        { s with pass := Function.update s.pass t ⟨s.world.execs.rootNodes (.loop t), []⟩ }
  | tick {s : Crew} {k : Tick} {t : ThreadId} :
      Tick.Step t ⟨s.world, (s.pass t).todo, (s.pass t).stack, []⟩ .advance k →
      Step s (.tick t)
        { s with world := k.world, pass := Function.update s.pass t ⟨k.todo, k.stack⟩ }

/-- The next step of the tick calls `run()` of the node. -/
def Runs (s : Crew) (t : ThreadId) (a : Addr) : Prop :=
  ((s.pass t).stack = [] ∧ ∃ rest, (s.pass t).todo = a :: rest) ∨
    ∃ f fs, (s.pass t).stack = f :: fs ∧ f.updating = false ∧ f.next < f.stop ∧
      s.world.readSlot f.node Node.children f.buffer f.next = .ok a

/-- The executor has the node in its list of pending deletes, in what is left of a list it has
taken, or in its tick. -/
def Holds (s : Crew) (e : ExecutorId) (a : Addr) : Prop :=
  a ∈ s.world.execs.pendingDeletes e ∨ a ∈ s.batch e ∨ ∃ t, e = .loop t ∧ (s.pass t).Holds a

/-- Every node that an executor holds is its own. -/
def HoldsOwn (s : Crew) : Prop :=
  ∀ e a, s.Holds e a → ∀ o, s.world.heap.ownerOf a = some o → o = e

/-- The step moves the subtree of `a` to another owner. -/
def Migrates (s : Crew) : CrewStep → Addr → Prop
  | .moveToThread ctx b t, a => a = b ∧ s.world.MovesToThread ctx b t
  | .moveToTaskPool ctx b p, a => a = b ∧ s.world.MovesToTaskPool ctx b p
  | .runTask e, a => s.world.TaskMoves e a
  | _, _ => False

/-- No migration takes a node out of an executor that still holds it. -/
def Unheld (s : Crew) (l : CrewStep) : Prop :=
  ∀ a, s.Migrates l a → ∀ x, Below s.world.heap.childrenOf a x → ∀ e, ¬ s.Holds e x

/-- The invariant: the nodes form a forest, queues and slots hold children, and what is posted
are requests. -/
structure Inv (s : Crew) : Prop where
  forested : Forested s.world
  queuesOwn : s.world.QueuesOwn
  slots : ∀ t, s.world.SlotsOwn (s.pass t).stack
  requests : ∀ e k, k ∈ s.world.execs.tasks e → k.IsRequest
  holdsOwn : s.HoldsOwn

end Crew

/-! ### Changes of the world that move nothing -/

/-- No node gets another owner: what is newly listed is listed with its owner. -/
structure World.Keeps (w w' : World) : Prop where
  forested : Forested w'
  queuesOwn : w'.QueuesOwn
  slots : ∀ fs, w.SlotsOwn fs → w'.SlotsOwn fs
  owner : ∀ x o, w'.heap.ownerOf x = some o → w.heap.ownerOf x = some o
  pending : ∀ e x, x ∈ w'.execs.pendingDeletes e → x ∈ w.execs.pendingDeletes e ∨
    ∀ o, w'.heap.ownerOf x = some o → o = e
  requests : ∀ e k, k ∈ w'.execs.tasks e → k ∈ w.execs.tasks e ∨ k.IsRequest

namespace World.Keeps

variable {w w' w'' : World} {a q : Addr} {e : ExecutorId} {ctx : CallContext}

theorem refl (hf : Forested w) (hq : w.QueuesOwn) : Keeps w w :=
  ⟨hf, hq, fun _ h => h, fun _ _ h => h, fun _ _ h => Or.inl h, fun _ _ h => Or.inl h⟩

theorem trans (h : Keeps w w') (h' : Keeps w' w'') : Keeps w w'' where
  forested := h'.forested
  queuesOwn := h'.queuesOwn
  slots fs hs := h'.slots fs (h.slots fs hs)
  owner x o hx := h.owner x o (h'.owner x o hx)
  pending e x hx := by
    rcases h'.pending e x hx with hx | hx
    · exact (h.pending e x hx).imp_right fun hown o ho => hown o (h'.owner x o ho)
    · exact Or.inr hx
  requests e k hk := by
    rcases h'.requests e k hk with hk | hk
    · exact h.requests e k hk
    · exact Or.inr hk

/-- Deleting a node. -/
theorem delete (hf : Forested w) (hq : w.QueuesOwn) (h : w.delete q = .ok w') : Keeps w w' := by
  obtain ⟨u, hu, hf', hd⟩ := hf.delete (live_of_delete h)
  obtain rfl := Except.ok.inj (hu.symm.trans h)
  have hn := nothingQueued_delete h
  refine ⟨hf', hq.delete hf hd, fun fs hs => hs.delete hd, fun x o hx => ?_,
    fun e x hx => Or.inl (hn.pendingDeletes e hx), fun e k hk => Or.inl (hn.tasks e hk)⟩
  have hb := ((hd.live x).mp (Heap.live_of_ownerOf hx)).2
  rwa [hd.ownerOf hb] at hx

/-- The tree stays, and so do the lists. -/
theorem of_sameTree (hs : Heap.SameTree w.heap w'.heap) (hf' : Forested w')
    (hq' : w'.QueuesOwn)
    (hp : ∀ e x, x ∈ w'.execs.pendingDeletes e → x ∈ w.execs.pendingDeletes e ∨
      ∀ o, w.heap.ownerOf x = some o → o = e)
    (ht : ∀ e k, k ∈ w'.execs.tasks e → k ∈ w.execs.tasks e ∨ k.IsRequest) : Keeps w w' where
  forested := hf'
  queuesOwn := hq'
  slots fs h := h.congr (fun x => hs.map_eq x Node.children fun _ => rfl) hs.parentOf
  owner x o hx := by rwa [hs.ownerOf] at hx
  pending e x hx := by
    rw [hs.ownerOf]
    exact hp e x hx
  requests := ht

/-- `deleteLater()`. -/
theorem deleteLater (hf : Forested w) (hq : w.QueuesOwn)
    (h : w.deleteLater ctx a = .ok w') : Keeps w w' := by
  have hf' := forested_deleteLater hf h
  have hq' := queuesOwn_deleteLater hq h
  refine of_sameTree (mem_deleteLater h).1 hf' hq' (fun e x hx => ?_) fun e k hk => ?_
  · obtain ⟨n, k, -, -, -, hcases⟩ := deleteLater_cases h
    rcases hcases with ⟨o, -, rfl⟩ | ⟨o, ho, -, rfl⟩ | ⟨p, k', -, -, rfl⟩
    · exact Or.inl (Executors.pendingDeletes_post e hx)
    · rcases Executors.mem_pendingDeletes_enqueueDelete hx with ⟨rfl, rfl⟩ | hx
      · exact Or.inr fun o' ho' => Option.some.inj (ho'.symm.trans ho)
      · exact Or.inl hx
    · exact Or.inl hx
  · obtain ⟨n, k', -, -, -, hcases⟩ := deleteLater_cases h
    rcases hcases with ⟨o, -, rfl⟩ | ⟨o, -, -, rfl⟩ | ⟨p, k', -, -, rfl⟩
    · rcases Executors.mem_tasks_post hk with rfl | hk
      · exact Or.inr trivial
      · exact Or.inl hk
    · rw [execs_withExecs, Executors.tasks_enqueueDelete] at hk
      exact Or.inl hk
    · exact Or.inl hk

/-- `m_childrenToDelete.clear()`. -/
theorem clearMarked (hf : Forested w) (hq : w.QueuesOwn) (h : w.clearMarked a = .ok w') :
    Keeps w w' := by
  have hf' := forested_clearMarked hf h
  have hq' := queuesOwn_clearMarked hq h
  obtain ⟨hs, rfl⟩ := clearMarked_ok h
  exact of_sameTree hs hf' hq' (fun e x hx => Or.inl hx) fun e k hk => Or.inl hk

/-- The objects stay. -/
theorem of_heap (hq : w.QueuesOwn) (hf : Forested w) (hh : w'.heap = w.heap)
    (hc : Consistent w')
    (hp : ∀ e x, x ∈ w'.execs.pendingDeletes e → x ∈ w.execs.pendingDeletes e ∨
      ∀ o, w.heap.ownerOf x = some o → o = e)
    (ht : ∀ e k, k ∈ w'.execs.tasks e → k ∈ w.execs.tasks e ∨ k.IsRequest) : Keeps w w' := by
  refine of_sameTree (hh ▸ .refl w.heap) ⟨hc, fun x => hh ▸ hf.grounded x⟩ ?_ hp ht
  intro x n hn
  rw [hh] at hn ⊢
  exact hq x n hn

/-- What a task does that moves nothing. -/
theorem serves (hf : Forested w) (hq : w.QueuesOwn) (hc : Consistent w')
    (hs : w.Serves w' e) : Keeps w w' := by
  refine of_heap hq hf hs.heap hc (fun o x hx => ?_) hs.tasks
  rcases hs.pendingDeletes o x hx with hx | ⟨rfl, hown⟩
  · exact Or.inl hx
  · exact Or.inr fun o' ho' => Option.some.inj (ho'.symm.trans hown)

/-- The loop at the start of `Node::run`: it deletes children only, and they have the owner
of the node. -/
theorem deleteMarked {r : World × List Addr} (hf : Forested w) (hq : w.QueuesOwn)
    (h : w.deleteMarked a = .ok r) :
    Keeps w r.1 ∧ ∀ d ∈ r.2, w.heap.ownerOf d = w.heap.ownerOf a := by
  let I : World → List Addr → Prop := fun u l =>
    Keeps w u ∧ (u.heap.Live a → u.heap.ownerOf a = w.heap.ownerOf a) ∧
      ∀ d ∈ l, w.heap.ownerOf d = w.heap.ownerOf a
  have hI : ∀ u l q u', I u l → Forested u → u.heap.parentOf q = some a → u.delete q = .ok u' →
      Forested u' → Deleted u.heap u'.heap q → I u' (l ++ [q]) := by
    rintro u l q u' ⟨hk, ha, hl⟩ hfu hqa hu' hfu' hdel
    refine ⟨hk.trans (.delete hfu hk.queuesOwn hu'), fun hlive => ?_, fun d hd => ?_⟩
    · obtain ⟨hlive, hb⟩ := (hdel.live a).mp hlive
      rw [hdel.ownerOf hb]
      exact ha hlive
    · rcases List.mem_append.mp hd with hd | hd
      · exact hl d hd
      · obtain rfl := List.mem_singleton.mp hd
        have haff := hfu.consistent.sound.affine d a hqa
        rw [ha (hfu.linked.live_parent hqa)] at haff
        obtain ⟨o, ho⟩ := Option.isSome_iff_exists.mp
          (hfu.named.owned d (Heap.live_of_parentOf hqa))
        rw [← haff, ho]
        exact hk.owner d o ho
  obtain ⟨-, hk, -, hl⟩ := deleteMarked_rule hI hf hq
    ⟨refl hf hq, fun _ => rfl, fun d hd => absurd hd List.not_mem_nil⟩ h
  exact ⟨hk, hl⟩

/-- **The start of `run()`**, with the frame of its loop. -/
theorem enterRun {f : Frame} (hf : Forested w) (hq : w.QueuesOwn)
    (h : w.enterRun a = .ok (w', f)) : Keeps w w' ∧ f.node = a ∧
      ∀ fs, w.SlotsOwn fs → w'.SlotsOwn (f :: fs) := by
  obtain ⟨r, n, hr, hclear, hm, rfl⟩ := enterRun_ok h
  obtain ⟨hk, -⟩ := deleteMarked hf hq hr
  have hk' := hk.trans (.clearMarked hk.forested hk.queuesOwn hclear)
  exact ⟨hk', rfl, fun fs hs => (hk'.slots fs hs).push hk'.forested.linked hm _ _ _⟩

end World.Keeps

/-! ### The step lemma -/

namespace Crew

variable {s s' : Crew} {l : CrewStep} {w : World} {a : Addr} {t : ThreadId} {e : ExecutorId}

/-- Changes that move nothing. -/
theorem Inv.keeps (hi : Inv s) (hk : s.world.Keeps w) : Inv (s.withWorld w) where
  forested := hk.forested
  queuesOwn := hk.queuesOwn
  slots t := hk.slots _ (hi.slots t)
  requests e k hmem := (hk.requests e k hmem).elim (hi.requests e k) id
  holdsOwn e x hx o ho := by
    rcases hx with hx | hx
    · rcases hk.pending e x hx with hx | hx
      · exact hi.holdsOwn e x (Or.inl hx) o (hk.owner x o ho)
      · exact hx o ho
    · exact hi.holdsOwn e x (Or.inr hx) o (hk.owner x o ho)

/-- A subtree of which no executor holds a node moves away. -/
theorem Inv.moved (hi : Inv s) (hm : s.world.MovedAway w a) (hc : Consistent w)
    (hun : ∀ x, Below s.world.heap.childrenOf a x → ∀ e, ¬ s.Holds e x) :
    Inv (s.withWorld w) := by
  obtain ⟨target, -, hm⟩ := hm
  have hmem : w.heap.mem = s.world.heap.mem := hm.mem
  have hpar : w.heap.parentOf = s.world.heap.parentOf := by
    funext x
    simp only [Heap.parentOf, hmem]
  have hf : Forested w := ⟨hc, fun x => by rw [hpar]; exact hi.forested.grounded x⟩
  refine ⟨hf, fun x n hn => ?_, fun t => (hi.slots t).congr (fun x => ?_) fun x => ?_,
    fun e k hk => hi.requests e k (hm.queues.tasks e hk), fun e x hx o ho => ?_⟩
  · intro c hcq
    have hn : s.world.heap.mem x = some n := hmem ▸ hn
    exact (congrFun hpar c).trans (hi.queuesOwn x n hn c hcq)
  · exact congrArg (fun m => (m x).map Node.children) hmem
  · exact congrFun hpar x
  · have hold : s.Holds e x := hx.imp_left fun h => hm.queues.pendingDeletes e h
    by_cases hb : Below s.world.heap.childrenOf a x
    · exact absurd hold (hun x hb e)
    · have ho : s.world.heap.ownerOf x = some o := (hm.outside x hb).symm.trans ho
      exact hi.holdsOwn e x hold o ho

/-- The lists and the ticks may shrink, or take in nodes that the executor owns. -/
theorem Inv.reheld (hi : Inv s) (hk : s.world.Keeps s'.world)
    (hslots : ∀ t, s'.world.SlotsOwn (s'.pass t).stack)
    (hheld : ∀ e x, s'.Holds e x → s.Holds e x ∨
      ∀ o, s'.world.heap.ownerOf x = some o → o = e) : Inv s' where
  forested := hk.forested
  queuesOwn := hk.queuesOwn
  slots := hslots
  requests e k hmem := (hk.requests e k hmem).elim (hi.requests e k) id
  holdsOwn e x hx o ho := by
    rcases hheld e x hx with hx | hx
    · exact hi.holdsOwn e x hx o (hk.owner x o ho)
    · exact hx o ho

/-- What a tick holds. -/
theorem holds_pass (hx : (s.pass t).Holds a) : s.Holds (.loop t) a :=
  Or.inr (Or.inr ⟨t, rfl, hx⟩)

/-- **A step of a tick.** The world may change in anything but owners, the tick goes on to nodes
that it held before, or that are children of such nodes. -/
theorem Inv.tick {p : Pass} (hi : Inv s) (hk : s.world.Keeps w) (hslots : w.SlotsOwn p.stack)
    (hheld : ∀ x, p.Holds x → ∀ o, w.heap.ownerOf x = some o → o = .loop t) :
    Inv { s with world := w, pass := Function.update s.pass t p } := by
  refine hi.reheld hk (fun t' => ?_) fun e x hx => ?_
  · by_cases ht : t' = t
    · subst ht
      simpa only [Function.update_self] using hslots
    · simpa only [Function.update_of_ne ht] using hk.slots _ (hi.slots t')
  · rcases hx with hx | hx | ⟨t', rfl, hx⟩
    · exact (hk.pending e x hx).imp_left Or.inl
    · exact Or.inl (Or.inr (Or.inl hx))
    · by_cases ht : t' = t
      · subst ht
        simp only [Function.update_self] at hx
        exact Or.inr (hheld x hx)
      · simp only [Function.update_of_ne ht] at hx
        exact Or.inl (holds_pass hx)

/-- The node whose `run()` is called next belongs to the event loop, if it is alive. -/
theorem Inv.runs (hi : Inv s) (hr : s.Runs t a) (ha : s.world.heap.Live a) :
    s.world.heap.ownerOf a = some (.loop t) := by
  have hown : ∀ x, (s.pass t).Holds x → ∀ o, s.world.heap.ownerOf x = some o → o = .loop t :=
    fun x hx => hi.holdsOwn (.loop t) x (holds_pass hx)
  have hsome : ∀ x, s.world.heap.Live x → ∃ o, s.world.heap.ownerOf x = some o := fun x hx =>
    Option.isSome_iff_exists.mp (hi.forested.named.owned x hx)
  rcases hr with ⟨-, rest, htodo⟩ | ⟨f, fs, hstack, hup, hlt, hread⟩
  · obtain ⟨o, ho⟩ := hsome a ha
    obtain rfl := hown a (Or.inl (htodo ▸ List.mem_cons_self)) o ho
    exact ho
  · have hmem : f ∈ (s.pass t).stack := hstack ▸ List.mem_cons_self
    have hpar := (hi.slots t).read hmem hlt hread ha
    obtain ⟨o, ho⟩ := hsome f.node (hi.forested.linked.live_parent hpar)
    obtain rfl := hown f.node (Or.inr ⟨f, hmem, rfl, hup, hlt⟩) o ho
    rw [hi.forested.consistent.sound.affine a f.node hpar]
    exact ho

/-- **The tick.** -/
theorem Inv.tickStep {k : Tick} (hi : Inv s)
    (hst : Tick.Step t ⟨s.world, (s.pass t).todo, (s.pass t).stack, []⟩ .advance k) :
    Inv { s with world := k.world, pass := Function.update s.pass t ⟨k.todo, k.stack⟩ } := by
  have hf := hi.forested
  have hq := hi.queuesOwn
  have hown : ∀ x, (s.pass t).Holds x → ∀ o, s.world.heap.ownerOf x = some o → o = .loop t :=
    fun x hx => hi.holdsOwn (.loop t) x (holds_pass hx)
  have hslots := hi.slots t
  generalize htodo : (s.pass t).todo = todo at hst
  generalize hstack : (s.pass t).stack = stack at hst hslots
  generalize ([] : List Generation) = u at hst
  have htail : ∀ f x, (∃ g ∈ stack, g.node = x ∧ g.updating = false ∧ g.next < g.stop) →
      f = x → ∀ o, s.world.heap.ownerOf f = some o → o = .loop t := by
    rintro f x hx rfl
    exact hown f (Or.inr (hstack ▸ hx))
  cases hst with
  | @root w w' a todo f u henter =>
      obtain ⟨hk, hnode, hpush⟩ := World.Keeps.enterRun hf hq henter
      refine hi.tick hk (hpush [] hslots) fun x hx o ho => ?_
      replace ho : s.world.heap.ownerOf x = some o := hk.owner x o ho
      rcases hx with hx | ⟨g, hg, rfl, -, -⟩
      · exact hown x (Or.inl (htodo ▸ List.mem_cons_of_mem a hx)) o ho
      · obtain rfl := List.mem_singleton.mp hg
        rw [hnode] at ho
        exact hown a (Or.inl (htodo ▸ List.mem_cons_self)) o ho
  | @child w w' c todo f g fs u hup hlt hread henter =>
      obtain ⟨hk, hnode, hpush⟩ := World.Keeps.enterRun hf hq henter
      have hsame : s.world.SlotsOwn ({ f with next := f.next + 1 } :: fs) :=
        hslots.head rfl rfl
      refine hi.tick hk (hpush _ hsame) fun x hx o ho => ?_
      replace ho : s.world.heap.ownerOf x = some o := hk.owner x o ho
      rcases hx with hx | ⟨y, hy, rfl, hyu, hyl⟩
      · exact hown x (Or.inl (htodo ▸ hx)) o ho
      · rcases List.mem_cons.mp hy with rfl | hy
        · -- the child has the owner of its parent
          rw [hnode] at ho
          have hlive := World.live_of_enterRun henter
          have hpar := hslots.read List.mem_cons_self hlt hread hlive
          rw [hf.consistent.sound.affine c f.node hpar] at ho
          exact htail f.node f.node ⟨f, List.mem_cons_self, rfl, hup, hlt⟩ rfl o ho
        · rcases List.mem_cons.mp hy with rfl | hy
          · exact htail _ f.node ⟨f, List.mem_cons_self, rfl, hup, hlt⟩ rfl o ho
          · exact htail _ y.node ⟨y, List.mem_cons_of_mem f hy, rfl, hyu, hyl⟩ rfl o ho
  | @update w n todo f fs u hup hend hm =>
      have hsame : s.world.SlotsOwn ({ f with updating := true } :: fs) := hslots.head rfl rfl
      refine hi.tick (.refl hf hq) hsame fun x hx o ho => ?_
      rcases hx with hx | ⟨y, hy, rfl, hyu, hyl⟩
      · exact hown x (Or.inl (htodo ▸ hx)) o ho
      · rcases List.mem_cons.mp hy with rfl | hy
        · exact absurd hyu (by simp)
        · exact htail _ y.node ⟨y, List.mem_cons_of_mem f hy, rfl, hyu, hyl⟩ rfl o ho
  | @leave w w' todo f fs u hup hclear =>
      have hk := World.Keeps.clearMarked hf hq hclear
      have hsame : s.world.SlotsOwn fs :=
        hslots.frames fun x hx => ⟨x, List.mem_cons_of_mem f hx, rfl, rfl⟩
      refine hi.tick hk (hk.slots _ hsame) fun x hx o ho => ?_
      replace ho : s.world.heap.ownerOf x = some o := hk.owner x o ho
      rcases hx with hx | ⟨y, hy, rfl, hyu, hyl⟩
      · exact hown x (Or.inl (htodo ▸ hx)) o ho
      · exact htail _ y.node ⟨y, List.mem_cons_of_mem f hy, rfl, hyu, hyl⟩ rfl o ho

/-- A request keeps the state consistent. -/
theorem consistent_call {w w' : World} (hc : Consistent w) (ctx : CallContext) (c : Call)
    (hok : c.Allowed ctx w) (h : c.apply ctx w = .ok w') : Consistent w' := by
  have hop : (Op.call ctx c).Allowed w := hok
  exact Op.consistent_of_apply hc hop h

/-- An executor takes its list of pending deletes. -/
theorem Inv.take (hi : Inv s) : Inv
    { s with
      world := s.world.withExecs (s.world.execs.takePendingDeletes e).2
      batch := Function.update s.batch e
        ((s.world.execs.takePendingDeletes e).1 ++ s.batch e) } := by
  have hn := Executors.nothingQueued_takePendingDeletes (x := s.world.execs) (e := e)
  have hk : s.world.Keeps (s.world.withExecs (s.world.execs.takePendingDeletes e).2) :=
    .of_heap hi.queuesOwn hi.forested rfl
      (hi.forested.consistent.sameBooks Executors.sameBooks_takePendingDeletes
        Executors.sameStrands_takePendingDeletes hn)
      (fun o x hx => Or.inl (hn.pendingDeletes o hx)) fun o k hmem => Or.inl (hn.tasks o hmem)
  refine hi.reheld hk hi.slots fun o x hx => Or.inl ?_
  rcases hx with hx | hx | hx
  · exact Or.inl (hn.pendingDeletes o hx)
  · by_cases ho : o = e
    · subst ho
      simp only [Function.update_self, List.mem_append, Executors.takePendingDeletes_fst] at hx
      exact hx.imp_right Or.inl
    · simp only [Function.update_of_ne ho] at hx
      exact Or.inr (Or.inl hx)
  · exact Or.inr (Or.inr hx)

/-- An executor comes to the next entry of the list it has taken. -/
theorem Inv.deleteNext {rest : List Addr} (hi : Inv s) (hb : s.batch e = a :: rest)
    (h : s.world.deleteIfAlive a = .ok w) :
    Inv { s with world := w, batch := Function.update s.batch e rest } := by
  have hk : s.world.Keeps w := by
    unfold World.deleteIfAlive at h
    split at h
    · exact .delete hi.forested hi.queuesOwn h
    · obtain rfl := Except.ok.inj h
      exact .refl hi.forested hi.queuesOwn
  refine hi.reheld hk (fun t => hk.slots _ (hi.slots t)) fun o x hx => ?_
  rcases hx with hx | hx | hx
  · exact (hk.pending o x hx).imp_left Or.inl
  · refine Or.inl (Or.inr (Or.inl ?_))
    by_cases ho : o = e
    · subst ho
      simp only [Function.update_self] at hx
      exact hb ▸ List.mem_cons_of_mem a hx
    · simpa only [Function.update_of_ne ho] using hx
  · exact Or.inl (Or.inr (Or.inr hx))

/-- **The step lemma.** -/
theorem Inv.step (hi : Inv s) (hun : s.Unheld l) (hst : Step s l s') : Inv s' := by
  have hf := hi.forested
  have hq := hi.queuesOwn
  have hc := hf.consistent
  cases hst with
  | deleteLater h => exact hi.keeps (.deleteLater hf hq h)
  | @moveToThread w ctx a t b h =>
      have hc' : Consistent w := consistent_call hc ctx (.moveToThread a t) trivial
        (by rw [Call.apply, h]; rfl)
      obtain ⟨hmoved, hstays⟩ := World.moveToThread_effect hc h
      by_cases hmv : s.world.MovesToThread ctx a t
      · exact hi.moved (hmoved hmv) hc' (hun a ⟨rfl, hmv⟩)
      · exact hi.keeps (.serves hf hq hc' ((hstays hmv).serves (.loop t)))
  | @moveToTaskPool w ctx a p b h =>
      have hc' : Consistent w := consistent_call hc ctx (.moveToTaskPool a p) trivial
        (by rw [Call.apply, h]; rfl)
      obtain ⟨hmoved, hstays⟩ := World.moveToTaskPool_effect hc h
      by_cases hmv : s.world.MovesToTaskPool ctx a p
      · exact hi.moved (hmoved hmv) hc' (hun a ⟨rfl, hmv⟩)
      · exact hi.keeps (.serves hf hq hc' ((hstays hmv).serves (.loop 0)))
  | @runTask w e h =>
      obtain ⟨w', hw', hc'⟩ := hc.runNextTask e
      obtain rfl := Except.ok.inj (hw'.symm.trans h)
      obtain ⟨hmoved, hserves⟩ := World.runNextTask_effect hc hi.requests h
      by_cases hmv : ∃ a, s.world.TaskMoves e a
      · obtain ⟨a, hmv⟩ := hmv
        exact hi.moved (hmoved a hmv) hc' (hun a hmv)
      · exact hi.keeps (.serves hf hq hc' (hserves fun a ha => hmv ⟨a, ha⟩))
  | take => exact hi.take
  | deleteNext hb h => exact hi.deleteNext hb h
  | @startTick t _ _ =>
      refine hi.tick (p := ⟨s.world.execs.rootNodes (.loop t), []⟩) (.refl hf hq)
        (fun f hmem => absurd hmem List.not_mem_nil) fun x hx o ho => ?_
      rcases hx with hx | ⟨f, hmem, -⟩
      · have hroot := ((hc.sound.balanced.roots (.loop t) x).mp hx).2
        exact Option.some.inj (ho.symm.trans hroot)
      · exact absurd hmem List.not_mem_nil
  | tick h => exact hi.tickStep h

/-- A forest in which nothing is pending. -/
theorem inv_start {w : World} (hf : Forested w) (hq : w.QueuesOwn)
    (ht : ∀ e, w.execs.tasks e = []) (hp : ∀ e, w.execs.pendingDeletes e = []) :
    Inv { world := w } where
  forested := hf
  queuesOwn := hq
  slots _ f hmem := absurd hmem List.not_mem_nil
  requests e k hk := by
    rw [ht] at hk
    exact absurd hk List.not_mem_nil
  holdsOwn e x hx := by
    rcases hx with hx | hx | ⟨t, -, hx | ⟨f, hmem, -⟩⟩
    · rw [show Crew.world { world := w } = w from rfl, hp] at hx
      exact absurd hx List.not_mem_nil
    · exact absurd hx List.not_mem_nil
    · exact absurd hx List.not_mem_nil
    · exact absurd hmem List.not_mem_nil

end Crew

end SimplyNode
