import SimplyNode.Lib.Transition
import SimplyNode.Lib.TreeWalk
import SimplyNode.Names

/-!
# A Migration Step by Step

`Node::applyMoveTo` runs in the old owner, and names the new owner of each node in turn. The
other executors do not wait for it: as soon as a node has a new owner, that owner runs the tasks
that are forwarded to it, and ticks the node when it is a root.

A state of `Handover` is in the middle of one such migration: the world, what is left of
`applyMoveTo`, and what every executor has in hand. The last is what an executor has copied or
taken from its lists and not dealt with yet: the roots that are left of a tick, the children and
the `update()` of the nodes whose `run()` is in progress, and the due timers.

Calls that build, take down or move other trees are not made in the meantime.

## Main results

* `movesOn_of_applyMoveTo`: the parts, made one after another, are `applyMoveTo`.
* `Keeps`: what all other steps leave as it was, with one lemma for each kind of step.
-/

open PointerForest Transition TreeWalk

namespace SimplyNode

/-- The parts of `applyMoveTo` at one node, in their order. -/
inductive MovePart
  /-- The check of the owner, and `onAboutToMoveToThread`. -/
  | cancel
  /-- `removeNode` and `removeRootNode` of the old owner. -/
  | leave
  /-- `setOwnerExecutor`. -/
  | publish
  /-- `addNode` and `addRootNode` of the new owner. -/
  | register
  /-- `onMovedToThread`. -/
  | arm
  /-- The loop over the children. -/
  | children
  deriving DecidableEq

namespace MovePart

/-- The number of a part. -/
def rank : MovePart → ℕ
  | cancel => 0
  | leave => 1
  | publish => 2
  | register => 3
  | arm => 4
  | children => 5

/-- The part that follows. -/
def next : MovePart → MovePart
  | cancel => leave
  | leave => publish
  | publish => register
  | register => arm
  | arm | children => children

theorem rank_next {i : MovePart} (h : i ≠ children) : i.next.rank = i.rank + 1 := by
  cases i with
  | children => exact absurd rfl h
  | _ => rfl

end MovePart

namespace World

variable (w : World)

/-- `setOwnerExecutor` in `applyMoveTo`. -/
def publishOwner (n : Node) (target : ExecutorId) : World :=
  w.withHeap (w.heap.setOwnerExecutor n.generation (some target))

/-- The new owner registers the node. -/
def registerNode (a : Addr) (n : Node) (target : ExecutorId) : World :=
  let x := w.execs.addNodeTo (some target) a
  w.withExecs (if n.isRoot then x.addRootTo (some target) a else x)

theorem enterExecutor_eq (a : Addr) (n : Node) (target : ExecutorId) :
    w.enterExecutor a n target = (w.publishOwner n target).registerNode a n target := rfl

/-- One part of `applyMoveTo` at a node, apart from the loop over the children. -/
def movePart (a : Addr) (n : Node) (target : ExecutorId) : MovePart → World
  | .cancel => w.onAboutToMoveToThread a n
  | .leave => w.leaveExecutor a n
  | .publish => w.publishOwner n target
  | .register => w.registerNode a n target
  | .arm => w.onMovedToThread a n
  | .children => w

/-- A member function of `Timer`, called in the executor `e`: applied if `e` owns the timer, and
posted to the owner otherwise. -/
def controlTimer (e : ExecutorId) (a : Addr) (c : TimerCall) : Outcome World := do
  let n ← w.heap.node a
  match n.cls with
  | .timer t =>
      match w.heap.ownerExecutor n with
      | some o =>
          if o = e then pure (w.applyTimerCall (some o) a t c)
          else pure (w.withExecs (w.execs.post o (.timer (w.heap.nodePtr a) c)))
      | none => pure w
  | _ => pure w

/-- It is the call in a context that is inside `e` and inside of no other owner. -/
theorem timerCall_eq_controlTimer {ctx : CallContext} {e : ExecutorId} {a : Addr}
    (ho : (w.heap.ownerOf a).isSome) (hctx : ∀ o, w.heap.ownerOf a = some o →
      (ctx.isCurrent o = true ↔ o = e)) (c : TimerCall) :
    w.timerCall ctx a c = w.controlTimer e a c := by
  obtain ⟨o, ho⟩ := Option.isSome_iff_exists.mp ho
  obtain ⟨n, hn⟩ := Option.isSome_iff_exists.mp (Heap.live_of_ownerOf ho)
  have howner : w.heap.ownerExecutor n = some o := (Heap.ownerOf_of_mem hn).symm.trans ho
  simp only [timerCall, controlTimer, Heap.node_of_mem hn, Outcome.ok_bind]
  cases n.cls with
  | timer t =>
      simp only [howner]
      by_cases he : o = e
      · rw [if_pos ((hctx o ho).mpr he), if_pos he]
      · rw [if_neg (fun h => he ((hctx o ho).mp h)), if_neg he]
  | _ => rfl

end World

namespace Task

/-- The task is a slot, a control call or a timeout, or some other function of the user. -/
def Plain : Task → Prop
  | .slot .. | .timer .. | .timeout .. | .call _ => True
  | _ => False

/-- The node that the task runs on when the executor `e` runs it. There is none when the task is
dropped or forwarded. -/
def runsOn (h : Heap) (e : ExecutorId) : Task → Option Addr
  | .slot a g _ =>
      if (h.blocks g).alive && !(h.blocks g).markedForDelete &&
        (h.blocks g).owner.all (· == e) then some a else none
  | .timer p _ => if h.isAlive p && h.ownerOf p.node == some e then some p.node else none
  | .timeout p _ => if h.isAlive p && h.ownerOfPtr p == some e then some p.node else none
  | _ => none

end Task

/-- A plain task, run by the executor `e`. -/
def World.runPlain (w : World) (e : ExecutorId) : Task → Outcome World
  | .slot a g c => pure (w.runSlotTask e g (.slot a g c))
  | .timer p c => if w.heap.isAlive p then w.controlTimer e p.node c else pure w
  | .timeout p g => w.runTimeoutTask e p g
  | _ => pure w

/-- What an executor has in hand: a node that is to be run or updated in the tick in progress, or an
entry of a timer that is due. -/
inductive Held
  | run (a : Addr)
  | update (a : Addr)
  | timeout (x : TimerEntry)
  deriving DecidableEq

/-- The node that it is about. -/
def Held.node : Held → Addr
  | run a | update a => a
  | timeout x => x.timer

/-- A migration in progress. -/
structure Handover where
  world : World
  /-- What is left of `applyMoveTo`. -/
  program : List (Visit Addr MovePart)
  /-- What the executors have in hand. -/
  inHand : ExecutorId → List Held

namespace Handover

variable (s : Handover)

/-- The next part of `applyMoveTo`. -/
def moveOn (target : ExecutorId) : Option Handover :=
  match s.program with
  | [] => none
  | ⟨a, part⟩ :: rest => (s.world.heap.mem a).map fun n =>
      if part = .cancel ∧ s.world.heap.ownerExecutor n = some target then
        { s with program := rest }
      else if part = .children then
        { s with program := childVisits s.world.heap.childrenOf a .cancel ++ rest }
      else
        { s with
          world := s.world.movePart a n target part
          program := ⟨a, part.next⟩ :: rest }

/-! ### The parts make the migration -/

/-- Parts of `applyMoveTo` lead from one state to the other. -/
def MovesOn (target : ExecutorId) : Handover → Handover → Prop :=
  Relation.ReflTransGen fun s s' => s.moveOn target = some s'

variable {s} {w w' : World} {a : Addr} {n : ℕ} {target : ExecutorId} {m : Node}
  {rest : List (Visit Addr MovePart)} {hand : ExecutorId → List Held} {i : MovePart}

/-- A part before the loop over the children. -/
theorem moveOn_part (hm : w.heap.mem a = some m) (hi : i ≠ .children)
    (ho : i = .cancel → w.heap.ownerExecutor m ≠ some target) :
    moveOn ⟨w, ⟨a, i⟩ :: rest, hand⟩ target =
      some ⟨w.movePart a m target i, ⟨a, i.next⟩ :: rest, hand⟩ := by
  simp only [moveOn, hm, Option.map_some]
  rw [if_neg (fun h => ho h.1 h.2), if_neg hi]

/-- The loop over the children. -/
theorem moveOn_children (hm : w.heap.mem a = some m) :
    moveOn ⟨w, ⟨a, .children⟩ :: rest, hand⟩ target =
      some ⟨w, childVisits w.heap.childrenOf a .cancel ++ rest, hand⟩ := by
  simp [moveOn, hm]

/-- No part changes an object. -/
theorem mem_movePart (w : World) (a : Addr) (m : Node) (target : ExecutorId) (i : MovePart) :
    (w.movePart a m target i).heap.mem = w.heap.mem := by
  cases i with
  | cancel => exact congrArg Heap.mem World.heap_onAboutToMoveToThread
  | leave | publish | register | children => rfl
  | arm => exact congrArg Heap.mem World.heap_onMovedToThread

/-- A node with another owner goes through all parts, up to the loop over the children. -/
theorem movesOn_node (hm : w.heap.mem a = some m)
    (ho : w.heap.ownerExecutor m ≠ some target) :
    MovesOn target ⟨w, ⟨a, .cancel⟩ :: rest, hand⟩
      ⟨w.moveNode a m target, ⟨a, .children⟩ :: rest, hand⟩ := by
  have hpart : ∀ (v : World) (i : MovePart), v.heap.mem = w.heap.mem → i ≠ .children →
      i ≠ .cancel → moveOn ⟨v, ⟨a, i⟩ :: rest, hand⟩ target =
        some ⟨v.movePart a m target i, ⟨a, i.next⟩ :: rest, hand⟩ := by
    intro v i hv hi hc
    exact moveOn_part (hv ▸ hm) hi fun h => absurd h hc
  have h₁ : moveOn ⟨w, ⟨a, .cancel⟩ :: rest, hand⟩ target =
      some ⟨w.movePart a m target .cancel, ⟨a, .leave⟩ :: rest, hand⟩ :=
    moveOn_part hm (by decide) fun _ => ho
  have e₁ := mem_movePart w a m target .cancel
  have h₂ := hpart _ .leave e₁ (by decide) (by decide)
  have e₂ := (mem_movePart _ a m target .leave).trans e₁
  have h₃ := hpart _ .publish e₂ (by decide) (by decide)
  have e₃ := (mem_movePart _ a m target .publish).trans e₂
  have h₄ := hpart _ .register e₃ (by decide) (by decide)
  have e₄ := (mem_movePart _ a m target .register).trans e₃
  have h₅ := hpart _ .arm e₄ (by decide) (by decide)
  exact .head h₁ (.head h₂ (.head h₃ (.head h₄ (.single h₅))))

/-- The children, one after another. -/
theorem movesOn_children (ih : ∀ {w w' : World} {a : Addr} {rest : List (Visit Addr MovePart)},
      World.applyMoveTo n w a target = .ok w' →
        MovesOn target ⟨w, ⟨a, .cancel⟩ :: rest, hand⟩ ⟨w', rest, hand⟩)
    (kids : List Addr)
    (h : kids.foldlM (fun w c => World.applyMoveTo n w c target) w = .ok w') :
    MovesOn target ⟨w, kids.map (fun c => ⟨c, .cancel⟩) ++ rest, hand⟩
      ⟨w', rest, hand⟩ := by
  induction kids generalizing w with
  | nil =>
      obtain rfl := Except.ok.inj h
      exact .refl
  | cons c kids ihk =>
      rw [List.foldlM_cons] at h
      obtain ⟨v, hv, h⟩ := Outcome.bind_eq_ok.mp h
      exact (ih hv).trans (ihk h)

/-- **The parts, made one after another, are `applyMoveTo`.** -/
theorem movesOn_of_applyMoveTo (h : World.applyMoveTo n w a target = .ok w') :
    MovesOn target ⟨w, ⟨a, .cancel⟩ :: rest, hand⟩ ⟨w', rest, hand⟩ := by
  induction n generalizing w w' a rest with
  | zero => exact absurd h (by simp [World.applyMoveTo])
  | succ n ih =>
      rw [World.applyMoveTo] at h
      obtain ⟨m, hm, h⟩ := Outcome.bind_eq_ok.mp h
      rw [Heap.node_eq_ok] at hm
      by_cases ho : w.heap.ownerExecutor m = some target
      · rw [if_pos ho] at h
        obtain rfl := Except.ok.inj h
        refine .single ?_
        simp [moveOn, hm, ho]
      · rw [if_neg ho] at h
        have hmem : (w.moveNode a m target).heap.mem a = some m := by
          rw [World.heap_moveNode target hm]
          exact hm
        exact (movesOn_node hm ho).trans (.head (moveOn_children hmem)
          (movesOn_children ih _ h))

end Handover

/-! ### The steps -/

/-- The steps of a migration from the executor `old`.

* `move`: the next part of `applyMoveTo`.
* `post`: any thread posts a task to an executor.
* `task`: an executor runs its next task.
* `call`: the code of an executor calls a member function of a timer.
* `roots`: an event loop copies its root list, for a tick.
* `due`: an event loop takes its due timers.
* `hand`: an executor goes on with what it has in hand.
* `clock`: time passes. -/
inductive HandoverStep
  | move
  | post (e : ExecutorId) (k : Task)
  | task (e : ExecutorId)
  | call (e : ExecutorId) (a : Addr) (c : TimerCall)
  | roots (t : ThreadId)
  | due (t : ThreadId)
  | hand (e : ExecutorId)
  | clock (now : TimePoint)
  deriving DecidableEq

namespace Handover

/-- The executor is not in the middle of `applyMoveTo`. -/
def Free (s : Handover) (old e : ExecutorId) : Prop := e = old → s.program = []

/-- An executor has something else in hand. -/
def take (s : Handover) (e : ExecutorId) (l : List Held) : Handover :=
  { s with inHand := Function.update s.inHand e l }

/-- **One step**, while the executor `old` moves a node to the executor `target`. -/
inductive Step (old target : ExecutorId) : Handover → HandoverStep → Handover → Prop
  | move {s s' : Handover} : s.moveOn target = some s' → Step old target s .move s'
  | post {s : Handover} {e : ExecutorId} {k : Task} :
      k.Plain → k.Names s.world.heap →
      Step old target s (.post e k)
        { s with world := s.world.withExecs (s.world.execs.post e k) }
  | task {s : Handover} {e : ExecutorId} {k : Task} {x : Executors} {w : World} :
      s.Free old e → s.world.execs.popTask e = some (k, x) → k.Plain →
      (s.world.withExecs x).runPlain e k = .ok w →
      Step old target s (.task e) { s with world := w }
  | call {s : Handover} {e : ExecutorId} {a : Addr} {c : TimerCall} {w : World} :
      s.Free old e → s.world.controlTimer e a c = .ok w →
      Step old target s (.call e a c) { s with world := w }
  | roots {s : Handover} {t : ThreadId} :
      s.Free old (.loop t) →
      Step old target s (.roots t) (s.take (.loop t)
        (s.inHand (.loop t) ++ (s.world.execs.loops t).rootNodes.map .run))
  | due {s : Handover} {t : ThreadId} :
      s.Free old (.loop t) →
      Step old target s (.due t) ({ s with
        world := s.world.withExecs (s.world.execs.modifyLoop t fun l =>
          (l.takeDueTimers s.world.now).2) }.take (.loop t)
        (s.inHand (.loop t) ++
          ((s.world.execs.loops t).takeDueTimers s.world.now).1.map Held.timeout))
  | run {s : Handover} {e : ExecutorId} {a : Addr} {rest : List Held} :
      s.Free old e → s.inHand e = .run a :: rest →
      Step old target s (.hand e)
        (s.take e ((s.world.heap.childrenOf a).map .run ++ .update a :: rest))
  | update {s : Handover} {e : ExecutorId} {a : Addr} {rest : List Held} :
      s.Free old e → s.inHand e = .update a :: rest →
      Step old target s (.hand e) (s.take e rest)
  | timeout {s : Handover} {e : ExecutorId} {x : TimerEntry} {rest : List Held} {b : Bool}
      {w : World} :
      s.Free old e → s.inHand e = .timeout x :: rest →
      s.world.dispatchTimeout x.timer x.generation = .ok (b, w) →
      Step old target s (.hand e) ({ s with world := w }.take e rest)
  | clock {s : Handover} {now : TimePoint} :
      s.world.now ≤ now →
      Step old target s (.clock now) { s with world := { s.world with now := now } }

/-- The executor that makes a step on a node, and the node. -/
def acts (s : Handover) (old : ExecutorId) : HandoverStep → Option (ExecutorId × Addr)
  | .move => s.program.head?.map fun k => (old, k.node)
  | .task e => (s.world.execs.popTask e).bind fun (k, _) =>
      (k.runsOn s.world.heap e).map fun a => (e, a)
  | .call e a _ => if s.world.heap.ownerOf a = some e then some (e, a) else none
  | .hand e => (s.inHand e).head?.map fun h => (e, h.node)
  | _ => none

end Handover

/-! ### What the other steps leave as it was -/

/-- `post` leaves the timers of the event loops alone. -/
theorem timers_post {x : Executors} {e : ExecutorId} {k : Task} {t : ThreadId} :
    ((x.post e k).loops t).timers = (x.loops t).timers := by
  cases e with
  | loop th =>
      by_cases ht : t = th
      · subst ht
        simp [Executors.post, Executors.modifyLoop, EventLoop.post]
      · simp [Executors.post, Executors.modifyLoop, ht]
  | strand j =>
      simp only [Executors.post, Executors.postStrand]
      split
      · rfl
      · split
        · rfl
        · rw [Executors.scheduleStrand]
          split <;> rfl

/-- So does taking a task. -/
theorem timers_popTask {x y : Executors} {e : ExecutorId} {k : Task} {t : ThreadId}
    (h : x.popTask e = some (k, y)) : (y.loops t).timers = (x.loops t).timers := by
  cases e with
  | loop th =>
      simp only [Executors.popTask] at h
      split at h
      · exact absurd h (by simp)
      · obtain ⟨-, rfl⟩ := Prod.mk.inj (Option.some.inj h)
        by_cases ht : t = th
        · subst ht
          simp [Executors.modifyLoop]
        · simp [Executors.modifyLoop, ht]
  | strand j =>
      simp only [Executors.popTask] at h
      split at h
      · exact absurd h (by simp)
      · obtain ⟨-, rfl⟩ := Prod.mk.inj (Option.some.inj h)
        rfl

/-- A step that makes no part of the migration, and runs on the node `x` if it runs on one, keeps
the tree, the owners and the root lists. It queues tasks that can be relied on, and schedules no
timer but `x`, with its owner. -/
structure Keeps (w w' : World) (x : Option Addr) : Prop where
  tree : Heap.SameTree w.heap w'.heap
  timers : ∀ a, w'.heap.isTimer a = w.heap.isTimer a
  books : Executors.SameBooks w.execs w'.execs
  entries : ∀ t, ∀ y ∈ (w'.execs.loops t).timers, y ∈ (w.execs.loops t).timers ∨
    x = some y.timer ∧ w.heap.ownerOf y.timer = some (.loop t) ∧ w.heap.isTimer y.timer = true
  tasks : ∀ e, ∀ k ∈ w'.execs.tasks e, k ∈ w.execs.tasks e ∨ k.Names w'.heap

namespace Keeps

variable {w w' w'' : World} {x : Option Addr} {a : Addr} {e : ExecutorId} {k : Task}
  {t : TimerState} {m : Node}

theorem refl (w : World) (x : Option Addr) : Keeps w w x :=
  ⟨.refl _, fun _ => rfl, .refl _, fun _ _ h => Or.inl h, fun _ _ h => Or.inl h⟩

theorem trans (h : Keeps w w' x) (h' : Keeps w' w'' x) : Keeps w w'' x where
  tree := h.tree.trans h'.tree
  timers a := (h'.timers a).trans (h.timers a)
  books := h.books.trans h'.books
  entries t y hy := by
    rcases h'.entries t y hy with hy | ⟨hx, ho, ht⟩
    · exact h.entries t y hy
    · exact Or.inr ⟨hx, (h.tree.ownerOf _).symm.trans ho, (h.timers _).symm.trans ht⟩
  tasks e k hk := by
    rcases h'.tasks e k hk with hk | hk
    · rcases h.tasks e k hk with hk | hk
      · exact Or.inl hk
      · exact Or.inr (hk.keeps (.sameTree h'.tree))
    · exact Or.inr hk

/-- The executors may change in their tasks and their due timers. -/
theorem ofExecs {y : Executors} (hb : Executors.SameBooks w.execs y)
    (he : ∀ t, ∀ z ∈ (y.loops t).timers, z ∈ (w.execs.loops t).timers ∨
      x = some z.timer ∧ w.heap.ownerOf z.timer = some (.loop t) ∧
        w.heap.isTimer z.timer = true)
    (ht : ∀ e, ∀ k ∈ y.tasks e, k ∈ w.execs.tasks e ∨ k.Names w.heap) :
    Keeps w (w.withExecs y) x :=
  ⟨.refl _, fun _ => rfl, hb, he, ht⟩

theorem post (hk : k.Names w.heap) : Keeps w (w.withExecs (w.execs.post e k)) x := by
  refine ofExecs Executors.sameBooks_post (fun t z hz => Or.inl ?_) fun e' k' hk' => ?_
  · rwa [timers_post] at hz
  · rcases Executors.mem_tasks_post hk' with rfl | hk'
    · exact Or.inr hk
    · exact Or.inl hk'

theorem setTimer (hm : w.heap.mem a = some m) (ht : m.cls.isTimer = true) :
    Keeps w (w.setTimer a t) x where
  tree := .setTimer w a t
  timers b := by
    rw [Heap.isTimer, Heap.isTimer, World.setTimer, World.heap_modifyNode, Heap.mem_modifyNode]
    split <;> rename_i hb
    · rw [hb, hm]
      exact ht.symm
    · rfl
  books := .refl _
  entries t y hy := Or.inl hy
  tasks e k hk := Or.inl hk

theorem cancelTimer {o : Option ExecutorId} :
    Keeps w (w.withExecs (w.execs.cancelTimerWith o a)) x := by
  refine ofExecs Executors.sameBooks_cancelTimerWith (fun t z hz => Or.inl ?_)
    fun e k hk => Or.inl (Executors.nothingQueued_cancelTimerWith.tasks e hk)
  rw [Executors.loops_cancelTimerWith] at hz
  exact (List.mem_filter.mp hz).1

theorem scheduleTimer {o : Option ExecutorId} {p : NodePtr} {d : TimePoint} {g : ℕ}
    (hx : x = some p.node) (ho : w.heap.ownerOf p.node = o)
    (ht : w.heap.isTimer p.node = true) :
    Keeps w (w.withExecs (w.execs.scheduleTimerWith o p d g)) x := by
  refine ofExecs Executors.sameBooks_scheduleTimerWith (fun t z hz => ?_)
    fun e k hk => Or.inl (Executors.nothingQueued_scheduleTimerWith.tasks e hk)
  rcases o with - | th | j
  · exact Or.inl hz
  · by_cases hth : t = th
    · subst hth
      simp only [Executors.scheduleTimerWith, Executors.scheduleTimer, Executors.modifyLoop,
        Function.update_self] at hz
      rcases List.mem_append.mp hz with hz | hz
      · exact Or.inl (List.mem_filter.mp hz).1
      · rw [List.mem_singleton.mp hz]
        exact Or.inr ⟨hx, ho, ht⟩
    · simp only [Executors.scheduleTimerWith, Executors.scheduleTimer, Executors.modifyLoop,
        Function.update_of_ne hth] at hz
      exact Or.inl hz
  · exact Or.inl hz

/-! ### Calls on timers, and tasks -/

/-- What the member functions of `Timer` do inside the owner. -/
theorem applyTimerCall {c : TimerCall} (hm : w.heap.mem a = some m) (ht : m.cls = .timer t) :
    Keeps w (w.applyTimerCall (w.heap.ownerExecutor m) a t c) (some a) := by
  have hcls : m.cls.isTimer = true := by
    rw [ht]
    rfl
  have hset : ∀ t', Keeps w (w.setTimer a t') (some a) := fun t' => setTimer hm hcls
  have harm : ∀ t', Keeps w ((w.setTimer a t').armTimer (w.heap.ownerExecutor m) a t')
      (some a) := by
    intro t'
    have hset := hset t'
    refine hset.trans (scheduleTimer rfl ?_ ?_)
    · exact (hset.tree.ownerOf a).trans (Heap.ownerOf_of_mem hm)
    · refine (hset.timers a).trans ?_
      simp [Heap.isTimer, hm, hcls]
  cases c with
  | start | startWith => exact harm _
  | stop => exact (hset _).trans cancelTimer
  | setInterval i =>
      simp only [World.applyTimerCall]
      split
      · exact harm _
      · exact hset _
  | setSingleShot b => exact hset _

/-- `dispatchTimeout`. -/
theorem dispatchTimeout {g : ℕ} {b : Bool} (h : w.dispatchTimeout a g = .ok (b, w')) :
    Keeps w w' (some a) := by
  obtain ⟨n, hn, h⟩ := Outcome.bind_eq_ok.mp h
  rw [Heap.node_eq_ok] at hn
  cases hcls : n.cls with
  | timer t =>
      have htimer : n.cls.isTimer = true := by
        rw [hcls]
        rfl
      have hset : ∀ t', Keeps w (w.setTimer a t') (some a) := fun t' => setTimer hn htimer
      simp only [hcls] at h
      split at h
      · obtain ⟨-, rfl⟩ := Prod.mk.inj (Except.ok.inj h)
        exact .refl w _
      · split at h
        · obtain ⟨-, rfl⟩ := Prod.mk.inj (Except.ok.inj h)
          exact hset _
        · obtain ⟨-, rfl⟩ := Prod.mk.inj (Except.ok.inj h)
          refine (hset _).trans (scheduleTimer rfl ?_ ?_)
          · exact ((hset _).tree.ownerOf a).trans (Heap.ownerOf_of_mem hn)
          · refine ((hset _).timers a).trans ?_
            simp [Heap.isTimer, hn, htimer]
  | plain | pooled | eventLoopOnly =>
      simp only [hcls] at h
      obtain ⟨-, rfl⟩ := Prod.mk.inj (Except.ok.inj h)
      exact .refl w _

/-- A member function of `Timer`. -/
theorem controlTimer {c : TimerCall} (hn : w.heap.Named) (h : w.controlTimer e a c = .ok w') :
    Keeps w w' (if w.heap.ownerOf a = some e then some a else none) := by
  obtain ⟨n, hm, h⟩ := Outcome.bind_eq_ok.mp h
  rw [Heap.node_eq_ok] at hm
  have hown : w.heap.ownerOf a = w.heap.ownerExecutor n := Heap.ownerOf_of_mem hm
  cases hcls : n.cls with
  | timer t =>
      simp only [hcls] at h
      cases ho : w.heap.ownerExecutor n with
      | none =>
          simp only [ho] at h
          obtain rfl := Except.ok.inj h
          exact .refl w _
      | some o =>
          simp only [ho] at h
          by_cases he : o = e
          · rw [if_pos he] at h
            obtain rfl := Except.ok.inj h
            rw [hown, ho, he, if_pos rfl, ← he, ← ho]
            exact applyTimerCall hm hcls
          · rw [if_neg he] at h
            obtain rfl := Except.ok.inj h
            exact post (hn.namesPtr a)
  | plain | pooled | eventLoopOnly =>
      simp only [hcls] at h
      obtain rfl := Except.ok.inj h
      exact .refl w _

/-- A plain task. -/
theorem runPlain (hn : w.heap.Named) (hnames : k.Names w.heap)
    (h : w.runPlain e k = .ok w') : Keeps w w' (k.runsOn w.heap e) := by
  cases k with
  | slot a g c =>
      obtain rfl := Except.ok.inj h
      rw [World.runSlotTask]
      split
      · exact .refl w _
      · split
        · split
          · exact post hnames
          · exact .refl w _
        · exact .refl w _
  | timer p c =>
      rw [World.runPlain] at h
      by_cases halive : w.heap.isAlive p = true
      · rw [if_pos halive] at h
        have hk := controlTimer hn h
        by_cases ho : w.heap.ownerOf p.node = some e
        · rw [if_pos ho] at hk
          simpa [Task.runsOn, halive, ho] using hk
        · rw [if_neg ho] at hk
          simpa [Task.runsOn, ho] using hk
      · rw [if_neg halive] at h
        obtain rfl := Except.ok.inj h
        exact .refl w _
  | timeout p g =>
      have h : w.runTimeoutTask e p g = .ok w' := h
      rw [World.runTimeoutTask] at h
      split at h <;> rename_i halive
      · obtain ⟨⟨b, u⟩, hd, h⟩ := Outcome.bind_eq_ok.mp h
        obtain rfl := Except.ok.inj h
        rw [Task.runsOn, if_pos halive]
        exact dispatchTimeout hd
      · obtain rfl := Except.ok.inj h
        exact .refl w _
  | deleteNode | moveToThread | moveToTaskPool | call =>
      obtain rfl := Except.ok.inj h
      exact .refl w _

/-- The next task is taken. -/
theorem popTask {y : Executors} (h : w.execs.popTask e = some (k, y)) :
    Keeps w (w.withExecs y) x := by
  refine ofExecs (Executors.sameBooks_popTask h).1 (fun t z hz => Or.inl ?_)
    fun e k hk => Or.inl ((Executors.nothingQueued_popTask h).1.tasks e hk)
  rwa [timers_popTask h] at hz

/-- The due timers of an event loop are taken. -/
theorem takeDueTimers {t : ThreadId} {now : TimePoint} :
    Keeps w (w.withExecs (w.execs.modifyLoop t fun l => (l.takeDueTimers now).2)) x := by
  have hq : Executors.NothingQueued w.execs
      (w.execs.modifyLoop t fun l => (l.takeDueTimers now).2) :=
    .modifyLoop w.execs t (fun _ => List.Subset.refl _) fun _ => List.Subset.refl _
  refine ofExecs (.modifyLoop _ t (fun _ => rfl) fun _ => rfl) (fun t' z hz => Or.inl ?_)
    fun e k hk => Or.inl (hq.tasks e hk)
  by_cases ht : t' = t
  · subst ht
    simp only [Executors.modifyLoop, Function.update_self] at hz
    exact (List.mem_filter.mp hz).1
  · simp only [Executors.modifyLoop, Function.update_of_ne ht] at hz
    exact hz

end Keeps

namespace Handover

variable {s s' : Handover} {old target e : ExecutorId} {l : HandoverStep} {h : Held}

/-- Where an executor has what it has in hand after a step from. -/
inductive Source (s : Handover) (e : ExecutorId) : Held → Prop
  | held {h : Held} : h ∈ s.inHand e → Source s e h
  | root {a : Addr} : a ∈ s.world.execs.rootNodes e → Source s e (.run a)
  | due {t : ThreadId} {x : TimerEntry} :
      e = .loop t → x ∈ (s.world.execs.loops t).timers → Source s e (.timeout x)
  | child {p c : Addr} :
      .run p ∈ s.inHand e → c ∈ s.world.heap.childrenOf p → Source s e (.run c)
  | self {p : Addr} : .run p ∈ s.inHand e → Source s e (.update p)

/-- What a step does: a part of the migration, or a step that keeps what `Keeps` says. -/
inductive Kind (s : Handover) (old target : ExecutorId) : HandoverStep → Handover → Prop
  | moves {s' : Handover} : s.moveOn target = some s' → Kind s old target .move s'
  | keeps {l : HandoverStep} {s' : Handover} :
      l ≠ .move → Keeps s.world s'.world ((s.acts old l).map Prod.snd) →
      s'.program = s.program →
      (∀ e, s'.inHand e = s.inHand e ∨ s.Free old e ∧ ∀ h ∈ s'.inHand e, Source s e h) →
      Kind s old target l s'

/-- What an executor has in hand after it has changed that. -/
theorem source_take {w : World} {held : List Held} (hf : s.Free old e)
    (hl : ∀ h ∈ held, Source s e h) : ∀ e',
    ({ s with world := w }.take e held).inHand e' = s.inHand e' ∨ s.Free old e' ∧
      ∀ h ∈ ({ s with world := w }.take e held).inHand e', Source s e' h := by
  intro e'
  by_cases he : e' = e
  · subst he
    simp only [take, Function.update_self]
    exact Or.inr ⟨hf, hl⟩
  · exact Or.inl (Function.update_of_ne he ..)

/-- **What a step can do.** -/
theorem Step.kind (hn : s.world.heap.Named)
    (ht : ∀ e, ∀ k ∈ s.world.execs.tasks e, k.Names s.world.heap)
    (h : Step old target s l s') :
    Kind s old target l s' := by
  cases h with
  | move h => exact .moves h
  | post hp hk => exact .keeps (by simp) (.post hk) rfl fun _ => Or.inl rfl
  | @task e k x w hf hpop hp hrun =>
      refine .keeps (by simp) ?_ rfl fun _ => Or.inl rfl
      have hk := ht e k (Executors.nothingQueued_popTask hpop).2
      have hacts : (s.acts old (.task e)).map Prod.snd = k.runsOn s.world.heap e := by
        simp [acts, hpop, Function.comp_def]
      rw [hacts]
      exact (Keeps.popTask hpop).trans (Keeps.runPlain (w := s.world.withExecs x) hn hk hrun)
  | @call e a c w hf hc =>
      refine .keeps (by simp) ?_ rfl fun _ => Or.inl rfl
      have hk := Keeps.controlTimer hn hc
      rw [acts]
      split at hk <;> rename_i ho
      · rw [if_pos ho]
        exact hk
      · rw [if_neg ho]
        exact hk
  | @roots t hf =>
      refine .keeps (by simp) (.refl _ _) rfl (source_take hf fun h hh => ?_)
      rcases List.mem_append.mp hh with hh | hh
      · exact .held hh
      · obtain ⟨a, ha, rfl⟩ := List.mem_map.mp hh
        exact .root ha
  | @due t hf =>
      refine .keeps (by simp) .takeDueTimers rfl (source_take hf fun h hh => ?_)
      rcases List.mem_append.mp hh with hh | hh
      · exact .held hh
      · obtain ⟨x, hx, rfl⟩ := List.mem_map.mp hh
        exact .due rfl (List.mem_filter.mp hx).1
  | @run e a rest hf hh =>
      have hmem : Held.run a ∈ s.inHand e := hh ▸ List.mem_cons_self
      refine .keeps (by simp) (.refl _ _) rfl (source_take hf fun h hh' => ?_)
      rcases List.mem_append.mp hh' with hh' | hh'
      · obtain ⟨c, hc, rfl⟩ := List.mem_map.mp hh'
        exact .child hmem hc
      · rcases List.mem_cons.mp hh' with rfl | hh'
        · exact .self hmem
        · exact .held (hh ▸ List.mem_cons_of_mem _ hh')
  | @update e a rest hf hh =>
      refine .keeps (by simp) (.refl _ _) rfl (source_take hf fun h hh' => ?_)
      exact .held (hh ▸ List.mem_cons_of_mem _ hh')
  | @timeout e x rest b w hf hh hd =>
      have hacts : (s.acts old (.hand e)).map Prod.snd = some x.timer := by
        simp [acts, hh, Held.node]
      refine .keeps (by simp) ?_ rfl (source_take hf fun h hh' => ?_)
      · rw [hacts]
        exact .dispatchTimeout hd
      · exact .held (hh ▸ List.mem_cons_of_mem _ hh')
  | clock => exact .keeps (by simp) ⟨.refl _, fun _ => rfl, .refl _, fun _ _ h => Or.inl h,
      fun _ _ h => Or.inl h⟩ rfl fun _ => Or.inl rfl

end Handover

end SimplyNode
