import SimplyNode.Node

/-!
# Removing Nodes from the Executors

A destructor cancels the node's timer with its owner, leaves the root list, and removes the
node's registration, with the destructors of the children in between. `Executors.without`
is the effect of all this for a list of nodes at once: the registrations and the armed
timers of the listed nodes are gone, and the counts of the strands that own them are lowered.

## Main results

* `Executors.without_without`: removing one list after another is removing both.
* `Executors.without_cons`: the steps around a destructor's recursion remove one node more.
* `Executors.removeRootFrom_without`, `Executors.removeRootFrom_cancelTimerWith`: leaving a
  root list does not interfere.
-/

namespace SimplyNode

namespace EventLoop

/-- The loop without the registrations of the nodes `own` and the timers of `timed`. -/
def forget (l : EventLoop) (own timed : Addr → Bool) : EventLoop :=
  { l with
    nodes := l.nodes.filter (!own ·)
    timers := l.timers.filter (!timed ·.timer) }

variable {l : EventLoop} {own own' timed timed' : Addr → Bool}

/-- Forgetting twice is forgetting what either names. -/
theorem forget_forget :
    (l.forget own timed).forget own' timed' =
      l.forget (fun a => own a || own' a) (fun a => timed a || timed' a) := by
  simp only [forget, List.filter_filter, Bool.not_or, Bool.and_comm]

/-- Forgetting nothing. -/
@[simp] theorem forget_false : l.forget (fun _ => false) (fun _ => false) = l := by
  simp [forget]

/-- `removeNode` of a loop. -/
theorem removeNode_eq_forget (a : Addr) :
    l.removeNode a = l.forget (fun b => decide (b = a)) fun _ => false := by
  simp [forget, removeNode]

/-- `cancelTimer` of a loop. -/
theorem cancelTimer_eq_forget (a : Addr) :
    l.cancelTimer a = l.forget (fun _ => false) fun b => decide (b = a) := by
  simp [forget, cancelTimer]

end EventLoop

namespace Strand

/-- The strand with `n` nodes less. -/
def forget (s : Strand) (n : ℕ) : Strand := { s with nodeCount := s.nodeCount - n }

/-- Forgetting twice is forgetting as many nodes together. -/
theorem forget_forget {s : Strand} {n m : ℕ} : (s.forget n).forget m = s.forget (n + m) := by
  simp only [forget, Int.natCast_add, Int.sub_sub]

/-- Forgetting no node. -/
@[simp] theorem forget_zero {s : Strand} : s.forget 0 = s := by
  simp [forget]

/-- `removeNode` of a strand. -/
theorem removeNode_eq_forget {s : Strand} : s.removeNode = s.forget 1 := rfl

end Strand

namespace TaskPool

/-- The pool without the armed timers of `timed`. -/
def forget (p : TaskPool) (timed : Addr → Bool) : TaskPool :=
  { p with timers := p.timers.filter (!timed ·.timer.node) }

/-- Forgetting twice is forgetting what either names. -/
theorem forget_forget {p : TaskPool} {timed timed' : Addr → Bool} :
    (p.forget timed).forget timed' = p.forget fun a => timed a || timed' a := by
  simp only [forget, List.filter_filter, Bool.not_or, Bool.and_comm]

/-- Forgetting nothing. -/
@[simp] theorem forget_false {p : TaskPool} : (p.forget fun _ => false) = p := by
  simp [forget]

/-- `cancelTimer` of a pool. -/
theorem cancelTimer_eq_forget {p : TaskPool} (a : Addr) :
    p.cancelTimer a = p.forget fun b => decide (b = a) := by
  simp [forget, cancelTimer]

end TaskPool

namespace Executors

variable (x : Executors)

/-- Changes the data of one executor, if there is one. -/
def modifyExecutor (e : Option ExecutorId) (f : EventLoop → EventLoop) (g : Strand → Strand) :
    Executors :=
  match e with
  | some (.loop t) => x.modifyLoop t f
  | some (.strand s) => x.modifyStrand s g
  | none => x

section Modify

variable {x} {f : EventLoop → EventLoop} {g : Strand → Strand}

/-- Only the loop that is the executor is changed. -/
theorem loops_modifyExecutor (e : Option ExecutorId) (t : ThreadId) :
    (x.modifyExecutor e f g).loops t =
      if e = some (.loop t) then f (x.loops t) else x.loops t := by
  rcases e with - | th | s
  · rfl
  · by_cases ht : th = t
    · subst ht
      simp [modifyExecutor, modifyLoop]
    · simp [modifyExecutor, modifyLoop, ht, Ne.symm ht]
  · rfl

/-- Only the strand that is the executor is changed. -/
theorem strands_modifyExecutor (e : Option ExecutorId) (s : StrandId) :
    (x.modifyExecutor e f g).strands s =
      if e = some (.strand s) then g (x.strands s) else x.strands s := by
  rcases e with - | t | st
  · rfl
  · rfl
  · by_cases hs : st = s
    · subst hs
      simp [modifyExecutor, modifyStrand]
    · simp [modifyExecutor, modifyStrand, hs, Ne.symm hs]

/-- No pool is changed. -/
theorem pools_modifyExecutor (e : Option ExecutorId) :
    (x.modifyExecutor e f g).pools = x.pools := by
  rcases e with - | - | -
  all_goals rfl

/-- No strand is added. -/
theorem nextStrand_modifyExecutor (e : Option ExecutorId) :
    (x.modifyExecutor e f g).nextStrand = x.nextStrand := by
  rcases e with - | - | -
  all_goals rfl

end Modify

/-- No strand has been created, and the pools have the same free strands. -/
structure SameStrands (x y : Executors) : Prop where
  nextStrand : y.nextStrand = x.nextStrand
  freeStrands : ∀ p, (y.pools p).freeStrands = (x.pools p).freeStrands

namespace SameStrands

variable {x y z : Executors}

/-- The strands are the same. -/
theorem refl (x : Executors) : SameStrands x x := ⟨rfl, fun _ => rfl⟩

/-- The strands stay the same step by step. -/
theorem trans (h : SameStrands x y) (h' : SameStrands y z) : SameStrands x z :=
  ⟨h'.nextStrand.trans h.nextStrand, fun p => (h'.freeStrands p).trans (h.freeStrands p)⟩

/-- A change of an executor leaves the strands to their pools. -/
theorem modifyExecutor (e : Option ExecutorId) (f : EventLoop → EventLoop)
    (g : Strand → Strand) : SameStrands x (x.modifyExecutor e f g) :=
  ⟨nextStrand_modifyExecutor e, fun p => by rw [pools_modifyExecutor]⟩

end SameStrands

/-- The pool whose timer service an executor uses. -/
def poolOf : Option ExecutorId → Option PoolId
  | some (.strand s) => some (x.strands s).pool
  | _ => none

/-- The executors without the nodes of a list, for given owners and given timers among
them: their registrations and their armed timers are gone. -/
def without (owner : Addr → Option ExecutorId) (timer : Addr → Bool) (S : List Addr) :
    Executors :=
  { x with
    loops := fun t => (x.loops t).forget
      (fun a => a ∈ S ∧ owner a = some (.loop t))
      (fun a => a ∈ S ∧ timer a ∧ owner a = some (.loop t))
    strands := fun s => (x.strands s).forget (S.countP fun a => owner a = some (.strand s))
    pools := fun p => (x.pools p).forget fun a =>
      a ∈ S ∧ timer a ∧ x.poolOf (owner a) = some p }

variable {x} {owner owner' : Addr → Option ExecutorId} {timer timer' : Addr → Bool}
  {S T : List Addr}

/-- What a loop has left. -/
theorem loops_without (t : ThreadId) :
    (x.without owner timer S).loops t = (x.loops t).forget
      (fun a => a ∈ S ∧ owner a = some (.loop t))
      (fun a => a ∈ S ∧ timer a ∧ owner a = some (.loop t)) := rfl

/-- What a strand has left. -/
theorem strands_without (s : StrandId) :
    (x.without owner timer S).strands s =
      (x.strands s).forget (S.countP fun a => owner a = some (.strand s)) := rfl

/-- What a pool has left. -/
theorem pools_without (p : PoolId) :
    (x.without owner timer S).pools p = (x.pools p).forget fun a =>
      a ∈ S ∧ timer a ∧ x.poolOf (owner a) = some p := rfl

/-- The pool of an executor is the same. -/
@[simp] theorem poolOf_without (e : Option ExecutorId) :
    (x.without owner timer S).poolOf e = x.poolOf e := by
  rcases e with - | - | -
  all_goals rfl

/-- Without no node, the executors are the same. -/
@[simp] theorem without_nil : x.without owner timer [] = x := by
  simp [without]

/-- Only the owners and the classes of the removed nodes matter. -/
theorem without_congr (ho : ∀ a ∈ S, owner a = owner' a) (ht : ∀ a ∈ S, timer a = timer' a) :
    x.without owner timer S = x.without owner' timer' S := by
  have hown : ∀ e, (fun a => decide (a ∈ S ∧ owner a = some e)) =
      fun a => decide (a ∈ S ∧ owner' a = some e) := fun e => funext fun a =>
    decide_eq_decide.mpr (and_congr_right fun ha => by rw [ho a ha])
  have htim : ∀ e, (fun a => decide (a ∈ S ∧ timer a ∧ owner a = some e)) =
      fun a => decide (a ∈ S ∧ timer' a ∧ owner' a = some e) := fun e => funext fun a =>
    decide_eq_decide.mpr (and_congr_right fun ha => by rw [ho a ha, ht a ha])
  have hpool : ∀ p, (fun a => decide (a ∈ S ∧ timer a ∧ x.poolOf (owner a) = some p)) =
      fun a => decide (a ∈ S ∧ timer' a ∧ x.poolOf (owner' a) = some p) := fun p =>
    funext fun a => decide_eq_decide.mpr (and_congr_right fun ha => by rw [ho a ha, ht a ha])
  refine Executors.ext (funext fun t => ?_) (funext fun s => ?_) (funext fun p => ?_) rfl
  · rw [loops_without, loops_without, hown, htim]
  · rw [strands_without, strands_without, List.countP_congr fun a ha => by rw [ho a ha]]
  · rw [pools_without, pools_without, hpool]

/-- Removing one list after another is removing both. -/
theorem without_without :
    (x.without owner timer S).without owner timer T = x.without owner timer (S ++ T) := by
  refine Executors.ext (funext fun t => ?_) (funext fun s => ?_) (funext fun p => ?_) rfl
  · simp only [loops_without, EventLoop.forget_forget, ← Bool.decide_or, ← or_and_right,
      List.mem_append]
  · simp only [strands_without, Strand.forget_forget, List.countP_append]
  · simp only [pools_without, poolOf_without, TaskPool.forget_forget, ← Bool.decide_or,
      ← or_and_right, List.mem_append]

/-! ### Leaving the root list -/

/-- `removeRootNode`, on either kind of executor. -/
theorem removeRootFrom_eq (e : Option ExecutorId) (a : Addr) :
    x.removeRootFrom e a = x.modifyExecutor e (·.removeRootNode a) (·.removeRootNode a) := by
  rcases e with - | - | -
  all_goals rfl

/-- The loops after `removeRootNode`. -/
theorem loops_removeRootFrom (e : Option ExecutorId) (a : Addr) (t : ThreadId) :
    (x.removeRootFrom e a).loops t =
      if e = some (.loop t) then (x.loops t).removeRootNode a else x.loops t := by
  rw [removeRootFrom_eq, loops_modifyExecutor]

/-- The strands after `removeRootNode`. -/
theorem strands_removeRootFrom (e : Option ExecutorId) (a : Addr) (s : StrandId) :
    (x.removeRootFrom e a).strands s =
      if e = some (.strand s) then (x.strands s).removeRootNode a else x.strands s := by
  rw [removeRootFrom_eq, strands_modifyExecutor]

/-- The pools after `removeRootNode`. -/
theorem pools_removeRootFrom (e : Option ExecutorId) (a : Addr) :
    (x.removeRootFrom e a).pools = x.pools := by
  rw [removeRootFrom_eq, pools_modifyExecutor]

/-- The counter of strands after `removeRootNode`. -/
theorem nextStrand_removeRootFrom (e : Option ExecutorId) (a : Addr) :
    (x.removeRootFrom e a).nextStrand = x.nextStrand := by
  rw [removeRootFrom_eq, nextStrand_modifyExecutor]

/-- The pool an executor uses does not depend on the lists of its executors. -/
@[simp] theorem poolOf_removeRootFrom (e o : Option ExecutorId) (a : Addr) :
    (x.removeRootFrom e a).poolOf o = x.poolOf o := by
  rcases o with - | - | s
  · rfl
  · rfl
  · simp only [poolOf, strands_removeRootFrom]
    split <;> rfl

/-- `removeRootNode` leaves the strands to their pools. -/
theorem sameStrands_removeRootFrom (e : Option ExecutorId) (a : Addr) :
    SameStrands x (x.removeRootFrom e a) := by
  rw [removeRootFrom_eq]
  exact .modifyExecutor ..

/-- Forgetting nodes leaves the strands to their pools. -/
theorem sameStrands_without : SameStrands x (x.without owner timer S) :=
  ⟨rfl, fun _ => rfl⟩

/-! ### What one node's own part of a destructor removes -/

/-- `removeNode`, on either kind of executor. -/
theorem removeNodeFrom_eq (e : Option ExecutorId) (a : Addr) :
    x.removeNodeFrom e a = x.modifyExecutor e (·.removeNode a) (·.removeNode) := by
  rcases e with - | - | -
  all_goals rfl

/-- The loops after `removeNode`. -/
theorem loops_removeNodeFrom (e : Option ExecutorId) (a : Addr) (t : ThreadId) :
    (x.removeNodeFrom e a).loops t = (x.loops t).forget
      (fun b => decide (b = a ∧ e = some (.loop t))) fun _ => false := by
  rw [removeNodeFrom_eq, loops_modifyExecutor]
  split <;> rename_i he
  · simp [he, EventLoop.removeNode_eq_forget]
  · simp [he]

/-- The strands after `removeNode`. -/
theorem strands_removeNodeFrom (e : Option ExecutorId) (a : Addr) (s : StrandId) :
    (x.removeNodeFrom e a).strands s =
      (x.strands s).forget (if e = some (.strand s) then 1 else 0) := by
  rw [removeNodeFrom_eq, strands_modifyExecutor]
  split
  · exact Strand.removeNode_eq_forget
  · exact Strand.forget_zero.symm

/-- The pools after `removeNode`. -/
theorem pools_removeNodeFrom (e : Option ExecutorId) (a : Addr) :
    (x.removeNodeFrom e a).pools = x.pools := by
  rw [removeNodeFrom_eq, pools_modifyExecutor]

/-- The counter of strands after `removeNode`. -/
theorem nextStrand_removeNodeFrom (e : Option ExecutorId) (a : Addr) :
    (x.removeNodeFrom e a).nextStrand = x.nextStrand := by
  rw [removeNodeFrom_eq, nextStrand_modifyExecutor]

/-- The loops after `cancelTimer`. -/
theorem loops_cancelTimerWith (e : Option ExecutorId) (a : Addr) (t : ThreadId) :
    (x.cancelTimerWith e a).loops t = (x.loops t).forget (fun _ => false)
      fun b => decide (b = a ∧ e = some (.loop t)) := by
  rcases e with - | th | s
  · simp [cancelTimerWith]
  · by_cases ht : t = th
    · subst ht
      simp [cancelTimerWith, cancelTimer, modifyLoop, EventLoop.cancelTimer_eq_forget]
    · have hne : ¬ th = t := fun h => ht h.symm
      simp [cancelTimerWith, cancelTimer, modifyLoop, ht, hne]
  · simp [cancelTimerWith, cancelTimer, modifyPool]

/-- The strands after `cancelTimer`. -/
theorem strands_cancelTimerWith (e : Option ExecutorId) (a : Addr) :
    (x.cancelTimerWith e a).strands = x.strands := by
  rcases e with - | - | -
  all_goals rfl

/-- The pools after `cancelTimer`. -/
theorem pools_cancelTimerWith (e : Option ExecutorId) (a : Addr) (p : PoolId) :
    (x.cancelTimerWith e a).pools p =
      (x.pools p).forget fun b => decide (b = a ∧ x.poolOf e = some p) := by
  rcases e with - | t | s
  · simp [cancelTimerWith, poolOf]
  · simp [cancelTimerWith, cancelTimer, modifyLoop, poolOf]
  · by_cases hp : p = (x.strands s).pool
    · subst hp
      simp [cancelTimerWith, cancelTimer, modifyPool, poolOf, TaskPool.cancelTimer_eq_forget]
    · have hne : ¬ (x.strands s).pool = p := fun h => hp h.symm
      simp [cancelTimerWith, cancelTimer, modifyPool, poolOf, hp, hne]

/-- The counter of strands after `cancelTimer`. -/
theorem nextStrand_cancelTimerWith (e : Option ExecutorId) (a : Addr) :
    (x.cancelTimerWith e a).nextStrand = x.nextStrand := by
  rcases e with - | - | -
  all_goals rfl

/-- **One node more**: its timer is cancelled before the rest goes, its registration is
removed after it. -/
theorem without_cons (a : Addr) :
    ((if timer a then x.cancelTimerWith (owner a) a else x).without owner timer
      S).removeNodeFrom (owner a) a = x.without owner timer (a :: S) := by
  generalize hy : (if timer a then x.cancelTimerWith (owner a) a else x) = y
  have hstrands : y.strands = x.strands := by
    subst hy
    split
    · exact strands_cancelTimerWith _ _
    · rfl
  have hnext : y.nextStrand = x.nextStrand := by
    subst hy
    split
    · exact nextStrand_cancelTimerWith _ _
    · rfl
  have hpool : ∀ o, y.poolOf o = x.poolOf o := fun o => by
    rcases o with - | - | -
    · rfl
    · rfl
    · simp [poolOf, hstrands]
  have hloops : ∀ t, y.loops t = (x.loops t).forget (fun _ => false)
      fun b => decide (b = a ∧ timer a ∧ owner a = some (.loop t)) := fun t => by
    subst hy
    split <;> rename_i ht
    · simp [loops_cancelTimerWith, ht]
    · simp [ht]
  have hpools : ∀ p, y.pools p = (x.pools p).forget
      fun b => decide (b = a ∧ timer a ∧ x.poolOf (owner a) = some p) := fun p => by
    subst hy
    split <;> rename_i ht
    · simp [pools_cancelTimerWith, ht]
    · simp [ht]
  refine Executors.ext (funext fun t => ?_) (funext fun s => ?_) (funext fun p => ?_) ?_
  · rw [loops_removeNodeFrom, loops_without, hloops, loops_without,
      EventLoop.forget_forget, EventLoop.forget_forget]
    congr 1
    · funext b
      grind
    · funext b
      grind
  · rw [strands_removeNodeFrom, strands_without, hstrands, strands_without,
      Strand.forget_forget, List.countP_cons]
    simp
  · rw [pools_removeNodeFrom, pools_without, hpools, pools_without, TaskPool.forget_forget]
    congr 1
    funext b
    grind
  · rw [nextStrand_removeNodeFrom]
    exact hnext

/-- Cancelling a timer does not touch the root lists. -/
theorem removeRootFrom_cancelTimerWith (e o : Option ExecutorId) (a b : Addr) :
    (x.cancelTimerWith e a).removeRootFrom o b =
      (x.removeRootFrom o b).cancelTimerWith e a := by
  refine Executors.ext (funext fun t => ?_) (funext fun s => ?_) (funext fun p => ?_) ?_
  · rw [loops_removeRootFrom, loops_cancelTimerWith, loops_cancelTimerWith,
      loops_removeRootFrom]
    split <;> rfl
  · rw [strands_removeRootFrom, strands_cancelTimerWith, strands_cancelTimerWith,
      strands_removeRootFrom]
  · rw [pools_removeRootFrom, pools_cancelTimerWith, pools_cancelTimerWith,
      pools_removeRootFrom, poolOf_removeRootFrom]
  · rw [nextStrand_removeRootFrom, nextStrand_cancelTimerWith, nextStrand_cancelTimerWith,
      nextStrand_removeRootFrom]

end Executors

end SimplyNode
