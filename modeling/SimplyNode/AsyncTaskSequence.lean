import Mathlib.Data.List.GetD
import Mathlib.Logic.Function.Basic
import SimplyNode.Lib.Countdown

/-!
# Task Graphs

`AsyncTaskSequence` (`AsyncTaskSequence.h/.cpp`) runs tasks on a thread pool, each behind those it
depends on. A graph is built by `addTask` and `addDependency`; it is valid when it is not empty and
has no cycle, which `_hasValidGraphLocked` finds out by taking away the tasks without dependencies
until none is left. The sections of `start`, `scheduleTask` and `onTaskFinished` under the mutex are
functions of the sequence here; the steps of the threads between them are in `SequenceRun`.

## Main results

* `Built.graph`: what the calls that build a graph keep.
* `hasValidGraph_iff`: **valid graphs** are those without a cycle that are not empty.
* `complete_node`: what the section of `onTaskFinished` does to each task.
-/

namespace SimplyNode

open Countdown

/-- `AsyncTaskContext`: values by key, and the outputs of dependencies by id. -/
inductive AsyncTaskContext (ν : Type)
  | mk (values : String → Option ν) (dependencyOutputs : ℕ → Option (AsyncTaskContext ν))

namespace AsyncTaskContext

variable {ν : Type}

/-- A context without values. -/
def empty : AsyncTaskContext ν := .mk (fun _ => none) fun _ => none

/-- `AsyncTaskContext::value`. -/
def value : AsyncTaskContext ν → String → Option ν
  | .mk values _ => values

/-- `AsyncTaskContext::dependencyOutput`. -/
def dependencyOutput : AsyncTaskContext ν → ℕ → Option (AsyncTaskContext ν)
  | .mk _ dependencyOutputs => dependencyOutputs

/-- `AsyncTaskContext::mergeFrom`: the values of the other context overwrite. -/
def mergeFrom (context other : AsyncTaskContext ν) : AsyncTaskContext ν :=
  .mk (fun key => (other.value key).or (context.value key)) context.dependencyOutput

/-- `AsyncTaskContext::setDependencyOutput`. -/
def setDependencyOutput (context : AsyncTaskContext ν) (taskId : ℕ)
    (output : AsyncTaskContext ν) : AsyncTaskContext ν :=
  .mk context.value (Function.update context.dependencyOutput taskId (some output))

end AsyncTaskContext

/-- `AsyncTaskSequence::TaskNode`; a task is known by its place. -/
structure TaskNode (ν : Type) where
  dependents : List ℕ := []
  dependencies : List ℕ := []
  output : AsyncTaskContext ν := .empty
  pendingDependencies : ℕ := 0
  scheduled : Bool := false
  done : Bool := false

/-- `AsyncTaskSequence`, without its pool and its signals. -/
structure AsyncTaskSequence (ν : Type) where
  tasks : List (TaskNode ν) := []
  remainingTasks : ℕ := 0
  finishedTasks : ℕ := 0
  running : Bool := false
  finished : Bool := false

namespace TaskNode

variable {ν : Type} (n : TaskNode ν)

/-- What `start` makes of a task. -/
def reset : TaskNode ν :=
  { n with
    pendingDependencies := n.dependencies.length
    scheduled := n.dependencies.length = 0
    done := false
    output := .empty }

/-- What `onTaskFinished` makes of a dependent: a counter above 0 goes down, and a task that waits
for nothing is scheduled. -/
def release : TaskNode ν :=
  { n with
    pendingDependencies := n.pendingDependencies - 1
    scheduled := n.scheduled || n.pendingDependencies - 1 = 0 }

/-- A dependent is scheduled that has not been before. -/
def becomesReady : Bool := n.pendingDependencies - 1 = 0 && !n.scheduled

end TaskNode

namespace AsyncTaskSequence

variable {ν : Type}

/-- `AsyncTaskSequence::isValidTaskId`. -/
def isValidTaskId (q : AsyncTaskSequence ν) (id : ℕ) : Bool := id < q.tasks.length

/-- `m_tasks[id]`. -/
def node (q : AsyncTaskSequence ν) (id : ℕ) : TaskNode ν := q.tasks.getD id {}

/-- `AsyncTaskSequence::addTask`. -/
def addTask (q : AsyncTaskSequence ν) (isNull : Bool) : Option ℕ × AsyncTaskSequence ν :=
  if isNull then (none, q)
  else if q.running then (none, q)
  else (some q.tasks.length, { q with tasks := q.tasks ++ [{}] })

/-- `AsyncTaskSequence::addDependency`. -/
def addDependency (q : AsyncTaskSequence ν) (dependency dependent : ℕ) :
    Bool × AsyncTaskSequence ν :=
  if q.running || !q.isValidTaskId dependency || !q.isValidTaskId dependent ||
      dependency = dependent then (false, q)
  else if dependent ∈ (q.node dependency).dependents then (true, q)
  else
    let tasks := q.tasks.modify dependency fun n =>
      { n with dependents := n.dependents ++ [dependent] }
    (true, { q with tasks := tasks.modify dependent fun n =>
      { n with dependencies := n.dependencies ++ [dependency] } })

/-- **A graph that has been built**, by any calls. -/
inductive Built : AsyncTaskSequence ν → Prop
  | empty : Built {}
  | addTask {q : AsyncTaskSequence ν} (isNull : Bool) : Built q → Built (q.addTask isNull).2
  | addDependency {q : AsyncTaskSequence ν} (dependency dependent : ℕ) :
      Built q → Built (q.addDependency dependency dependent).2

/-! ### Valid graphs -/

/-- `++incoming[dependent]` for all dependents; fails at one that is no task. -/
def countIncoming (size : ℕ) : List ℕ → (ℕ → ℕ) → Option (ℕ → ℕ)
  | [], incoming => some incoming
  | dependent :: rest, incoming =>
      if size ≤ dependent then none
      else countIncoming size rest (Function.update incoming dependent (incoming dependent + 1))

/-- The dependents of a task that is taken away: a task joins the queue when its count is 0. -/
def takeAway : List ℕ → (ℕ → ℕ) → List ℕ → (ℕ → ℕ) × List ℕ
  | [], incoming, ready => (incoming, ready)
  | dependent :: rest, incoming, ready =>
      let incoming := Function.update incoming dependent (incoming dependent - 1)
      takeAway rest incoming (if incoming dependent = 0 then ready ++ [dependent] else ready)

/-- The loop over the queue: how many tasks it visits. Without fuel it gives up. -/
def visitReady (q : AsyncTaskSequence ν) : ℕ → (ℕ → ℕ) → List ℕ → ℕ → Option ℕ
  | _, _, [], visited => some visited
  | 0, _, _ :: _, _ => none
  | fuel + 1, incoming, id :: ready, visited =>
      let next := takeAway (q.node id).dependents incoming ready
      visitReady q fuel next.1 next.2 (visited + 1)

/-- The loop over the queue, from its beginning. -/
def visited (q : AsyncTaskSequence ν) : Option ℕ := do
  let incoming ← countIncoming q.tasks.length (q.tasks.flatMap TaskNode.dependents) fun _ => 0
  let ready := (List.range q.tasks.length).filter fun id => incoming id = 0
  visitReady q q.tasks.length incoming ready 0

/-- `AsyncTaskSequence::hasValidGraphLocked`. -/
def hasValidGraph (q : AsyncTaskSequence ν) : Bool :=
  if q.tasks = [] then false else q.visited = some q.tasks.length

/-! ### The sections under the mutex -/

/-- The section of `start`: the sequence and the tasks that are ready at first, unless it refuses.
-/
def beginRun (q : AsyncTaskSequence ν) (pool : Bool) : Option (AsyncTaskSequence ν × List ℕ) :=
  if q.running || !pool || !q.hasValidGraph then none
  else
    some ({ tasks := q.tasks.map TaskNode.reset
            remainingTasks := q.tasks.length
            finishedTasks := 0
            running := true
            finished := false },
      (List.range q.tasks.length).filter fun id => (q.node id).dependencies.length = 0)

/-- `AsyncTaskSequence::buildInputForTaskLocked`. -/
def buildInput (q : AsyncTaskSequence ν) (id : ℕ) : AsyncTaskContext ν :=
  if !q.isValidTaskId id then .empty
  else
    (q.node id).dependencies.foldl (fun input dependency =>
      (input.setDependencyOutput dependency (q.node dependency).output).mergeFrom
        (q.node dependency).output) .empty

/-- The section of `scheduleTask`: the input of the task, unless it returns. -/
def prepare (q : AsyncTaskSequence ν) (id : ℕ) : Option (AsyncTaskContext ν) :=
  if !q.running || !q.isValidTaskId id then none else some (q.buildInput id)

/-- The loop over the dependents in `onTaskFinished`, and the tasks that become ready. -/
def release : List ℕ → List (TaskNode ν) → List ℕ → List (TaskNode ν) × List ℕ
  | [], tasks, ready => (tasks, ready)
  | dependent :: rest, tasks, ready =>
      release rest (tasks.modify dependent TaskNode.release)
        (if (tasks.getD dependent {}).becomesReady then ready ++ [dependent] else ready)

/-- The section of `onTaskFinished`: the sequence, the tasks that become ready and whether this was
the last task, unless it returns. -/
def complete (q : AsyncTaskSequence ν) (id : ℕ) (output : AsyncTaskContext ν) :
    Option (AsyncTaskSequence ν × List ℕ × Bool) :=
  if !q.running || !q.isValidTaskId id || (q.node id).done then none
  else
    let tasks := q.tasks.modify id fun n => { n with output := output, done := true }
    let released := release (q.node id).dependents tasks []
    let remaining := q.remainingTasks - 1
    some ({ tasks := released.1
            remainingTasks := remaining
            finishedTasks := q.finishedTasks + 1
            running := remaining ≠ 0
            finished := q.finished || remaining = 0 },
      released.2, remaining = 0)

/-! ### Tasks by their places -/

theorem getD_modify (tasks : List (TaskNode ν)) (i j : ℕ) (f : TaskNode ν → TaskNode ν) :
    (tasks.modify i f).getD j {} =
      if i = j ∧ i < tasks.length then f (tasks.getD i {}) else tasks.getD j {} := by
  rw [List.getD_eq_getElem?_getD, List.getD_eq_getElem?_getD, List.getD_eq_getElem?_getD,
    List.getElem?_modify]
  by_cases hij : i = j
  · subst hij
    by_cases hi : i < tasks.length
    · rw [List.getElem?_eq_getElem hi, if_pos ⟨rfl, hi⟩]
      simp
    · rw [List.getElem?_eq_none (by omega), if_neg fun h => hi h.2]
      rfl
  · rw [if_neg fun h => hij h.1]
    simp [hij]

theorem getD_reset (tasks : List (TaskNode ν)) (j : ℕ) :
    (tasks.map TaskNode.reset).getD j {} =
      if j < tasks.length then (tasks.getD j {}).reset else {} := by
  by_cases hj : j < tasks.length
  · rw [if_pos hj, List.getD_eq_getElem?_getD, List.getD_eq_getElem?_getD, List.getElem?_map,
      List.getElem?_eq_getElem hj]
    rfl
  · rw [if_neg hj, List.getD_eq_default _ _ (by rw [List.length_map]; omega)]

/-- A place without a task. -/
theorem node_of_le {q : AsyncTaskSequence ν} {id : ℕ} (h : q.tasks.length ≤ id) :
    q.node id = {} := by
  rw [node, List.getD_eq_getElem?_getD, List.getElem?_eq_none h]
  rfl

theorem tasks_eq_map (q : AsyncTaskSequence ν) :
    q.tasks = (List.range q.tasks.length).map q.node := by
  refine List.ext_getElem (by simp) fun i hi _ => ?_
  rw [List.getElem_map, List.getElem_range, node, List.getD_eq_getElem?_getD,
    List.getElem?_eq_getElem hi]
  rfl

/-! ### Graphs -/

/-- The tasks that a task depends on. -/
def dependencies (q : AsyncTaskSequence ν) (id : ℕ) : List ℕ := (q.node id).dependencies

/-- **What a graph keeps**: a dependency is one in both directions, and is listed once. -/
structure Graph (q : AsyncTaskSequence ν) : Prop where
  valid : ∀ a b, a ∈ q.dependencies b → a < q.tasks.length
  symm : ∀ a b, b ∈ (q.node a).dependents ↔ a ∈ q.dependencies b
  nodup_dependents : ∀ a, (q.node a).dependents.Nodup
  nodup_dependencies : ∀ b, (q.dependencies b).Nodup

/-- Only tasks depend on others. -/
theorem lt_of_mem_dependencies {q : AsyncTaskSequence ν} {a b : ℕ} (h : a ∈ q.dependencies b) :
    b < q.tasks.length := by
  by_contra hb
  rw [dependencies, node_of_le (by omega)] at h
  exact absurd h List.not_mem_nil

theorem graph_empty : Graph ({} : AsyncTaskSequence ν) where
  valid a b h := absurd (lt_of_mem_dependencies h) (Nat.not_lt_zero b)
  symm a b := by
    rw [dependencies, node_of_le (Nat.zero_le a), node_of_le (Nat.zero_le b)]
    exact iff_of_false List.not_mem_nil List.not_mem_nil
  nodup_dependents a := by
    rw [node_of_le (Nat.zero_le a)]
    exact List.nodup_nil
  nodup_dependencies b := by
    rw [dependencies, node_of_le (Nat.zero_le b)]
    exact List.nodup_nil

/-- A new task is like a place without one. -/
theorem node_push (q : AsyncTaskSequence ν) (id : ℕ) :
    node { q with tasks := q.tasks ++ [{}] } id = q.node id := by
  rw [node, node]
  by_cases hid : id < q.tasks.length
  · rw [List.getD_append _ _ _ _ hid]
  · rw [List.getD_append_right _ _ _ _ (by omega), List.getD_eq_default q.tasks _ (by omega)]
    cases id - q.tasks.length with
    | zero => rfl
    | succ k => rfl

theorem Graph.addTask {q : AsyncTaskSequence ν} (h : q.Graph) (isNull : Bool) :
    (q.addTask isNull).2.Graph := by
  rw [AsyncTaskSequence.addTask]
  split
  · exact h
  split
  · exact h
  have hnode := q.node_push
  constructor
  · intro a b hab
    rw [dependencies, hnode] at hab
    have := h.valid a b hab
    rw [List.length_append]
    omega
  · intro a b
    rw [dependencies, hnode, hnode]
    exact h.symm a b
  · intro a
    rw [hnode]
    exact h.nodup_dependents a
  · intro b
    rw [dependencies, hnode]
    exact h.nodup_dependencies b

/-- A new dependency: a list of each of the two tasks grows. -/
theorem lists_addDependency {q : AsyncTaskSequence ν} {dependency dependent : ℕ}
    (hdependency : dependency < q.tasks.length) (hdependent : dependent < q.tasks.length)
    (hne : dependency ≠ dependent) (j : ℕ) :
    (node { q with tasks := (q.tasks.modify dependency fun n =>
        { n with dependents := n.dependents ++ [dependent] }).modify dependent fun n =>
          { n with dependencies := n.dependencies ++ [dependency] } } j).dependents =
      (if j = dependency then (q.node j).dependents ++ [dependent] else (q.node j).dependents) ∧
    dependencies { q with tasks := (q.tasks.modify dependency fun n =>
        { n with dependents := n.dependents ++ [dependent] }).modify dependent fun n =>
          { n with dependencies := n.dependencies ++ [dependency] } } j =
      (if j = dependent then q.dependencies j ++ [dependency] else q.dependencies j) := by
  rw [dependencies, node, getD_modify, getD_modify, getD_modify, List.length_modify]
  by_cases hj : j = dependent
  · subst hj
    rw [if_pos ⟨rfl, hdependent⟩, if_neg fun h => hne h.1, if_neg (Ne.symm hne), if_pos rfl]
    exact ⟨rfl, rfl⟩
  · rw [if_neg fun h => hj h.1.symm, if_neg hj]
    by_cases hj' : j = dependency
    · subst hj'
      rw [if_pos ⟨rfl, hdependency⟩, if_pos rfl]
      exact ⟨rfl, rfl⟩
    · rw [if_neg fun h => hj' h.1.symm, if_neg hj']
      exact ⟨rfl, rfl⟩

theorem Graph.addDependency {q : AsyncTaskSequence ν} (h : q.Graph) (dependency dependent : ℕ) :
    (q.addDependency dependency dependent).2.Graph := by
  rw [AsyncTaskSequence.addDependency]
  split
  · exact h
  split
  · exact h
  rename_i hvalid hnew
  simp only [Bool.or_eq_true, Bool.not_eq_true', isValidTaskId, decide_eq_false_iff_not,
    decide_eq_true_eq, not_or, not_not] at hvalid
  obtain ⟨⟨⟨-, hdependency⟩, hdependent⟩, hne⟩ := hvalid
  have hother : dependency ∉ q.dependencies dependent := fun hmem => hnew ((h.symm _ _).mpr hmem)
  have hlists := lists_addDependency hdependency hdependent hne
  constructor
  · intro a b hab
    rw [(hlists b).2] at hab
    rw [List.length_modify, List.length_modify]
    split at hab
    · obtain hab | hab := List.mem_append.mp hab
      · exact h.valid a b hab
      · rw [List.mem_singleton.mp hab]
        exact hdependency
    · exact h.valid a b hab
  · intro a b
    have hold := h.symm a b
    rw [(hlists a).1, (hlists b).2]
    by_cases ha : a = dependency <;> by_cases hb : b = dependent
    · subst ha hb
      simp
    · rw [if_pos ha, if_neg hb, List.mem_append, List.mem_singleton, hold]
      exact or_iff_left hb
    · rw [if_neg ha, if_pos hb, List.mem_append, List.mem_singleton, hold]
      exact (or_iff_left ha).symm
    · rw [if_neg ha, if_neg hb, hold]
  · intro a
    rw [(hlists a).1]
    split
    · rename_i ha
      subst ha
      exact List.nodup_append_comm.mp (List.nodup_cons.mpr ⟨hnew, h.nodup_dependents a⟩)
    · exact h.nodup_dependents a
  · intro b
    rw [(hlists b).2]
    split
    · rename_i hb
      subst hb
      exact List.nodup_append_comm.mp (List.nodup_cons.mpr ⟨hother, h.nodup_dependencies b⟩)
    · exact h.nodup_dependencies b

/-- **Built graphs** list every dependency in both directions, and nothing has run. -/
theorem Built.graph {q : AsyncTaskSequence ν} (h : Built q) : q.Graph ∧ q.running = false := by
  induction h with
  | empty => exact ⟨graph_empty, rfl⟩
  | addTask isNull h ih =>
      refine ⟨ih.1.addTask isNull, ?_⟩
      rw [AsyncTaskSequence.addTask]
      split_ifs <;> exact ih.2
  | addDependency dependency dependent h ih =>
      refine ⟨ih.1.addDependency dependency dependent, ?_⟩
      rw [AsyncTaskSequence.addDependency]
      split_ifs <;> exact ih.2

/-! ### Finding out about cycles -/

/-- The counting of dependents. -/
theorem countIncoming_eq {size : ℕ} {dependents : List ℕ} (h : ∀ d ∈ dependents, d < size)
    (incoming : ℕ → ℕ) :
    countIncoming size dependents incoming = some fun b => incoming b + dependents.count b := by
  induction dependents generalizing incoming with
  | nil => rfl
  | cons d dependents ih =>
      rw [countIncoming, if_neg (by have := h d List.mem_cons_self; omega),
        ih fun e he => h e (List.mem_cons_of_mem d he)]
      refine congrArg some (funext fun b => ?_)
      rw [List.count_cons, Function.update_apply]
      by_cases hb : b = d
      · subst hb
        rw [if_pos rfl, if_pos (beq_self_eq_true b)]
        omega
      · rw [if_neg hb, if_neg (by simpa using Ne.symm hb)]
        omega

/-- How often an item occurs in lists without repetition. -/
theorem count_lists {lists : ℕ → List ℕ} (h : ∀ a, (lists a).Nodup) (b : ℕ) (items : List ℕ) :
    (items.flatMap lists).count b = items.countP fun a => b ∈ lists a := by
  induction items with
  | nil => rfl
  | cons a items ih =>
      rw [List.flatMap_cons, List.count_append, ih, List.countP_cons, Nat.add_comm]
      by_cases hb : b ∈ lists a
      · rw [List.count_eq_one_of_mem (h a) hb, if_pos (decide_eq_true hb)]
      · rw [List.count_eq_zero.mpr hb, if_neg (by simpa using hb)]

/-- The dependents of all tasks name each task once for each of its dependencies. -/
theorem Graph.count_dependents {q : AsyncTaskSequence ν} (h : q.Graph) (b : ℕ) :
    (q.tasks.flatMap TaskNode.dependents).count b = (q.dependencies b).length := by
  have hperm : ((List.range q.tasks.length).filter fun a => b ∈ (q.node a).dependents).Perm
      (q.dependencies b) := by
    refine (List.perm_ext_iff_of_nodup ((List.nodup_range).filter _) (h.nodup_dependencies b)).mpr
      fun a => ?_
    rw [List.mem_filter, List.mem_range, decide_eq_true_eq, h.symm]
    exact ⟨fun hab => hab.2, fun hab => ⟨h.valid a b hab, hab⟩⟩
  have hlists : q.tasks.flatMap TaskNode.dependents =
      (List.range q.tasks.length).flatMap fun a => (q.node a).dependents := by
    rw [← List.flatMap_map q.node TaskNode.dependents, ← tasks_eq_map]
  rw [hlists, count_lists h.nodup_dependents, ← hperm.length_eq, List.countP_eq_length_filter]

/-- What is left when a task is taken away. -/
theorem takeAway_eq {dependents : List ℕ} (h : dependents.Nodup) (incoming : ℕ → ℕ)
    (ready : List ℕ) :
    takeAway dependents incoming ready =
      (fun b => if b ∈ dependents then incoming b - 1 else incoming b,
        ready ++ dependents.filter fun d => incoming d - 1 = 0) := by
  induction dependents generalizing incoming ready with
  | nil => simp [takeAway]
  | cons d dependents ih =>
      obtain ⟨hd, hdependents⟩ := List.nodup_cons.mp h
      rw [takeAway, ih hdependents, Function.update_self]
      have hsame : ∀ e ∈ dependents,
          Function.update incoming d (incoming d - 1) e = incoming e := by
        intro e he
        exact Function.update_of_ne (fun heq : e = d => hd (heq ▸ he)) _ _
      refine Prod.ext (funext fun b => ?_) ?_
      · by_cases hb : b = d
        · subst hb
          simp [hd]
        · simp [hb]
      · have hfilter : (dependents.filter fun e =>
            Function.update incoming d (incoming d - 1) e - 1 = 0) =
              dependents.filter fun e => incoming e - 1 = 0 := by
          refine List.filter_congr fun e he => ?_
          rw [hsame e he]
        dsimp only
        rw [hfilter, List.filter_cons]
        by_cases hzero : incoming d - 1 = 0
        · simp [hzero]
        · simp [hzero]

/-- **The invariant of the loop over the queue**: `gone` are the tasks that have been visited. A
counter holds how many dependencies are not gone; it is 0 where the task is gone or in the queue,
and no such task is on a cycle. -/
structure Visiting (q : AsyncTaskSequence ν) (gone : List ℕ) (incoming : ℕ → ℕ)
    (ready : List ℕ) : Prop where
  nodup : (gone ++ ready).Nodup
  lt : ∀ b ∈ gone ++ ready, b < q.tasks.length
  counts : ∀ b, incoming b = pending (fun a => a ∈ gone) (q.dependencies b)
  zero : ∀ b < q.tasks.length, b ∈ gone ++ ready ↔ incoming b = 0
  free : ∀ b ∈ gone ++ ready, ¬Relation.TransGen (fun a b => a ∈ q.dependencies b) b b

/-- A task whose dependencies are on no cycle is on none. -/
theorem free_of_dependencies {q : AsyncTaskSequence ν} {b : ℕ}
    (h : ∀ a ∈ q.dependencies b, ¬Relation.TransGen (fun a b => a ∈ q.dependencies b) a a) :
    ¬Relation.TransGen (fun a b => a ∈ q.dependencies b) b b := by
  intro hcycle
  obtain ⟨a, hba, hab⟩ := Relation.TransGen.tail'_iff.mp hcycle
  exact h a hab (Relation.TransGen.head' hab hba)

/-- The queue at first. -/
theorem Graph.visiting {q : AsyncTaskSequence ν} (h : q.Graph) :
    countIncoming q.tasks.length (q.tasks.flatMap TaskNode.dependents) (fun _ => 0) =
        some (fun b => (q.dependencies b).length) ∧
      Visiting q [] (fun b => (q.dependencies b).length)
        ((List.range q.tasks.length).filter fun id => (q.dependencies id).length = 0) := by
  constructor
  · rw [countIncoming_eq]
    · refine congrArg some (funext fun b => ?_)
      rw [Nat.zero_add, h.count_dependents]
    · intro d hd
      obtain ⟨n, hn, hdn⟩ := List.mem_flatMap.mp hd
      rw [tasks_eq_map] at hn
      obtain ⟨a, -, rfl⟩ := List.mem_map.mp hn
      exact lt_of_mem_dependencies ((h.symm a d).mp hdn)
  · have hmem : ∀ b, b ∈ [] ++ (List.range q.tasks.length).filter
        (fun id => (q.dependencies id).length = 0) ↔
          b < q.tasks.length ∧ (q.dependencies b).length = 0 := by
      intro b
      rw [List.nil_append, List.mem_filter, List.mem_range, decide_eq_true_eq]
    constructor
    · exact List.nodup_range.filter _
    · exact fun b hb => ((hmem b).mp hb).1
    · exact fun b => (pending_of_none fun a _ => rfl).symm
    · exact fun b hb => (hmem b).trans (and_iff_right hb)
    · refine fun b hb => free_of_dependencies fun a ha => ?_
      rw [List.length_eq_zero_iff.mp ((hmem b).mp hb).2] at ha
      exact absurd ha List.not_mem_nil

/-- A task in the queue is not gone. -/
theorem Visiting.notMem {q : AsyncTaskSequence ν} {gone : List ℕ} {incoming : ℕ → ℕ} {id : ℕ}
    {ready : List ℕ} (h : Visiting q gone incoming (id :: ready)) : id ∉ gone := fun hmem =>
  (List.nodup_append.mp h.nodup).2.2 id hmem id List.mem_cons_self rfl

/-- The counters of the dependents of a task that is taken away go down. -/
theorem Visiting.counts_next {q : AsyncTaskSequence ν} (hgraph : q.Graph) {gone : List ℕ}
    {incoming : ℕ → ℕ} {id : ℕ} {ready : List ℕ} (h : Visiting q gone incoming (id :: ready))
    (b : ℕ) :
    pending (fun a => a ∈ gone ++ [id]) (q.dependencies b) +
        (if id ∈ q.dependencies b then 1 else 0) = incoming b ∧
      (if b ∈ (q.node id).dependents then incoming b - 1 else incoming b) =
        pending (fun a => a ∈ gone ++ [id]) (q.dependencies b) := by
  have hdown : pending (fun a => a ∈ gone ++ [id]) (q.dependencies b) +
      (if id ∈ q.dependencies b then 1 else 0) = incoming b := by
    rw [h.counts]
    refine pending_finish (hgraph.nodup_dependencies b) (decide_eq_false h.notMem) fun c => ?_
    rw [← Bool.decide_or]
    exact decide_eq_decide.mpr (by rw [List.mem_append, List.mem_singleton])
  refine ⟨hdown, ?_⟩
  by_cases hmem : id ∈ q.dependencies b
  · rw [if_pos hmem] at hdown
    rw [if_pos ((hgraph.symm id b).mpr hmem)]
    omega
  · rw [if_neg hmem] at hdown
    rw [if_neg (mt (hgraph.symm id b).mp hmem)]
    omega

/-- **One round of the loop.** -/
theorem Visiting.next {q : AsyncTaskSequence ν} (hgraph : q.Graph) {gone : List ℕ}
    {incoming : ℕ → ℕ} {id : ℕ} {ready : List ℕ} (h : Visiting q gone incoming (id :: ready)) :
    Visiting q (gone ++ [id]) (takeAway (q.node id).dependents incoming ready).1
      (takeAway (q.node id).dependents incoming ready).2 := by
  have hid := h.notMem
  have hdown := fun b => (h.counts_next hgraph b).1
  have hcounts' := fun b => (h.counts_next hgraph b).2
  have hmid : gone ++ id :: ready = gone ++ [id] ++ ready := by simp
  obtain ⟨hnodup, hlt, hcounts, hzero, hfree⟩ := h
  rw [hmid] at hnodup hlt hzero hfree
  rw [takeAway_eq (hgraph.nodup_dependents id)]
  have hnew : ∀ b, b ∈ (q.node id).dependents.filter (fun d => incoming d - 1 = 0) ↔
      id ∈ q.dependencies b ∧ pending (fun a => a ∈ gone ++ [id]) (q.dependencies b) = 0 := by
    intro b
    rw [List.mem_filter, decide_eq_true_eq, hgraph.symm]
    refine and_congr_right fun hmem => ?_
    rw [← hcounts', if_pos ((hgraph.symm id b).mpr hmem)]
  have hold : ∀ b, id ∈ q.dependencies b → b ∉ gone ++ [id] ++ ready := by
    intro b hb hmem
    have hpos := @pending_pos ℕ (fun a => a ∈ gone) _ _ hb (decide_eq_false hid)
    rw [← hcounts, (hzero b (lt_of_mem_dependencies hb)).mp hmem] at hpos
    exact absurd hpos (lt_irrefl 0)
  constructor
  · rw [← List.append_assoc]
    refine List.nodup_append.mpr ⟨hnodup, (hgraph.nodup_dependents id).filter _, ?_⟩
    rintro a ha b hb rfl
    exact hold a ((hnew a).mp hb).1 ha
  · intro b hb
    rw [← List.append_assoc] at hb
    obtain hb | hb := List.mem_append.mp hb
    · exact hlt b hb
    · exact lt_of_mem_dependencies ((hnew b).mp hb).1
  · exact hcounts'
  · intro b hb
    dsimp only
    rw [hcounts', ← List.append_assoc, List.mem_append, hzero b hb, hnew]
    have := hdown b
    constructor
    · rintro (hmem | hmem)
      · omega
      · exact hmem.2
    · intro hmem
      by_cases hdep : id ∈ q.dependencies b
      · exact Or.inr ⟨hdep, hmem⟩
      · rw [if_neg hdep] at this
        exact Or.inl (by omega)
  · intro b hb
    rw [← List.append_assoc] at hb
    obtain hb | hb := List.mem_append.mp hb
    · exact hfree b hb
    · refine free_of_dependencies fun a ha => hfree a (List.mem_append_left ready ?_)
      exact of_decide_eq_true (pending_eq_zero.mp ((hnew b).mp hb).2 a ha)

/-- No task is visited twice. -/
theorem Visiting.subperm {q : AsyncTaskSequence ν} {gone : List ℕ} {incoming : ℕ → ℕ}
    {ready : List ℕ} (h : Visiting q gone incoming ready) :
    (gone ++ ready).Subperm (List.range q.tasks.length) :=
  List.Nodup.subperm h.nodup fun b hb => List.mem_range.mpr (h.lt b hb)

theorem Visiting.length_le {q : AsyncTaskSequence ν} {gone : List ℕ} {incoming : ℕ → ℕ}
    {ready : List ℕ} (h : Visiting q gone incoming ready) :
    gone.length + ready.length ≤ q.tasks.length := by
  have hle := h.subperm.length_le
  rw [List.length_append, List.length_range] at hle
  exact hle

/-- **The loop ends** with an empty queue. -/
theorem Visiting.visitReady {q : AsyncTaskSequence ν} (hgraph : q.Graph) {fuel : ℕ}
    {gone : List ℕ} {incoming : ℕ → ℕ} {ready : List ℕ} (h : Visiting q gone incoming ready)
    (hfuel : q.tasks.length ≤ fuel + gone.length) :
    ∃ gone' incoming', visitReady q fuel incoming ready gone.length = some gone'.length ∧
      Visiting q gone' incoming' [] := by
  induction fuel generalizing gone incoming ready with
  | zero =>
      have hle := h.length_le
      obtain rfl : ready = [] := List.length_eq_zero_iff.mp (by omega)
      exact ⟨gone, incoming, rfl, h⟩
  | succ fuel ih =>
      cases ready with
      | nil => exact ⟨gone, incoming, rfl, h⟩
      | cons id ready =>
          have hlength : (gone ++ [id]).length = gone.length + 1 := by simp
          have hend := ih (h.next hgraph) (by omega)
          rw [hlength] at hend
          exact hend

/-- **Valid graphs** are those that are not empty and have no cycle. -/
theorem hasValidGraph_iff {q : AsyncTaskSequence ν} (h : q.Graph) :
    q.hasValidGraph = true ↔ q.tasks ≠ [] ∧ Acyclic q.dependencies := by
  obtain ⟨hcount, hstart⟩ := h.visiting
  obtain ⟨gone, incoming, hvisit, hend⟩ := hstart.visitReady h (Nat.le_add_right _ _)
  have hvisited : q.visited = some gone.length := by
    rw [visited, hcount]
    exact hvisit
  have hgone := hend.length_le
  have hsubperm := hend.subperm
  have hzero := hend.zero
  have hfree := hend.free
  rw [List.append_nil] at hsubperm hzero hfree
  rw [hasValidGraph, hvisited]
  by_cases hempty : q.tasks = []
  · rw [if_pos hempty]
    exact iff_of_false Bool.false_ne_true fun hvalid => hvalid.1 hempty
  rw [if_neg hempty, decide_eq_true_eq, Option.some.injEq]
  refine Iff.trans ⟨fun hall => ?_, fun hacyclic => ?_⟩ (and_iff_right hempty).symm
  · -- all tasks have been visited, and no other place has a dependency
    intro b
    refine free_of_dependencies fun a ha => hfree a ?_
    have hperm := hsubperm.perm_of_length_le (by rw [List.length_range, hall])
    exact hperm.mem_iff.mpr (List.mem_range.mpr (h.valid a b ha))
  · by_contra hne
    -- a task that has not been visited, and one of those that waits for no other of them
    have hmissing : ∃ b ∈ List.range q.tasks.length, b ∉ gone := by
      by_contra hnone
      simp only [not_exists, not_and, not_not] at hnone
      have hle := (List.Nodup.subperm List.nodup_range hnone).length_le
      rw [List.length_range] at hle
      rw [List.length_nil] at hgone
      omega
    obtain ⟨b, hb, hmissing⟩ := hmissing
    obtain ⟨c, hc, hcgone, hpending⟩ := @exists_ready ℕ _ hacyclic (fun a => a ∈ gone) _
      (fun b _ a ha => List.mem_range.mpr (h.valid a b ha)) b hb (decide_eq_false hmissing)
    rw [← hend.counts] at hpending
    exact absurd ((hzero c (List.mem_range.mp hc)).mpr hpending) (of_decide_eq_false hcgone)

/-! ### What the sections do -/

/-- A sequence that starts. -/
theorem beginRun_eq {q : AsyncTaskSequence ν} (h : q.hasValidGraph = true)
    (hrunning : q.running = false) :
    q.beginRun true = some ({ tasks := q.tasks.map TaskNode.reset
                              remainingTasks := q.tasks.length
                              finishedTasks := 0
                              running := true
                              finished := false },
      (List.range q.tasks.length).filter fun id => (q.node id).dependencies.length = 0) := by
  rw [beginRun, h, hrunning]
  exact if_neg Bool.false_ne_true

/-- **The merge of the outputs of some tasks**: the outputs by their ids, and the values of all of
them, those of later tasks first. -/
def Merged (dependencies : List ℕ) (outputs : ℕ → AsyncTaskContext ν)
    (input : AsyncTaskContext ν) : Prop :=
  (∀ a, input.dependencyOutput a = if a ∈ dependencies then some (outputs a) else none) ∧
    ∀ key, input.value key = dependencies.reverse.findSome? fun a => (outputs a).value key

/-- **The input of a task** is the merge of the outputs of its dependencies. -/
theorem merged_buildInput {q : AsyncTaskSequence ν} (id : ℕ) :
    Merged (q.dependencies id) (fun a => (q.node a).output) (q.buildInput id) := by
  have hfold : q.buildInput id = (q.dependencies id).foldl (fun input dependency =>
      (input.setDependencyOutput dependency (q.node dependency).output).mergeFrom
        (q.node dependency).output) .empty := by
    rw [buildInput]
    split
    · rename_i hvalid
      have hid : ¬id < q.tasks.length := by simpa [isValidTaskId] using hvalid
      rw [dependencies, node_of_le (by omega)]
      rfl
    · rfl
  rw [hfold]
  induction q.dependencies id using List.reverseRecOn with
  | nil => exact ⟨fun a => (if_neg List.not_mem_nil).symm, fun key => rfl⟩
  | append_singleton ids d ih =>
      obtain ⟨houtputs, hvalues⟩ := ih
      rw [List.foldl_append]
      constructor
      · intro a
        refine (Function.update_apply _ d _ a).trans ?_
        rw [houtputs]
        by_cases had : a = d
        · rw [if_pos had, if_pos (by simp [had]), had]
        · rw [if_neg had]
          simp [had]
      · intro key
        rw [List.reverse_append]
        refine (congrArg ((q.node d).output.value key).or (hvalues key)).trans ?_
        refine Eq.trans ?_ (List.findSome?_cons).symm
        cases (q.node d).output.value key with
        | none => rfl
        | some v => rfl

/-- The loop over the dependents. -/
theorem release_eq {dependents : List ℕ} (hnodup : dependents.Nodup) {tasks : List (TaskNode ν)}
    (h : ∀ d ∈ dependents, d < tasks.length) (ready : List ℕ) :
    (release dependents tasks ready).1.length = tasks.length ∧
    (∀ j, (release dependents tasks ready).1.getD j {} =
      if j ∈ dependents then (tasks.getD j {}).release else tasks.getD j {}) ∧
    (release dependents tasks ready).2 =
      ready ++ dependents.filter fun d => (tasks.getD d {}).becomesReady := by
  induction dependents generalizing tasks ready with
  | nil => exact ⟨rfl, fun j => (if_neg List.not_mem_nil).symm, (List.append_nil ready).symm⟩
  | cons d dependents ih =>
      obtain ⟨hd, hnodup⟩ := List.nodup_cons.mp hnodup
      have hlt := h d List.mem_cons_self
      have hlater : ∀ e ∈ dependents, e < (tasks.modify d TaskNode.release).length := by
        intro e he
        rw [List.length_modify]
        exact h e (List.mem_cons_of_mem d he)
      have hsame : ∀ e ∈ dependents,
          (tasks.modify d TaskNode.release).getD e {} = tasks.getD e {} := by
        intro e he
        rw [getD_modify, if_neg]
        rintro ⟨rfl, -⟩
        exact hd he
      obtain ⟨hlength, htasks, hready⟩ := ih hnodup hlater
        (if (tasks.getD d {}).becomesReady then ready ++ [d] else ready)
      rw [release]
      refine ⟨by rw [hlength, List.length_modify], fun j => ?_, ?_⟩
      · rw [htasks, getD_modify]
        by_cases hj : d = j
        · subst hj
          rw [if_neg hd, if_pos ⟨rfl, hlt⟩, if_pos List.mem_cons_self]
        · have hother : ¬(d = j ∧ d < tasks.length) := fun heq => hj heq.1
          rw [if_neg hother]
          simp only [List.mem_cons, Ne.symm hj, false_or]
      · rw [hready, List.filter_cons]
        have hfilter : (dependents.filter fun e =>
            ((tasks.modify d TaskNode.release).getD e {}).becomesReady) =
              dependents.filter fun e => (tasks.getD e {}).becomesReady := by
          refine List.filter_congr fun e he => ?_
          rw [hsame e he]
        rw [hfilter]
        split
        · rw [List.append_assoc, List.singleton_append]
        · rfl

/-- **A task that has finished**: its output is kept, and the counters of its dependents go down. -/
structure Completed (q : AsyncTaskSequence ν) (id : ℕ) (output : AsyncTaskContext ν)
    (q' : AsyncTaskSequence ν) (ready : List ℕ) (last : Bool) : Prop where
  length : q'.tasks.length = q.tasks.length
  dependents : ∀ j, (q'.node j).dependents = (q.node j).dependents
  dependencies : ∀ j, q'.dependencies j = q.dependencies j
  output : ∀ j, (q'.node j).output = if j = id then output else (q.node j).output
  done : ∀ j, (q'.node j).done = ((q.node j).done || decide (j = id))
  pending : ∀ j, (q'.node j).pendingDependencies =
    if j ∈ (q.node id).dependents then (q.node j).pendingDependencies - 1
    else (q.node j).pendingDependencies
  scheduled : ∀ j, (q'.node j).scheduled = ((q.node j).scheduled || decide (j ∈ ready))
  ready : ready = (q.node id).dependents.filter fun d => (q.node d).becomesReady
  remaining : q'.remainingTasks = q.remainingTasks - 1
  running : q'.running = decide (q'.remainingTasks ≠ 0)
  last : last = decide (q'.remainingTasks = 0)

/-- The tasks when one of them has its output. -/
theorem getD_finish {q : AsyncTaskSequence ν} {id : ℕ} (output : AsyncTaskContext ν)
    (hid : id < q.tasks.length) (j : ℕ) :
    (q.tasks.modify id fun n => { n with output := output, done := true }).getD j {} =
      if j = id then { q.node j with output := output, done := true } else q.node j := by
  rw [getD_modify]
  by_cases hj : j = id
  · subst hj
    rw [if_pos ⟨rfl, hid⟩, if_pos rfl]
    rfl
  · have hother : ¬(id = j ∧ id < q.tasks.length) := fun heq => hj heq.1.symm
    rw [if_neg hother, if_neg hj]
    rfl

theorem Completed.nodup_ready {q q' : AsyncTaskSequence ν} {id : ℕ} {output : AsyncTaskContext ν}
    {ready : List ℕ} {last : Bool} (hq : Completed q id output q' ready last) (h : q.Graph) :
    ready.Nodup := by
  rw [hq.ready]
  exact (h.nodup_dependents id).filter _

/-- The section of `onTaskFinished` for a task that is under way. -/
theorem complete_spec {q : AsyncTaskSequence ν} (h : q.Graph) {id : ℕ}
    (output : AsyncTaskContext ν) (hrunning : q.running = true) (hid : id < q.tasks.length)
    (hdone : (q.node id).done = false) :
    ∃ q' ready last, q.complete id output = some (q', ready, last) ∧
      Completed q id output q' ready last := by
  have hgo : (!q.running || !q.isValidTaskId id || (q.node id).done) = false := by
    rw [hrunning, hdone, isValidTaskId, decide_eq_true hid]
    rfl
  have hlt : ∀ d ∈ (q.node id).dependents,
      d < (q.tasks.modify id fun n => { n with output := output, done := true }).length := by
    intro d hd
    rw [List.length_modify]
    exact lt_of_mem_dependencies ((h.symm id d).mp hd)
  obtain ⟨hlength, htasks, hready⟩ := release_eq (h.nodup_dependents id) hlt []
  rw [List.length_modify] at hlength
  have hnode := getD_finish output hid
  have hbecomes : (q.node id).dependents.filter (fun d =>
      ((q.tasks.modify id fun n => { n with output := output, done := true }).getD d
        {}).becomesReady) =
        (q.node id).dependents.filter fun d => (q.node d).becomesReady := by
    refine List.filter_congr fun d _ => ?_
    rw [hnode]
    split <;> rfl
  rw [hbecomes, List.nil_append] at hready
  refine ⟨_, _, _, (if_neg (by rw [hgo]; exact Bool.false_ne_true)), ?_⟩
  constructor
  · exact hlength
  · intro j
    refine (congrArg TaskNode.dependents (htasks j)).trans ?_
    rw [hnode]
    split_ifs <;> rfl
  · intro j
    refine (congrArg TaskNode.dependencies (htasks j)).trans ?_
    rw [hnode]
    split_ifs <;> rfl
  · intro j
    refine (congrArg TaskNode.output (htasks j)).trans ?_
    rw [hnode]
    split_ifs <;> rfl
  · intro j
    refine (congrArg TaskNode.done (htasks j)).trans ?_
    rw [hnode]
    by_cases hj : j = id
    · rw [if_pos hj, decide_eq_true hj, Bool.or_true]
      split <;> rfl
    · rw [if_neg hj, decide_eq_false hj, Bool.or_false]
      split <;> rfl
  · intro j
    refine (congrArg TaskNode.pendingDependencies (htasks j)).trans ?_
    rw [hnode]
    split_ifs <;> rfl
  · intro j
    refine (congrArg TaskNode.scheduled (htasks j)).trans ?_
    rw [hnode, hready]
    by_cases hj : j ∈ (q.node id).dependents
    · rw [if_pos hj]
      simp only [List.mem_filter, hj, true_and, TaskNode.becomesReady, TaskNode.release]
      split <;> cases (q.node j).scheduled <;> simp
    · rw [if_neg hj]
      simp only [List.mem_filter, hj, false_and, decide_false, Bool.or_false]
      split <;> rfl
  · exact hready
  · rfl
  · rfl
  · rfl

end AsyncTaskSequence

end SimplyNode
