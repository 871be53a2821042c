import SimplyNode.AsyncTaskSequence

/-!
# Graphs and the Calls That Build Them

What `hasValidGraphLocked` says about the calls that have been made: the tasks of an
`AsyncTaskSequence` are those that `addTask` has accepted, and a task depends on another when
`addDependency` has accepted this. A call may be refused (no task, no such id, a task on itself, a
sequence that is running) and may be made again; runs of the sequence in between leave its graph as
it is.

## Main results

* `apply_spec`: what one call does to the tasks and to the dependencies.
* `hasValidGraph_iff_calls`: the graph is valid when a task has been accepted and the accepted
  dependencies have no cycle.
-/

namespace SimplyNode

open Countdown

namespace AsyncTaskSequence

variable {ν : Type}

/-- A call: one that builds the graph, or a section of a run. -/
inductive GraphCall (ν : Type)
  | addTask (isNull : Bool)
  | addDependency (dependency dependent : ℕ)
  | start (pool : Bool)
  | taskFinished (id : ℕ) (output : AsyncTaskContext ν)

/-- A call: whether it is accepted, and the sequence after it. -/
def apply (q : AsyncTaskSequence ν) : GraphCall ν → Bool × AsyncTaskSequence ν
  | .addTask isNull => ((q.addTask isNull).1.isSome, (q.addTask isNull).2)
  | .addDependency dependency dependent => q.addDependency dependency dependent
  | .start pool =>
      match q.beginRun pool with
      | none => (false, q)
      | some (q', _) => (true, q')
  | .taskFinished id output =>
      match q.complete id output with
      | none => (false, q)
      | some (q', _) => (true, q')

/-- The sequence after some calls. -/
def afterCalls (q : AsyncTaskSequence ν) : List (GraphCall ν) → AsyncTaskSequence ν
  | [] => q
  | call :: calls => afterCalls (q.apply call).2 calls

/-- The calls, each with whether it has been accepted. -/
def callLog (q : AsyncTaskSequence ν) : List (GraphCall ν) → List (GraphCall ν × Bool)
  | [] => []
  | call :: calls => (call, (q.apply call).1) :: callLog (q.apply call).2 calls

/-- A task has been accepted. -/
def HasTask (log : List (GraphCall ν × Bool)) : Prop :=
  ∃ isNull, (GraphCall.addTask isNull, true) ∈ log

/-- A dependency has been accepted. -/
def Depends (log : List (GraphCall ν × Bool)) (a b : ℕ) : Prop :=
  (GraphCall.addDependency a b, true) ∈ log

/-! ### One call -/

/-- The graph is in the lists of the tasks. -/
theorem Graph.of_lists {q q' : AsyncTaskSequence ν} (h : q.Graph)
    (hlength : q'.tasks.length = q.tasks.length)
    (hdependents : ∀ j, (q'.node j).dependents = (q.node j).dependents)
    (hdependencies : ∀ j, q'.dependencies j = q.dependencies j) : q'.Graph where
  valid a b hab := by
    rw [hdependencies] at hab
    rw [hlength]
    exact h.valid a b hab
  symm a b := by
    rw [hdependents, hdependencies]
    exact h.symm a b
  nodup_dependents a := by
    rw [hdependents]
    exact h.nodup_dependents a
  nodup_dependencies b := by
    rw [hdependencies]
    exact h.nodup_dependencies b

/-- What a call does to a graph: it adds the task or the dependency it has been accepted for. -/
structure Adds (q : AsyncTaskSequence ν) (log : List (GraphCall ν × Bool))
    (q' : AsyncTaskSequence ν) : Prop where
  graph : q'.Graph
  tasks : q'.tasks ≠ [] ↔ q.tasks ≠ [] ∨ HasTask log
  dependencies : ∀ a b, a ∈ q'.dependencies b ↔ a ∈ q.dependencies b ∨ Depends log a b

/-- Without a call nothing is added. -/
theorem Adds.nil {q : AsyncTaskSequence ν} (h : q.Graph) : q.Adds [] q where
  graph := h
  tasks := by simp [HasTask]
  dependencies a b := by simp [Depends]

/-- Calls add one after the other. -/
theorem Adds.trans {q q' q'' : AsyncTaskSequence ν} {log log' : List (GraphCall ν × Bool)}
    (h : q.Adds log q') (h' : q'.Adds log' q'') : q.Adds (log ++ log') q'' where
  graph := h'.graph
  tasks := by
    rw [h'.tasks, h.tasks]
    simp only [HasTask, List.mem_append, exists_or, or_assoc]
  dependencies a b := by
    rw [h'.dependencies, h.dependencies]
    simp only [Depends, List.mem_append, or_assoc]

/-- A call that leaves the graph as it is. -/
theorem Adds.of_lists {q q' : AsyncTaskSequence ν} (h : q.Graph) {log : List (GraphCall ν × Bool)}
    (hlength : q'.tasks.length = q.tasks.length)
    (hdependents : ∀ j, (q'.node j).dependents = (q.node j).dependents)
    (hdependencies : ∀ j, q'.dependencies j = q.dependencies j)
    (htask : ¬HasTask log) (hdepends : ∀ a b, ¬Depends log a b) : q.Adds log q' where
  graph := h.of_lists hlength hdependents hdependencies
  tasks := by
    rw [← List.length_pos_iff_ne_nil, ← List.length_pos_iff_ne_nil, hlength]
    exact (or_iff_left htask).symm
  dependencies a b := by
    rw [hdependencies]
    exact (or_iff_left (hdepends a b)).symm

/-- A call that is refused. -/
theorem Adds.refused {q : AsyncTaskSequence ν} (h : q.Graph) (call : GraphCall ν) :
    q.Adds [(call, false)] q :=
  .of_lists h rfl (fun _ => rfl) (fun _ => rfl) (by simp [HasTask]) (by simp [Depends])

/-- `addTask` adds what it has been accepted for. -/
theorem adds_addTask {q : AsyncTaskSequence ν} (h : q.Graph) (isNull : Bool) :
    q.Adds [(.addTask isNull, (q.addTask isNull).1.isSome)] (q.addTask isNull).2 := by
  have hgraph := h.addTask isNull
  revert hgraph
  rw [addTask]
  split
  · exact fun _ => .refused h _
  split
  · exact fun _ => .refused h _
  intro hgraph
  refine ⟨hgraph, by simp [HasTask], fun a b => ?_⟩
  have hnode := congrArg TaskNode.dependencies (q.node_push b)
  rw [dependencies, hnode]
  simp [Depends, dependencies]

/-- `addDependency` adds what it has been accepted for. -/
theorem adds_addDependency {q : AsyncTaskSequence ν} (h : q.Graph) (dependency dependent : ℕ) :
    q.Adds [(.addDependency dependency dependent, (q.addDependency dependency dependent).1)]
      (q.addDependency dependency dependent).2 := by
  have hgraph := h.addDependency dependency dependent
  revert hgraph
  rw [addDependency]
  split
  · exact fun _ => .refused h _
  rename_i hvalid
  split
  · -- the dependency is there already
    rename_i hknown
    intro hgraph
    refine ⟨hgraph, by simp [HasTask], fun a b => (or_iff_left_of_imp fun hdepends => ?_).symm⟩
    obtain ⟨rfl, rfl⟩ : a = dependency ∧ b = dependent := by
      simpa [Depends] using hdepends
    exact (h.symm a b).mp hknown
  intro hgraph
  simp only [Bool.or_eq_true, Bool.not_eq_true', isValidTaskId, decide_eq_false_iff_not,
    decide_eq_true_eq, not_or, not_not] at hvalid
  obtain ⟨⟨⟨-, hdependency⟩, hdependent⟩, hne⟩ := hvalid
  have hlists := lists_addDependency hdependency hdependent hne
  refine ⟨hgraph, ?_, fun a b => ?_⟩
  · rw [← List.length_pos_iff, ← List.length_pos_iff, List.length_modify, List.length_modify]
    simp [HasTask]
  · rw [(hlists b).2]
    split
    · rename_i hb
      simp [Depends, hb]
    · rename_i hb
      simp [Depends, hb]

/-- The section of `start` leaves the lists of the tasks as they are. -/
theorem adds_start {q q' : AsyncTaskSequence ν} (h : q.Graph) {pool : Bool} {ready : List ℕ}
    (hstart : q.beginRun pool = some (q', ready)) : q.Adds [(.start pool, true)] q' := by
  rw [beginRun, Option.ite_none_left_eq_some, Option.some.injEq, Prod.mk.injEq] at hstart
  obtain ⟨-, rfl, -⟩ := hstart
  refine .of_lists h (List.length_map _) (fun j => ?_) (fun j => ?_) (by simp [HasTask])
    (by simp [Depends])
  · rw [node, getD_reset]
    split
    · rfl
    · rw [node_of_le (by omega)]
  · rw [dependencies, node, getD_reset]
    split
    · rfl
    · rw [dependencies, node_of_le (by omega)]

/-- A completion that is not refused completes its task. -/
theorem completed_of_complete {q q' : AsyncTaskSequence ν} (h : q.Graph) {id : ℕ}
    {output : AsyncTaskContext ν} {ready : List ℕ} {last : Bool}
    (hcomplete : q.complete id output = some (q', ready, last)) :
    Completed q id output q' ready last := by
  have hgo : ¬(!q.running || !q.isValidTaskId id || (q.node id).done) = true := by
    intro hreturns
    rw [complete, if_pos hreturns] at hcomplete
    cases hcomplete
  simp only [Bool.or_eq_true, Bool.not_eq_true', isValidTaskId, decide_eq_false_iff_not, not_or,
    Bool.not_eq_false, not_not, Bool.not_eq_true] at hgo
  obtain ⟨⟨hrunning, hid⟩, hdone⟩ := hgo
  obtain ⟨_, _, _, heq, hcompleted⟩ := complete_spec h output hrunning hid hdone
  rw [hcomplete] at heq
  cases heq
  exact hcompleted

/-- **One call** adds what it has been accepted for. -/
theorem apply_spec {q : AsyncTaskSequence ν} (h : q.Graph) (call : GraphCall ν) :
    q.Adds [(call, (q.apply call).1)] (q.apply call).2 := by
  cases call with
  | addTask isNull => exact adds_addTask h isNull
  | addDependency dependency dependent => exact adds_addDependency h dependency dependent
  | start pool =>
      rw [apply]
      split
      · exact .refused h _
      · rename_i hstart
        exact adds_start h hstart
  | taskFinished id output =>
      rw [apply]
      split
      · exact .refused h _
      · rename_i hcomplete
        have hcompleted := completed_of_complete h hcomplete
        exact .of_lists h hcompleted.length hcompleted.dependents hcompleted.dependencies
          (by simp [HasTask]) (by simp [Depends])

/-! ### All calls -/

/-- **The calls** add what they have been accepted for. -/
theorem adds_callLog {q : AsyncTaskSequence ν} (h : q.Graph) (calls : List (GraphCall ν)) :
    q.Adds (q.callLog calls) (q.afterCalls calls) := by
  induction calls generalizing q with
  | nil => exact .nil h
  | cons call calls ih =>
      have hcall := apply_spec h call
      exact hcall.trans (ih hcall.graph)

/-- **Valid graphs by their calls.** After any calls, refused and repeated ones among them, the
graph is valid exactly when a task has been accepted and the accepted dependencies have no cycle. -/
theorem hasValidGraph_iff_calls (calls : List (GraphCall ν)) :
    (afterCalls {} calls).hasValidGraph = true ↔
      HasTask (callLog {} calls) ∧ ∀ a, ¬Relation.TransGen (Depends (callLog {} calls)) a a := by
  have hadds := adds_callLog graph_empty calls
  have hdepends : (fun a b => a ∈ (afterCalls {} calls).dependencies b) =
      Depends (callLog {} calls) := by
    funext a b
    refine propext ((hadds.dependencies a b).trans (or_iff_right fun hmem => ?_))
    exact absurd (lt_of_mem_dependencies hmem) (Nat.not_lt_zero b)
  rw [hasValidGraph_iff hadds.graph, hadds.tasks, or_iff_right (not_not_intro rfl), Acyclic,
    hdepends]

/-- Two tasks, a dependency that is made twice, one on a task that is not there, and one back. -/
example : (afterCalls ({} : AsyncTaskSequence ℕ) [.addTask false, .addTask true, .addTask false,
      .addDependency 0 1, .addDependency 0 1, .addDependency 1 2]).hasValidGraph = true ∧
    (afterCalls ({} : AsyncTaskSequence ℕ) [.addTask false, .addTask false, .addDependency 0 1,
      .addDependency 1 0]).hasValidGraph = false := by
  decide

end AsyncTaskSequence

end SimplyNode
