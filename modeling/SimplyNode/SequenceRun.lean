import SimplyNode.AsyncTaskSequence
import SimplyNode.Lib.Threads
import SimplyNode.Lib.Transition

/-!
# Running a Task Graph

The thread that calls `start`, and the runnables of the pool. A runnable executes its task and then
calls `onTaskFinished`, where the sections under the mutex and the emissions of signals are steps of
their own. Any thread may take the next step, and the pool may begin with any runnable that it has,
so what the pool and the scheduler of the system may do is among the runs.

What happens is written to a log. Every thread owes the log some events, and the log and the threads
together have each event as often as the sequence demands.

## Main results

* `Inv.step`: the invariant, for every step of a thread.
* `runs_graph`: **a graph is run**, each task once and behind those it depends on.
-/

namespace SimplyNode

open Countdown Transition

namespace AsyncTaskSequence

variable {ν : Type}

/-! ### Threads -/

/-- Who loops over the tasks that are ready: `start`, or `onTaskFinished`, maybe of the last task.
-/
inductive Caller
  | start
  | handler (last : Bool)
  deriving DecidableEq

/-- **Where a thread is**: in a call of `start`, or in a runnable of the pool. -/
inductive Thread (ν : Type)
  /-- In front of the section of `start`. -/
  | starting
  /-- In the loop over the tasks that are ready, in front of the section of `scheduleTask`. -/
  | scheduling (ready : List ℕ) (caller : Caller)
  /-- In front of `pool->start`. -/
  | submitting (id : ℕ) (input : AsyncTaskContext ν) (ready : List ℕ) (caller : Caller)
  /-- In the queue of the pool. -/
  | queued (id : ℕ) (input : AsyncTaskContext ν)
  /-- In `AsyncTask::execute`. -/
  | executing (id : ℕ) (input : AsyncTaskContext ν)
  /-- In front of the section of `onTaskFinished`. -/
  | completing (id : ℕ) (output : AsyncTaskContext ν)
  /-- In front of `taskFinished.emit`. -/
  | emitting (id : ℕ) (ready : List ℕ) (last : Bool)
  /-- In front of `m_done.notify_all`. -/
  | notifying
  /-- In front of `finished.emit`. -/
  | finishing
  | ended

/-- What is written to the log. -/
inductive Event (ν : Type)
  | returned (started : Bool)
  | begun (id : ℕ) (input : AsyncTaskContext ν)
  | done (id : ℕ) (output : AsyncTaskContext ν)
  | taskFinished (id : ℕ)
  | finished

/-- What a step of a thread does. -/
structure Moved (ν : Type) where
  sequence : AsyncTaskSequence ν
  thread : Thread ν
  spawned : List (Thread ν) := []
  events : List (Event ν) := []

/-- **A step of a thread.** A task that is executed may have any result. -/
def Thread.step (q : AsyncTaskSequence ν) (result : AsyncTaskContext ν) :
    Thread ν → Option (Moved ν)
  | .starting =>
      match q.beginRun true with
      | none => some { sequence := q, thread := .ended, events := [.returned false] }
      | some (q', ready) => some { sequence := q', thread := .scheduling ready .start }
  | .scheduling (id :: ready) caller =>
      match q.prepare id with
      | none => some { sequence := q, thread := .scheduling ready caller }
      | some input => some { sequence := q, thread := .submitting id input ready caller }
  | .scheduling [] .start => some { sequence := q, thread := .ended, events := [.returned true] }
  | .scheduling [] (.handler last) =>
      some { sequence := q, thread := if last then .notifying else .ended }
  | .submitting id input ready caller =>
      some { sequence := q, thread := .scheduling ready caller, spawned := [.queued id input] }
  | .queued id input =>
      some { sequence := q, thread := .executing id input, events := [.begun id input] }
  | .executing id _ => some { sequence := q, thread := .completing id result }
  | .completing id output =>
      match q.complete id output with
      | none => some { sequence := q, thread := .ended }
      | some (q', ready, last) =>
          some { sequence := q', thread := .emitting id ready last, events := [.done id output] }
  | .emitting id ready last =>
      some { sequence := q, thread := .scheduling ready (.handler last)
             events := [.taskFinished id] }
  | .notifying => some { sequence := q, thread := .finishing }
  | .finishing => some { sequence := q, thread := .ended, events := [.finished] }
  | .ended => none

/-- The sequence, the threads and the log. -/
structure Execution (ν : Type) where
  sequence : AsyncTaskSequence ν
  threads : List (Thread ν)
  log : List (Event ν) := []

/-- The thread that takes a step, and the result of its task, if it executes one. -/
structure Turn (ν : Type) where
  thread : ℕ
  result : AsyncTaskContext ν

namespace Execution

/-- A step of one thread. -/
def step (s : Execution ν) (l : Turn ν) : Option (Execution ν) :=
  match s.threads[l.thread]? with
  | none => none
  | some t =>
      (t.step s.sequence l.result).map fun m =>
        { sequence := m.sequence
          threads := s.threads.set l.thread m.thread ++ m.spawned
          log := s.log ++ m.events }

/-- The steps. -/
def Step (s : Execution ν) (l : Turn ν) (s' : Execution ν) : Prop := s.step l = some s'

/-- A call of `start`. -/
def start (q : AsyncTaskSequence ν) : Execution ν := { sequence := q, threads := [.starting] }

theorem step_cases {s s' : Execution ν} {l : Turn ν} (h : s.step l = some s') :
    ∃ t m, s.threads[l.thread]? = some t ∧ t.step s.sequence l.result = some m ∧
      s' = { sequence := m.sequence
             threads := s.threads.set l.thread m.thread ++ m.spawned
             log := s.log ++ m.events } := by
  rw [step] at h
  split at h
  · cases h
  · rename_i t ht
    obtain ⟨m, hm, rfl⟩ := Option.map_eq_some_iff.mp h
    exact ⟨t, m, ht, hm, rfl⟩

end Execution

/-! ### What may happen -/

/-- **What may come behind a log**: a task begins once, with the merge of the outputs that its
dependencies have had, and is done once; `finished` comes once, behind all tasks. -/
def Allowed (q : AsyncTaskSequence ν) (log : List (Event ν)) : Event ν → Prop
  | .returned started => started = true ∧ ∀ b, .returned b ∉ log
  | .begun id input => id < q.tasks.length ∧ (∀ i, .begun id i ∉ log) ∧
      ∃ outputs, (∀ a ∈ q.dependencies id, .done a (outputs a) ∈ log) ∧
        Merged (q.dependencies id) outputs input
  | .done id _ => (∃ input, .begun id input ∈ log) ∧ ∀ o, .done id o ∉ log
  | .taskFinished id => (∃ output, .done id output ∈ log) ∧ .taskFinished id ∉ log
  | .finished => .finished ∉ log ∧ ∀ id < q.tasks.length, ∃ output, .done id output ∈ log

/-- A log in which every event may come where it is. -/
def Lawful (q : AsyncTaskSequence ν) (log : List (Event ν)) : Prop :=
  ∀ xs e, xs ++ [e] <+: log → Allowed q xs e

/-- **The graph is run**: every run keeps the order and comes to an end, where `start` has returned
true, each task has begun and `finished` has been emitted. -/
structure Runs (q : AsyncTaskSequence ν) : Prop where
  lawful : ∀ ls s, Reaches Execution.Step (.start q) ls s → Lawful q s.log
  bounded : ∀ ls s, Reaches Execution.Step (.start q) ls s → ls.length ≤ 4 + 18 * q.tasks.length
  complete : ∀ ls s, Reaches Execution.Step (.start q) ls s → (∀ l, s.step l = none) →
    .returned true ∈ s.log ∧ .finished ∈ s.log ∧
      ∀ id < q.tasks.length, ∃ input, .begun id input ∈ s.log

theorem lawful_nil (q : AsyncTaskSequence ν) : Lawful q [] := by
  intro xs e hxs
  have := hxs.length_le
  rw [List.length_append] at this
  exact absurd this (by simp)

theorem Lawful.snoc {q : AsyncTaskSequence ν} {log : List (Event ν)} {e : Event ν}
    (h : Lawful q log) (he : Allowed q log e) : Lawful q (log ++ [e]) := by
  intro xs f hxs
  obtain heq | hbefore := List.prefix_concat_iff.mp hxs
  · obtain ⟨rfl, hlast⟩ := List.append_inj' heq rfl
    rw [List.singleton_inj.mp hlast]
    exact he
  · exact h xs f hbefore

theorem Lawful.of_mem {q : AsyncTaskSequence ν} {log : List (Event ν)} {e : Event ν}
    (h : Lawful q log) (he : e ∈ log) : ∃ xs, Allowed q xs e := by
  obtain ⟨xs, ys, rfl⟩ := List.append_of_mem he
  exact ⟨xs, h xs e ⟨ys, by simp⟩⟩

/-! ### What the threads owe -/

/-- An event without its data. -/
inductive Mark
  | returned
  | begun (id : ℕ)
  | done (id : ℕ)
  | taskFinished (id : ℕ)
  | finished
  deriving DecidableEq

def Event.mark : Event ν → Mark
  | .returned _ => .returned
  | .begun id _ => .begun id
  | .done id _ => .done id
  | .taskFinished id => .taskFinished id
  | .finished => .finished

/-- What is to come of a task that is ready. -/
def owed (id : ℕ) : List Mark := [.begun id, .done id, .taskFinished id]

/-- What comes behind the loop over the ready tasks. -/
def Caller.owes : Caller → List Mark
  | .start => [.returned]
  | .handler last => if last then [.finished] else []

/-- **What is to come of a thread**, and of the runnables it will start. -/
def Thread.owes : Thread ν → List Mark
  | .starting => []
  | .scheduling ready caller => ready.flatMap owed ++ caller.owes
  | .submitting id _ ready caller => owed id ++ (ready.flatMap owed ++ caller.owes)
  | .queued id _ => owed id
  | .executing id _ => [.done id, .taskFinished id]
  | .completing id _ => [.done id, .taskFinished id]
  | .emitting id ready last =>
      .taskFinished id :: (ready.flatMap owed ++ (Caller.handler last).owes)
  | .notifying => [.finished]
  | .finishing => [.finished]
  | .ended => []

/-- How often an event has happened or is to come. -/
def due (q : AsyncTaskSequence ν) : Mark → ℕ
  | .returned => 1
  | .begun id => if (q.node id).scheduled then 1 else 0
  | .done id => if (q.node id).scheduled then 1 else 0
  | .taskFinished id => if (q.node id).scheduled then 1 else 0
  | .finished => if q.running then 0 else 1

/-- What the log must have for a thread to be where it is. -/
def Backed (q : AsyncTaskSequence ν) (log : List (Event ν)) : Thread ν → Prop
  | .starting => False
  | .submitting id input _ _ => ∃ outputs,
      (∀ a ∈ q.dependencies id, .done a (outputs a) ∈ log) ∧
        Merged (q.dependencies id) outputs input
  | .queued id input => ∃ outputs,
      (∀ a ∈ q.dependencies id, .done a (outputs a) ∈ log) ∧
        Merged (q.dependencies id) outputs input
  | .executing id input => .begun id input ∈ log
  | .completing id _ => ∃ input, .begun id input ∈ log
  | .emitting id _ _ => ∃ output, .done id output ∈ log
  | _ => True

/-- **The invariant** of the runs of a graph, behind the section of `start`. -/
structure Inv (q : AsyncTaskSequence ν) (s : Execution ν) : Prop where
  length : s.sequence.tasks.length = q.tasks.length
  dependents : ∀ j, (s.sequence.node j).dependents = (q.node j).dependents
  dependencies : ∀ j, s.sequence.dependencies j = q.dependencies j
  pending : ∀ j, (s.sequence.node j).pendingDependencies =
    pending (fun a => (s.sequence.node a).done) (q.dependencies j)
  scheduled : ∀ j, (s.sequence.node j).scheduled = true ↔
    j < q.tasks.length ∧ (s.sequence.node j).pendingDependencies = 0
  done : ∀ j, (s.sequence.node j).done = true → (s.sequence.node j).scheduled = true
  remaining : s.sequence.remainingTasks =
    Countdown.pending (fun a => (s.sequence.node a).done) (List.range q.tasks.length)
  running : s.sequence.running = decide (s.sequence.remainingTasks ≠ 0)
  ledger : ∀ m, (s.log.map Event.mark).count m + (s.threads.flatMap Thread.owes).count m =
    due s.sequence m
  backed : ∀ t ∈ s.threads, Backed q s.log t
  outputs : ∀ j output, .done j output ∈ s.log ↔
    (s.sequence.node j).done = true ∧ (s.sequence.node j).output = output
  lawful : Lawful q s.log

/-! ### The log and the threads -/

/-- An event that has not happened. -/
theorem notMem_of_count {log : List (Event ν)} {e : Event ν}
    (h : (log.map Event.mark).count e.mark = 0) : e ∉ log :=
  fun he => List.count_eq_zero.mp h (List.mem_map_of_mem he)

/-- An event that has happened. -/
theorem exists_of_count {log : List (Event ν)} {m : Mark} (h : (log.map Event.mark).count m = 1) :
    match m with
    | .returned => ∃ b, .returned b ∈ log
    | .begun id => ∃ input, .begun id input ∈ log
    | .done id => ∃ output, .done id output ∈ log
    | .taskFinished id => .taskFinished id ∈ log
    | .finished => .finished ∈ log := by
  have hpos : 0 < (log.map Event.mark).count m := by omega
  obtain ⟨e, he, rfl⟩ := List.mem_map.mp (List.count_pos_iff.mp hpos)
  cases e with
  | returned b => exact ⟨b, he⟩
  | begun id input => exact ⟨input, he⟩
  | done id output => exact ⟨output, he⟩
  | taskFinished id => exact he
  | finished => exact he

theorem Backed.mono {q : AsyncTaskSequence ν} {log : List (Event ν)} {t : Thread ν}
    (h : Backed q log t) (events : List (Event ν)) : Backed q (log ++ events) t := by
  have hmem : ∀ {e : Event ν}, e ∈ log → e ∈ log ++ events := List.mem_append_left events
  cases t with
  | starting => exact h
  | submitting id input ready caller =>
      obtain ⟨outputs, houtputs, hmerged⟩ := h
      exact ⟨outputs, fun a ha => hmem (houtputs a ha), hmerged⟩
  | queued id input =>
      obtain ⟨outputs, houtputs, hmerged⟩ := h
      exact ⟨outputs, fun a ha => hmem (houtputs a ha), hmerged⟩
  | executing id input => exact hmem h
  | completing id output =>
      obtain ⟨input, hinput⟩ := h
      exact ⟨input, hmem hinput⟩
  | emitting id ready last =>
      obtain ⟨output, houtput⟩ := h
      exact ⟨output, hmem houtput⟩
  | scheduling ready caller => trivial
  | notifying => trivial
  | finishing => trivial
  | ended => trivial

/-- What is to come after a step of a thread. -/
theorem count_owes_set {threads spawned : List (Thread ν)} {i : ℕ} {t t' : Thread ν}
    (h : threads[i]? = some t) (m : Mark) :
    ((threads.set i t' ++ spawned).flatMap Thread.owes).count m + t.owes.count m =
      (threads.flatMap Thread.owes).count m +
        (t'.owes.count m + (spawned.flatMap Thread.owes).count m) := by
  have hset := Threads.sum_map_set_add (f := fun t => t.owes.count m) (b := t') h
  rw [List.flatMap_append, List.count_append, List.count_flatMap, List.count_flatMap (l := threads)]
  simp only [Function.comp_def]
  omega

/-- Nothing is to come twice. -/
theorem due_le_one (q : AsyncTaskSequence ν) (m : Mark) : due q m ≤ 1 := by
  cases m with
  | returned => exact le_rfl
  | begun id =>
      rw [due]
      split <;> omega
  | done id =>
      rw [due]
      split <;> omega
  | taskFinished id =>
      rw [due]
      split <;> omega
  | finished =>
      rw [due]
      split <;> omega

/-- What a thread owes, the log does not have yet. -/
theorem Inv.count_eq_zero {q : AsyncTaskSequence ν} {s : Execution ν} (h : Inv q s) {t : Thread ν}
    (ht : t ∈ s.threads) {m : Mark} (hm : m ∈ t.owes) :
    (s.log.map Event.mark).count m = 0 ∧ due s.sequence m = 1 := by
  have howes : 0 < (s.threads.flatMap Thread.owes).count m :=
    List.count_pos_iff.mpr (List.mem_flatMap.mpr ⟨t, ht, hm⟩)
  have hdue := due_le_one s.sequence m
  have := h.ledger m
  omega

/-- **A task that is under way**: it is not done, and the sequence is running. -/
theorem Inv.of_owes {q : AsyncTaskSequence ν} {s : Execution ν} (h : Inv q s) {t : Thread ν}
    (ht : t ∈ s.threads) {id : ℕ} (hid : .done id ∈ t.owes) :
    id < q.tasks.length ∧ (s.sequence.node id).scheduled = true ∧
      (s.sequence.node id).done = false ∧ s.sequence.running = true := by
  obtain ⟨hcount, hdue⟩ := h.count_eq_zero ht hid
  have hscheduled : (s.sequence.node id).scheduled = true := by
    rw [due] at hdue
    split at hdue
    · assumption
    · omega
  have hlt := ((h.scheduled id).mp hscheduled).1
  have hdone : (s.sequence.node id).done = false := by
    refine Bool.eq_false_iff.mpr fun hdone => ?_
    exact notMem_of_count (e := .done id _) hcount ((h.outputs id _).mpr ⟨hdone, rfl⟩)
  refine ⟨hlt, hscheduled, hdone, ?_⟩
  have hpos := @pending_pos ℕ (fun a => (s.sequence.node a).done) _ _ (List.mem_range.mpr hlt) hdone
  rw [h.running, h.remaining]
  exact decide_eq_true (by omega)

/-- **A step that leaves the sequence alone.** -/
theorem Inv.move {q : AsyncTaskSequence ν} {s : Execution ν} (h : Inv q s) {i : ℕ}
    {t t' : Thread ν} {spawned : List (Thread ν)} {events : List (Event ν)}
    (ht : s.threads[i]? = some t)
    (howes : ∀ m, (events.map Event.mark).count m +
      (t'.owes.count m + (spawned.flatMap Thread.owes).count m) = t.owes.count m)
    (hbacked : ∀ u ∈ t' :: spawned, Backed q (s.log ++ events) u)
    (hlawful : Lawful q (s.log ++ events)) (hdone : ∀ j o, .done j o ∉ events) :
    Inv q { sequence := s.sequence
            threads := s.threads.set i t' ++ spawned
            log := s.log ++ events } where
  length := h.length
  dependents := h.dependents
  dependencies := h.dependencies
  pending := h.pending
  scheduled := h.scheduled
  done := h.done
  remaining := h.remaining
  running := h.running
  ledger m := by
    have hset := @count_owes_set _ _ spawned _ _ t' ht m
    have hold := h.ledger m
    have hnew := howes m
    dsimp only
    rw [List.map_append, List.count_append]
    omega
  backed := by
    intro u hu
    obtain hu | hu := List.mem_append.mp hu
    · obtain rfl | hu := Threads.mem_set hu
      · exact hbacked u List.mem_cons_self
      · exact (h.backed u hu).mono events
    · exact hbacked u (List.mem_cons_of_mem t' hu)
  outputs j output := by
    rw [← h.outputs, List.mem_append]
    exact or_iff_left (hdone j output)
  lawful := hlawful

/-- A step that nothing is written about. -/
theorem Inv.silent {q : AsyncTaskSequence ν} {s : Execution ν} (h : Inv q s) {i : ℕ}
    {t t' : Thread ν} {spawned : List (Thread ν)} (ht : s.threads[i]? = some t)
    (howes : ∀ m, t'.owes.count m + (spawned.flatMap Thread.owes).count m = t.owes.count m)
    (hbacked : ∀ u ∈ t' :: spawned, Backed q s.log u) :
    Inv q { sequence := s.sequence
            threads := s.threads.set i t' ++ spawned
            log := s.log ++ [] } := by
  refine h.move ht (fun m => (Nat.zero_add _).trans (howes m)) (fun u hu => (hbacked u hu).mono [])
    ?_ fun j o => List.not_mem_nil
  rw [List.append_nil]
  exact h.lawful

/-- A step that writes an event the thread has owed. -/
theorem Inv.write {q : AsyncTaskSequence ν} {s : Execution ν} (h : Inv q s) {i : ℕ}
    {t t' : Thread ν} {e : Event ν} (ht : s.threads[i]? = some t)
    (howes : t.owes = e.mark :: t'.owes) (hallowed : Allowed q s.log e)
    (hbacked : Backed q (s.log ++ [e]) t') (hdone : ∀ j o, e ≠ .done j o) :
    Inv q { sequence := s.sequence
            threads := s.threads.set i t' ++ []
            log := s.log ++ [e] } := by
  refine h.move ht (fun m => ?_) (fun u hu => ?_) (h.lawful.snoc hallowed) fun j o hmem => ?_
  · rw [howes, List.count_cons, List.map_singleton, List.count_singleton]
    exact Nat.add_comm _ _
  · rw [List.mem_singleton.mp hu]
    exact hbacked
  · exact hdone j o (List.mem_singleton.mp hmem).symm

/-- A ready task is found by `scheduleTask`, and what it gets is the merge of what there is. -/
theorem Inv.prepare {q : AsyncTaskSequence ν} {s : Execution ν} (h : Inv q s) {t : Thread ν}
    (ht : t ∈ s.threads) {id : ℕ} (hid : .done id ∈ t.owes) :
    s.sequence.prepare id = some (s.sequence.buildInput id) ∧
      ∃ outputs, (∀ a ∈ q.dependencies id, .done a (outputs a) ∈ s.log) ∧
        Merged (q.dependencies id) outputs (s.sequence.buildInput id) := by
  obtain ⟨hlt, hscheduled, -, hrunning⟩ := h.of_owes ht hid
  constructor
  · rw [AsyncTaskSequence.prepare, hrunning, isValidTaskId, h.length, decide_eq_true hlt]
    rfl
  · have hmerged := merged_buildInput (q := s.sequence) id
    rw [h.dependencies] at hmerged
    refine ⟨_, fun a ha => (h.outputs a _).mpr ⟨?_, rfl⟩, hmerged⟩
    -- it is ready because its dependencies are done
    have hzero := ((h.scheduled id).mp hscheduled).2
    rw [h.pending] at hzero
    exact pending_eq_zero.mp hzero a ha

/-- When the sequence has stopped, all tasks are done. -/
theorem Inv.all_done {q : AsyncTaskSequence ν} {s : Execution ν} (h : Inv q s)
    (hrunning : s.sequence.running = false) {id : ℕ} (hid : id < q.tasks.length) :
    (s.sequence.node id).done = true := by
  have hzero := h.running.symm.trans hrunning
  rw [decide_eq_false_iff_not, not_not, h.remaining] at hzero
  exact pending_eq_zero.mp hzero id (List.mem_range.mpr hid)

/-- The dependencies do not change. -/
theorem Inv.graph {q : AsyncTaskSequence ν} {s : Execution ν} (h : Inv q s) (hgraph : q.Graph) :
    s.sequence.Graph where
  valid a b hab := by
    rw [h.dependencies] at hab
    rw [h.length]
    exact hgraph.valid a b hab
  symm a b := by
    rw [h.dependencies, h.dependents]
    exact hgraph.symm a b
  nodup_dependents a := by
    rw [h.dependents]
    exact hgraph.nodup_dependents a
  nodup_dependencies b := by
    rw [h.dependencies]
    exact hgraph.nodup_dependencies b

/-- The section of `onTaskFinished` of a thread that has executed its task. -/
theorem Inv.completes {q : AsyncTaskSequence ν} {s : Execution ν} (h : Inv q s) (hgraph : q.Graph)
    {id : ℕ} {output : AsyncTaskContext ν} (ht : .completing id output ∈ s.threads) :
    ∃ q' ready last, s.sequence.complete id output = some (q', ready, last) ∧
      Completed s.sequence id output q' ready last := by
  obtain ⟨hlt, -, hdone, hrunning⟩ := h.of_owes ht List.mem_cons_self
  exact complete_spec (h.graph hgraph) output hrunning (h.length ▸ hlt) hdone

/-- What is to come of some tasks. -/
theorem count_owed (ids : List ℕ) (m : Mark) :
    (ids.flatMap owed).count m =
      match m with
      | .begun id => ids.count id
      | .done id => ids.count id
      | .taskFinished id => ids.count id
      | _ => 0 := by
  induction ids with
  | nil => cases m <;> rfl
  | cons id ids ih =>
      rw [List.flatMap_cons, List.count_append, ih, owed]
      cases m <;> simp [List.count_cons] <;> omega

/-- **A task that has finished** leaves its dependents scheduled that wait for nothing more. -/
theorem Inv.scheduled_completed {q : AsyncTaskSequence ν} {s : Execution ν} (hgraph : q.Graph)
    (h : Inv q s) {id : ℕ} {output : AsyncTaskContext ν} {q' : AsyncTaskSequence ν}
    {ready : List ℕ} {last : Bool} (hdone : (s.sequence.node id).done = false)
    (hq : Completed s.sequence id output q' ready last) (j : ℕ) :
    (q'.node j).pendingDependencies =
        Countdown.pending (fun a => (q'.node a).done) (q.dependencies j) ∧
      (j ∈ ready ↔ (s.sequence.node j).scheduled = false ∧ (q'.node j).scheduled = true) ∧
      ((q'.node j).scheduled = true ↔
        j < q.tasks.length ∧ (q'.node j).pendingDependencies = 0) := by
  have hfinish := pending_finish (hgraph.nodup_dependencies j) hdone hq.done
  have hpending := hq.pending j
  have hscheduled := h.scheduled j
  have hold := h.pending j
  have hmem : j ∈ (s.sequence.node id).dependents ↔ id ∈ q.dependencies j := by
    rw [h.dependents]
    exact hgraph.symm id j
  have hready : j ∈ ready ↔ j ∈ (s.sequence.node id).dependents ∧
      (s.sequence.node j).pendingDependencies - 1 = 0 ∧
        (s.sequence.node j).scheduled = false := by
    rw [hq.ready, List.mem_filter, TaskNode.becomesReady]
    simp
  by_cases hid : id ∈ q.dependencies j
  · -- a dependent: it has waited for the task at least
    have hlt := lt_of_mem_dependencies hid
    rw [if_pos hid] at hfinish
    rw [if_pos (hmem.mpr hid)] at hpending
    have hwaits : (s.sequence.node j).scheduled = false := by
      refine Bool.eq_false_iff.mpr fun hs => ?_
      have := (hscheduled.mp hs).2
      omega
    have hready' : j ∈ ready ↔ (q'.node j).pendingDependencies = 0 := by
      rw [hready, hpending]
      exact ⟨fun hr => hr.2.1, fun hr => ⟨hmem.mpr hid, hr, hwaits⟩⟩
    have hscheduled' : (q'.node j).scheduled = true ↔ j ∈ ready := by
      rw [hq.scheduled, hwaits, Bool.false_or, decide_eq_true_eq]
    refine ⟨by omega, ?_, ?_⟩
    · rw [hscheduled']
      exact (and_iff_right hwaits).symm
    · rw [hscheduled', hready']
      exact (and_iff_right hlt).symm
  · rw [if_neg hid] at hfinish
    rw [if_neg (mt hmem.mp hid)] at hpending
    have hnot : j ∉ ready := fun hr => hid (hmem.mp (hready.mp hr).1)
    have hscheduled' : (q'.node j).scheduled = (s.sequence.node j).scheduled := by
      rw [hq.scheduled, decide_eq_false hnot, Bool.or_false]
    refine ⟨by omega, ?_, ?_⟩
    · rw [hscheduled']
      refine iff_of_false hnot fun hr => ?_
      rw [hr.1] at hr
      exact Bool.false_ne_true hr.2
    · rw [hscheduled', hpending]
      exact hscheduled

/-- What is to come when a task has finished. -/
theorem Inv.due_completed {q : AsyncTaskSequence ν} {s : Execution ν} (hgraph : q.Graph)
    (h : Inv q s) {id : ℕ} {output : AsyncTaskContext ν} {q' : AsyncTaskSequence ν}
    {ready : List ℕ} {last : Bool} (hdone : (s.sequence.node id).done = false)
    (hrunning : s.sequence.running = true)
    (hq : Completed s.sequence id output q' ready last) (m : Mark) :
    due q' m = due s.sequence m +
      ((ready.flatMap owed).count m + (Caller.handler last).owes.count m) := by
  have hnodup := hq.nodup_ready (h.graph hgraph)
  -- the tasks that become ready have not been scheduled before
  have htask : ∀ j, (if (q'.node j).scheduled then 1 else 0) =
      (if (s.sequence.node j).scheduled then 1 else 0) + ready.count j := by
    intro j
    obtain ⟨-, hready, -⟩ := h.scheduled_completed hgraph hdone hq j
    by_cases hj : j ∈ ready
    · obtain ⟨hold, hnew⟩ := hready.mp hj
      rw [List.count_eq_one_of_mem hnodup hj, hold, hnew]
      rfl
    · rw [List.count_eq_zero.mpr hj, hq.scheduled, decide_eq_false hj, Bool.or_false]
      rfl
  have hlast : ∀ j, (Caller.handler last).owes.count (.begun j) = 0 ∧
      (Caller.handler last).owes.count (.done j) = 0 ∧
        (Caller.handler last).owes.count (.taskFinished j) = 0 := by
    intro j
    cases last <;> simp [Caller.owes]
  rw [count_owed]
  cases m with
  | returned =>
      have : (Caller.handler last).owes.count .returned = 0 := by cases last <;> rfl
      rw [this]
      rfl
  | begun j =>
      rw [(hlast j).1]
      exact htask j
  | done j =>
      rw [(hlast j).2.1]
      exact htask j
  | taskFinished j =>
      rw [(hlast j).2.2]
      exact htask j
  | finished =>
      rw [due, due, hrunning, hq.running, hq.last]
      by_cases hzero : q'.remainingTasks = 0
      · simp [hzero, Caller.owes]
      · simp [hzero, Caller.owes]

/-- The sequence after a task has finished. -/
theorem Inv.completed {q : AsyncTaskSequence ν} {s : Execution ν} (hgraph : q.Graph) (h : Inv q s)
    {i id : ℕ} {output : AsyncTaskContext ν} (ht : s.threads[i]? = some (.completing id output))
    {q' : AsyncTaskSequence ν} {ready : List ℕ} {last : Bool}
    (hq : Completed s.sequence id output q' ready last) :
    Inv q { sequence := q'
            threads := s.threads.set i (.emitting id ready last) ++ []
            log := s.log ++ [.done id output] } := by
  have hmem := List.mem_of_getElem? ht
  have hid : Mark.done id ∈ (Thread.completing id output).owes := List.mem_cons_self
  obtain ⟨hlt, hscheduled, hdone, hrunning⟩ := h.of_owes hmem hid
  obtain ⟨hcount, -⟩ := h.count_eq_zero hmem hid
  have hfresh : ∀ o, .done id o ∉ s.log := fun o => notMem_of_count (e := .done id o) hcount
  have hbacked := h.backed _ hmem
  constructor
  · exact hq.length.trans h.length
  · exact fun j => (hq.dependents j).trans (h.dependents j)
  · exact fun j => (hq.dependencies j).trans (h.dependencies j)
  · exact fun j => (h.scheduled_completed hgraph hdone hq j).1
  · exact fun j => (h.scheduled_completed hgraph hdone hq j).2.2
  · intro j hj
    rw [hq.done, Bool.or_eq_true, decide_eq_true_eq] at hj
    rw [hq.scheduled, Bool.or_eq_true]
    obtain hj | rfl := hj
    · exact Or.inl (h.done j hj)
    · exact Or.inl hscheduled
  · have hfinish := pending_finish (List.nodup_range (n := q.tasks.length)) hdone hq.done
    rw [if_pos (List.mem_range.mpr hlt)] at hfinish
    have hold := h.remaining
    have hnew := hq.remaining
    dsimp only
    omega
  · exact hq.running
  · intro m
    have hset := @count_owes_set _ _ [] _ _ (.emitting id ready last) ht m
    have hold := h.ledger m
    have hdue := h.due_completed hgraph hdone hrunning hq m
    simp only [Thread.owes, List.count_cons, List.count_append, List.count_nil, List.flatMap_nil]
      at hset
    dsimp only
    rw [List.map_append, List.count_append, List.map_singleton, List.count_singleton, Event.mark]
    omega
  · intro u hu
    rw [List.append_nil] at hu
    obtain rfl | hu := Threads.mem_set hu
    · exact ⟨output, List.mem_append_right _ (List.mem_singleton_self _)⟩
    · exact (h.backed u hu).mono _
  · intro j o
    rw [List.mem_append, List.mem_singleton, h.outputs, hq.done, hq.output]
    by_cases hj : j = id
    · subst hj
      rw [hdone, if_pos rfl, decide_eq_true rfl]
      simp [eq_comm]
    · rw [if_neg hj, decide_eq_false hj, Bool.or_false]
      simp [hj]
  · exact h.lawful.snoc ⟨hbacked, hfresh⟩

/-- `onFinished` is called where all tasks are done. -/
theorem Inv.finishes {q : AsyncTaskSequence ν} {s : Execution ν} (h : Inv q s)
    (hmem : Thread.finishing ∈ s.threads) : Allowed q s.log .finished := by
  obtain ⟨hcount, hdue⟩ := h.count_eq_zero hmem (m := .finished) List.mem_cons_self
  have hrunning : s.sequence.running = false := by
    rw [due] at hdue
    split at hdue
    · omega
    · exact Bool.eq_false_iff.mpr ‹_›
  refine ⟨notMem_of_count (e := .finished) hcount, fun id hid => ?_⟩
  exact ⟨_, (h.outputs id _).mpr ⟨h.all_done hrunning hid, rfl⟩⟩

/-- **Every step keeps the invariant.** -/
theorem Inv.step {q : AsyncTaskSequence ν} (hgraph : q.Graph) {s s' : Execution ν} {l : Turn ν}
    (h : Inv q s) (hstep : Execution.Step s l s') : Inv q s' := by
  obtain ⟨t, m, ht, hm, rfl⟩ := Execution.step_cases hstep
  have hmem := List.mem_of_getElem? ht
  have hbacked := h.backed t hmem
  cases t with
  | starting => exact absurd hbacked id
  | scheduling ready caller =>
      cases ready with
      | nil =>
          cases caller with
          | start =>
              obtain rfl := Option.some.inj hm
              have hcount := (h.count_eq_zero hmem List.mem_cons_self).1
              exact h.write ht rfl ⟨rfl, fun b => notMem_of_count (e := .returned b) hcount⟩ trivial
                (by simp)
          | handler last =>
              obtain rfl := Option.some.inj hm
              refine h.silent ht (fun m => ?_) fun u hu => ?_
              · cases last <;> rfl
              · rw [List.mem_singleton.mp hu]
                cases last <;> trivial
      | cons id ready =>
          have howes : Mark.done id ∈ (Thread.scheduling (ν := ν) (id :: ready) caller).owes := by
            simp [Thread.owes, owed]
          obtain ⟨hprepare, hinput⟩ := h.prepare hmem howes
          rw [Thread.step, hprepare] at hm
          obtain rfl := Option.some.inj hm
          refine h.silent ht (fun m => ?_) fun u hu => ?_
          · rfl
          · rw [List.mem_singleton.mp hu]
            exact hinput
  | submitting id input ready caller =>
      obtain rfl := Option.some.inj hm
      refine h.silent ht (fun m => ?_) fun u hu => ?_
      · simp only [Thread.owes, List.count_append, List.flatMap_cons, List.flatMap_nil,
          List.count_nil]
        omega
      · obtain rfl | hu := List.mem_cons.mp hu
        · trivial
        · rw [List.mem_singleton.mp hu]
          exact hbacked
  | queued id input =>
      obtain rfl := Option.some.inj hm
      have hlt := (h.of_owes hmem (List.mem_cons_of_mem _ List.mem_cons_self)).1
      have hcount := (h.count_eq_zero hmem (m := .begun id) List.mem_cons_self).1
      refine h.write ht rfl ⟨hlt, fun i => notMem_of_count (e := .begun id i) hcount, hbacked⟩ ?_
        (by simp)
      exact List.mem_append_right _ (List.mem_singleton_self _)
  | executing id input =>
      obtain rfl := Option.some.inj hm
      refine h.silent ht (fun m => rfl) fun u hu => ?_
      rw [List.mem_singleton.mp hu]
      exact ⟨input, hbacked⟩
  | completing id output =>
      obtain ⟨q', ready, last, hcomplete, hq⟩ := h.completes hgraph hmem
      rw [Thread.step, hcomplete] at hm
      obtain rfl := Option.some.inj hm
      exact h.completed hgraph ht hq
  | emitting id ready last =>
      obtain rfl := Option.some.inj hm
      have hcount := (h.count_eq_zero hmem (m := .taskFinished id) List.mem_cons_self).1
      exact h.write ht rfl ⟨hbacked, notMem_of_count (e := .taskFinished id) hcount⟩ trivial
        (by simp)
  | notifying =>
      obtain rfl := Option.some.inj hm
      refine h.silent ht (fun m => rfl) fun u hu => ?_
      rw [List.mem_singleton.mp hu]
      trivial
  | finishing =>
      obtain rfl := Option.some.inj hm
      exact h.write ht rfl (h.finishes hmem) trivial (by simp)
  | ended => cases hm

/-! ### From the call of `start` to the end -/

/-- The execution behind the section of `start`. -/
def begun (q : AsyncTaskSequence ν) : Execution ν where
  sequence :=
    { tasks := q.tasks.map TaskNode.reset
      remainingTasks := q.tasks.length
      finishedTasks := 0
      running := true
      finished := false }
  threads := [.scheduling
    ((List.range q.tasks.length).filter fun id => (q.node id).dependencies.length = 0) .start]

/-- The tasks that `start` has made ready to run. -/
theorem node_begun (q : AsyncTaskSequence ν) (j : ℕ) :
    (begun q).sequence.node j = if j < q.tasks.length then (q.node j).reset else {} :=
  getD_reset q.tasks j

theorem done_begun (q : AsyncTaskSequence ν) (j : ℕ) :
    ((begun q).sequence.node j).done = false := by
  rw [node_begun]
  split <;> rfl

theorem pendingDependencies_begun (q : AsyncTaskSequence ν) (j : ℕ) :
    ((begun q).sequence.node j).pendingDependencies = (q.dependencies j).length := by
  rw [node_begun]
  split
  · rfl
  · rw [dependencies, node_of_le (by omega)]
    rfl

theorem scheduled_begun (q : AsyncTaskSequence ν) (j : ℕ) :
    ((begun q).sequence.node j).scheduled = true ↔
      j < q.tasks.length ∧ (q.dependencies j).length = 0 := by
  rw [node_begun]
  split
  · rename_i hj
    exact decide_eq_true_iff.trans (and_iff_right hj).symm
  · rename_i hj
    exact iff_of_false Bool.false_ne_true fun h => hj h.1

/-- `start` owes what is to come of the tasks without dependencies. -/
theorem owes_begun (q : AsyncTaskSequence ν) (m : Mark) :
    ((begun q).threads.flatMap Thread.owes).count m = due (begun q).sequence m := by
  have howes : ((begun q).threads.flatMap Thread.owes).count m =
      (((List.range q.tasks.length).filter
        fun id => (q.dependencies id).length = 0).flatMap owed).count m +
          [Mark.returned].count m := by
    rw [begun, List.flatMap_singleton, Thread.owes, List.count_append]
    rfl
  have hready : ∀ j, ((List.range q.tasks.length).filter
      fun id => (q.dependencies id).length = 0).count j =
        if ((begun q).sequence.node j).scheduled then 1 else 0 := by
    intro j
    have hmem : j ∈ (List.range q.tasks.length).filter
        (fun id => (q.dependencies id).length = 0) ↔
          ((begun q).sequence.node j).scheduled = true := by
      rw [scheduled_begun, List.mem_filter, List.mem_range, decide_eq_true_eq]
    by_cases hj : ((begun q).sequence.node j).scheduled = true
    · rw [if_pos hj]
      exact List.count_eq_one_of_mem (List.nodup_range.filter _) (hmem.mpr hj)
    · rw [if_neg hj]
      exact List.count_eq_zero.mpr (mt hmem.mp hj)
  rw [howes, count_owed]
  cases m with
  | returned => rfl
  | finished => rfl
  | begun j => exact hready j
  | done j => exact hready j
  | taskFinished j => exact hready j

/-- **The invariant** behind the section of `start`. -/
theorem inv_begun {q : AsyncTaskSequence ν} (hne : q.tasks ≠ []) : Inv q (begun q) := by
  have hlength : q.tasks.length ≠ 0 := mt List.length_eq_zero_iff.mp hne
  constructor
  · exact List.length_map _
  · intro j
    rw [node_begun]
    split
    · rfl
    · rw [node_of_le (by omega)]
  · intro j
    rw [dependencies, dependencies, node_begun]
    split
    · rfl
    · rw [node_of_le (by omega)]
  · intro j
    rw [pendingDependencies_begun, pending_of_none fun a _ => done_begun q a]
  · intro j
    rw [pendingDependencies_begun]
    exact scheduled_begun q j
  · intro j hj
    rw [done_begun] at hj
    cases hj
  · rw [pending_of_none fun a _ => done_begun q a, List.length_range]
    rfl
  · exact (decide_eq_true hlength).symm
  · exact fun m => (Nat.zero_add _).trans (owes_begun q m)
  · intro t ht
    obtain rfl := List.mem_singleton.mp ht
    trivial
  · intro j output
    rw [done_begun]
    exact iff_of_false List.not_mem_nil fun h => Bool.false_ne_true h.1
  · exact lawful_nil q

/-- **The section of `start`**, where the graph is valid, and nothing else can be the first step. -/
theorem step_start {q : AsyncTaskSequence ν} (hvalid : q.hasValidGraph = true)
    (hrunning : q.running = false) {l : Turn ν} {s : Execution ν}
    (h : Execution.Step (.start q) l s) : s = begun q := by
  obtain ⟨t, m, ht, hm, rfl⟩ := Execution.step_cases h
  cases hl : l.thread with
  | succ i =>
      rw [hl] at ht
      cases ht
  | zero =>
      rw [hl] at ht
      obtain rfl : Thread.starting = t := Option.some.inj ht
      rw [Thread.step] at hm
      change (match q.beginRun true with
        | none => some { sequence := q, thread := .ended, events := [.returned false] }
        | some (q', ready) => some { sequence := q', thread := .scheduling ready .start }) =
          some m at hm
      rw [beginRun_eq hvalid hrunning] at hm
      obtain rfl := Option.some.inj hm
      rfl

/-- What is left to do for a thread. -/
def Thread.rank : Thread ν → ℕ
  | .starting => 0
  | .scheduling ready _ => 3 + 9 * ready.length
  | .submitting _ _ ready _ => 11 + 9 * ready.length
  | .queued _ _ => 7
  | .executing _ _ => 6
  | .completing _ _ => 5
  | .emitting _ ready _ => 4 + 9 * ready.length
  | .notifying => 2
  | .finishing => 1
  | .ended => 0

/-- What is left to do: for the threads, and for the tasks that have not been scheduled. -/
def Execution.weight (s : Execution ν) : ℕ :=
  (s.threads.map Thread.rank).sum +
    9 * Countdown.pending (fun a => (s.sequence.node a).scheduled)
      (List.range s.sequence.tasks.length)

/-- What is left to do after a step of a thread. -/
theorem sum_rank_set {threads spawned : List (Thread ν)} {i : ℕ} {t t' : Thread ν}
    (h : threads[i]? = some t) :
    ((threads.set i t' ++ spawned).map Thread.rank).sum + t.rank =
      (threads.map Thread.rank).sum + (t'.rank + (spawned.map Thread.rank).sum) := by
  have hset := Threads.sum_map_set_add (f := Thread.rank) (b := t') h
  rw [List.map_append, List.sum_append]
  omega

/-- A step that leaves the sequence alone. -/
theorem Execution.weight_move {s : Execution ν} {i : ℕ} {t t' : Thread ν}
    {spawned : List (Thread ν)} (ht : s.threads[i]? = some t)
    (hrank : t'.rank + (spawned.map Thread.rank).sum < t.rank) (log : List (Event ν)) :
    Execution.weight { sequence := s.sequence
                       threads := s.threads.set i t' ++ spawned
                       log := log } < s.weight := by
  have hset := @sum_rank_set _ _ spawned _ _ t' ht
  rw [weight, weight]
  dsimp only
  omega

/-- A task that has finished leaves less to do, whatever becomes ready. -/
theorem Inv.weight_completed {q : AsyncTaskSequence ν} (hgraph : q.Graph) {s : Execution ν}
    (h : Inv q s) {i id : ℕ} {output : AsyncTaskContext ν}
    (ht : s.threads[i]? = some (.completing id output)) (hdone : (s.sequence.node id).done = false)
    {q' : AsyncTaskSequence ν} {ready : List ℕ} {last : Bool}
    (hq : Completed s.sequence id output q' ready last) (log : List (Event ν)) :
    Execution.weight { sequence := q', threads := s.threads.set i (.emitting id ready last) ++ [],
                       log } < s.weight := by
  -- the tasks that become ready have not been scheduled before
  have hnodup := hq.nodup_ready (h.graph hgraph)
  have hready := fun j => (h.scheduled_completed hgraph hdone hq j).2.1
  have hfinish := pending_finish_all (List.nodup_range (n := s.sequence.tasks.length)) hnodup
    (fun j hj => ?_) (fun j hj => ((hready j).mp hj).1) hq.scheduled
  · have hset := @sum_rank_set _ _ [] _ _ (.emitting id ready last) ht
    rw [Execution.weight, Execution.weight]
    simp only [Thread.rank, List.map_nil, List.sum_nil] at hset
    dsimp only
    rw [hq.length]
    omega
  · rw [List.mem_range, h.length]
    exact ((h.scheduled_completed hgraph hdone hq j).2.2.mp ((hready j).mp hj).2).1

/-- **Every step leaves less to do.** -/
theorem Inv.weight_lt {q : AsyncTaskSequence ν} (hgraph : q.Graph) {s s' : Execution ν}
    {l : Turn ν} (h : Inv q s) (hstep : Execution.Step s l s') : s'.weight < s.weight := by
  obtain ⟨t, m, ht, hm, rfl⟩ := Execution.step_cases hstep
  have hmem := List.mem_of_getElem? ht
  cases t with
  | starting => exact absurd (h.backed _ hmem) id
  | scheduling ready caller =>
      cases ready with
      | nil =>
          cases caller with
          | start =>
              obtain rfl := Option.some.inj hm
              exact Execution.weight_move ht (by simp [Thread.rank]) _
          | handler last =>
              obtain rfl := Option.some.inj hm
              refine Execution.weight_move ht ?_ _
              cases last <;> simp [Thread.rank]
      | cons id ready =>
          rw [Thread.step] at hm
          cases hprepare : s.sequence.prepare id with
          | none =>
              rw [hprepare] at hm
              obtain rfl := Option.some.inj hm
              refine Execution.weight_move ht ?_ _
              simp only [Thread.rank, List.length_cons, List.map_nil, List.sum_nil]
              omega
          | some input =>
              rw [hprepare] at hm
              obtain rfl := Option.some.inj hm
              refine Execution.weight_move ht ?_ _
              simp only [Thread.rank, List.length_cons, List.map_nil, List.sum_nil]
              omega
  | submitting id input ready caller =>
      obtain rfl := Option.some.inj hm
      refine Execution.weight_move ht ?_ _
      simp only [Thread.rank, List.map_cons, List.map_nil, List.sum_cons, List.sum_nil]
      omega
  | queued id input =>
      obtain rfl := Option.some.inj hm
      exact Execution.weight_move ht (by simp [Thread.rank]) _
  | executing id input =>
      obtain rfl := Option.some.inj hm
      exact Execution.weight_move ht (by simp [Thread.rank]) _
  | completing id output =>
      obtain ⟨-, -, hdone, -⟩ := h.of_owes hmem List.mem_cons_self
      obtain ⟨q', ready, last, hcomplete, hq⟩ := h.completes hgraph hmem
      rw [Thread.step, hcomplete] at hm
      obtain rfl := Option.some.inj hm
      exact h.weight_completed hgraph ht hdone hq _
  | emitting id ready last =>
      obtain rfl := Option.some.inj hm
      refine Execution.weight_move ht ?_ _
      simp only [Thread.rank, List.map_nil, List.sum_nil]
      omega
  | notifying =>
      obtain rfl := Option.some.inj hm
      exact Execution.weight_move ht (by simp [Thread.rank]) _
  | finishing =>
      obtain rfl := Option.some.inj hm
      exact Execution.weight_move ht (by simp [Thread.rank]) _
  | ended => cases hm

/-- A thread that cannot take a step is at its end. -/
theorem Thread.eq_ended {q : AsyncTaskSequence ν} {result : AsyncTaskContext ν} {t : Thread ν}
    (h : t.step q result = none) : t = .ended := by
  cases t with
  | ended => rfl
  | starting =>
      rw [step] at h
      cases hbegin : q.beginRun true with
      | none =>
          rw [hbegin] at h
          cases h
      | some found =>
          rw [hbegin] at h
          cases h
  | scheduling ready caller =>
      cases ready with
      | nil => cases caller <;> cases h
      | cons id ready =>
          rw [step] at h
          cases hprepare : q.prepare id with
          | none =>
              rw [hprepare] at h
              cases h
          | some input =>
              rw [hprepare] at h
              cases h
  | completing id output =>
      rw [step] at h
      cases hcomplete : q.complete id output with
      | none =>
          rw [hcomplete] at h
          cases h
      | some found =>
          rw [hcomplete] at h
          cases h
  | submitting id input ready caller => cases h
  | queued id input => cases h
  | executing id input => cases h
  | emitting id ready last => cases h
  | notifying => cases h
  | finishing => cases h

/-- Where no thread can take a step, nothing is to come. -/
theorem owes_of_stuck {s : Execution ν} (h : ∀ l, s.step l = none) (m : Mark) :
    (s.threads.flatMap Thread.owes).count m = 0 := by
  rw [List.count_eq_zero, List.mem_flatMap]
  rintro ⟨t, ht, hm⟩
  obtain ⟨i, hi⟩ := List.mem_iff_getElem?.mp ht
  have hstep := h ⟨i, .empty⟩
  rw [Execution.step] at hstep
  dsimp only at hstep
  rw [hi] at hstep
  rw [Thread.eq_ended (Option.map_eq_none_iff.mp hstep)] at hm
  exact absurd hm List.not_mem_nil

/-- **The end of a run**: all tasks are done, and everything that was to come has come. -/
theorem Inv.stuck {q : AsyncTaskSequence ν} (hgraph : q.Graph) (hacyclic : Acyclic q.dependencies)
    {s : Execution ν} (h : Inv q s) (hstuck : ∀ l, s.step l = none) :
    s.sequence.running = false ∧ ∀ id < q.tasks.length, (s.sequence.node id).scheduled = true := by
  have hledger : ∀ m, (s.log.map Event.mark).count m = due s.sequence m := by
    intro m
    rw [← h.ledger, owes_of_stuck hstuck, Nat.add_zero]
  have hdone : ∀ id < q.tasks.length, (s.sequence.node id).done = true := by
    by_contra hnot
    simp only [not_forall] at hnot
    obtain ⟨b, hb, hnot⟩ := hnot
    -- a task that waits for nothing has been scheduled, so it has been done
    obtain ⟨c, hc, hcdone, hpending⟩ :=
      @exists_ready ℕ _ hacyclic (fun a => (s.sequence.node a).done) _
        (fun b _ a ha => List.mem_range.mpr (hgraph.valid a b ha)) b (List.mem_range.mpr hb)
        (Bool.eq_false_iff.mpr hnot)
    rw [← h.pending] at hpending
    have hscheduled := (h.scheduled c).mpr ⟨List.mem_range.mp hc, hpending⟩
    have hcount := hledger (.done c)
    rw [due, if_pos hscheduled] at hcount
    obtain ⟨output, houtput⟩ := exists_of_count hcount
    rw [((h.outputs c output).mp houtput).1] at hcdone
    cases hcdone
  refine ⟨?_, fun id hid => h.done id (hdone id hid)⟩
  rw [h.running, h.remaining, pending_eq_zero.mpr fun a ha => hdone a (List.mem_range.mp ha)]
  rfl

/-- **A graph is run** that has been built, is not empty and has no cycle: in every order in which
the threads may go on, every task begins once, behind all that it depends on and with the merge of
their outputs, and `finished` is emitted once, behind all of them. -/
theorem runs_graph (q : AsyncTaskSequence ν) (h : Built q) (hne : q.tasks ≠ [])
    (hacyclic : Acyclic q.dependencies) : Runs q := by
  obtain ⟨hgraph, hrunning⟩ := h.graph
  have hvalid := (hasValidGraph_iff hgraph).mpr ⟨hne, hacyclic⟩
  -- a run is at its beginning, or behind the section of `start`
  have hcases : ∀ ls s, Reaches Execution.Step (.start q) ls s →
      (ls = [] ∧ s = .start q) ∨
        ∃ l ls', ls = l :: ls' ∧ Reaches Execution.Step (begun q) ls' s := by
    intro ls s hrun
    cases hrun with
    | nil => exact Or.inl ⟨rfl, rfl⟩
    | @cons _ u _ l ls' hok hstep hrest =>
        obtain rfl := step_start hvalid hrunning hstep
        exact Or.inr ⟨l, ls', rfl, hrest⟩
  have hinv : ∀ ls s, Reaches Execution.Step (begun q) ls s → Inv q s := fun ls s hrun =>
    hrun.invariant (fun s l s' hs _ hstep => hs.step hgraph hstep) (inv_begun hne)
  constructor
  · intro ls s hrun
    obtain ⟨-, rfl⟩ | ⟨l, ls', -, hrest⟩ := hcases ls s hrun
    · exact lawful_nil q
    · exact (hinv ls' s hrest).lawful
  · intro ls s hrun
    obtain ⟨rfl, -⟩ | ⟨l, ls', rfl, hrest⟩ := hcases ls s hrun
    · exact Nat.zero_le _
    · have hle := @Run.length_add_le _ _ _ _ _ Execution.weight
        (fun s l s' hs _ hstep => ⟨hs.step hgraph hstep, hs.weight_lt hgraph hstep⟩)
        _ _ _ hrest (inv_begun hne)
      have hstart : (begun q).weight ≤ 3 + 18 * q.tasks.length := by
        have hready := List.length_filter_le (fun id => (q.node id).dependencies.length = 0)
          (List.range q.tasks.length)
        have hwaiting := pending_le (fun a => ((begun q).sequence.node a).scheduled)
          (List.range q.tasks.length)
        rw [List.length_range] at hready hwaiting
        rw [Execution.weight, (inv_begun hne).length]
        simp only [begun, List.map_cons, List.map_nil, List.sum_cons, List.sum_nil, Thread.rank]
          at hwaiting ⊢
        omega
      rw [List.length_cons]
      omega
  · intro ls s hrun hstuck
    obtain ⟨-, rfl⟩ | ⟨l, ls', -, hrest⟩ := hcases ls s hrun
    · have hstep := hstuck ⟨0, .empty⟩
      rw [Execution.step] at hstep
      cases Thread.eq_ended (Option.map_eq_none_iff.mp hstep)
    · have hs := hinv ls' s hrest
      obtain ⟨hstopped, hall⟩ := hs.stuck hgraph hacyclic hstuck
      have hledger : ∀ m, due s.sequence m = 1 → (s.log.map Event.mark).count m = 1 := by
        intro m hm
        have := hs.ledger m
        rw [owes_of_stuck hstuck] at this
        omega
      refine ⟨?_, ?_, fun id hid => ?_⟩
      · obtain ⟨b, hb⟩ := exists_of_count (hledger .returned rfl)
        obtain ⟨xs, rfl, -⟩ := hs.lawful.of_mem hb
        exact hb
      · exact exists_of_count (hledger .finished (by rw [due, hstopped]; rfl))
      · exact exists_of_count (hledger (.begun id) (if_pos (hall id hid)))

/-- Two tasks, the second behind the first. -/
def chain : AsyncTaskSequence Unit :=
  ((((({} : AsyncTaskSequence Unit).addTask false).2.addTask false).2).addDependency 0 1).2

theorem built_chain : Built chain := .addDependency 0 1 (.addTask false (.addTask false .empty))

theorem chain_runs : Runs chain :=
  runs_graph chain built_chain (by decide +kernel)
    ((hasValidGraph_iff built_chain.graph.1).mp (by decide +kernel)).2

/-- What is left of an execution without tasks. -/
def refused : Execution Unit where
  sequence := {}
  threads := [.ended]
  log := [.returned false]

/-- Without tasks `start` returns false, and `finished` is not emitted. -/
theorem empty_graph_refused :
    Built ({} : AsyncTaskSequence Unit) ∧ Acyclic (dependencies ({} : AsyncTaskSequence Unit)) ∧
      ¬Runs ({} : AsyncTaskSequence Unit) := by
  refine ⟨.empty, fun a => ?_, fun h => ?_⟩
  · refine free_of_dependencies fun b hb => ?_
    exact absurd (lt_of_mem_dependencies hb) (Nat.not_lt_zero a)
  · have hrun : Reaches Execution.Step (.start ({} : AsyncTaskSequence Unit)) [⟨0, .empty⟩]
        refused := .single trivial rfl
    have hstuck : ∀ l, refused.step l = none := by
      intro l
      rw [Execution.step]
      cases l.thread with
      | zero => rfl
      | succ i => rfl
    exact absurd (h.complete _ _ hrun hstuck).2.1 (by simp [refused])

end AsyncTaskSequence

end SimplyNode
