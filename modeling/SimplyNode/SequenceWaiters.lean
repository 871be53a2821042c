import SimplyNode.SequenceRun

/-!
# Waiting for a Task Graph

`AsyncTaskSequence::wait` and the destructor return when they find that the sequence is not running,
at once or when they have been woken. The section of `onTaskFinished` for the last task stops the
sequence; the signals and the notification come behind it, when the sequence may be gone already.

## Main results

* `exists_stopping`: every graph that is run comes to the section that stops it.
* `untouchedAfterWait_iff`: **on every graph that is run**, `wait` may return when the handler of
  the last task is still going to touch the sequence.
-/

namespace SimplyNode

open Countdown Transition

namespace AsyncTaskSequence

variable {ν : Type}

/-- The thread is going to read or write the sequence, or to emit one of its signals. -/
def Thread.touches : Thread ν → Bool
  | .scheduling [] .start => false
  | .scheduling [] (.handler last) => last
  | .ended => false
  | _ => true

/-- An execution, and a thread that calls `wait` or the destructor: whether it has returned. -/
structure Waited (ν : Type) where
  execution : Execution ν
  returned : Bool := false

namespace Waited

/-- What happens: a turn of another thread, or the predicate of `wait` is evaluated. -/
inductive Label (ν : Type)
  | turn (l : Turn ν)
  | await

/-- A step. A thread that waits may wake up at any time. -/
def step (s : Waited ν) : Label ν → Option (Waited ν)
  | .turn l => (s.execution.step l).map fun execution => { s with execution := execution }
  | .await =>
      if s.returned then none
      else if s.execution.sequence.running then some s
      else some { s with returned := true }

/-- The steps. -/
def Step (s : Waited ν) (l : Label ν) (s' : Waited ν) : Prop := s.step l = some s'

/-- `start` has been called, and its section is over. -/
def started (q : AsyncTaskSequence ν) : Waited ν where
  execution :=
    match q.beginRun true with
    | none => { sequence := q, threads := [.ended], log := [.returned false] }
    | some (q', ready) => { sequence := q', threads := [.scheduling ready .start] }

/-- No thread touches the sequence again. -/
def Untouched (s : Waited ν) : Prop := ∀ t ∈ s.execution.threads, t.touches = false

end Waited

/-- **The sequence is not touched after `wait`**, whatever the order of the steps. -/
def UntouchedAfterWait (q : AsyncTaskSequence ν) : Prop :=
  ∀ ls s, Reaches Waited.Step (.started q) ls s → s.returned = true → s.Untouched

/-! ### Graphs that are run -/

/-- **The section that stops the sequence** is that of `onTaskFinished` for the last task, and its
thread has the signals and the notification before it. -/
theorem Inv.emits_of_stops {q : AsyncTaskSequence ν} (hgraph : q.Graph) {s s' : Execution ν}
    {l : Turn ν} (h : Inv q s) (hstep : Execution.Step s l s')
    (hrunning : s.sequence.running = true) (hstopped : ¬s'.sequence.running = true) :
    ∃ id ready, .emitting id ready true ∈ s'.threads := by
  obtain ⟨t, m, ht, hm, rfl⟩ := Execution.step_cases hstep
  have hmem := List.mem_of_getElem? ht
  have hlt : l.thread < s.threads.length := (List.getElem?_eq_some_iff.mp ht).1
  cases t with
  | completing id output =>
      obtain ⟨q', ready, last, hcomplete, hq⟩ := h.completes hgraph hmem
      rw [Thread.step, hcomplete] at hm
      obtain rfl := Option.some.inj hm
      have hzero : q'.remainingTasks = 0 := by
        by_contra hne
        exact hstopped (hq.running.trans (decide_eq_true hne))
      obtain rfl : last = true := hq.last.trans (decide_eq_true hzero)
      exact ⟨id, ready, List.mem_append_left _ (List.mem_set hlt _)⟩
  | starting => exact absurd (h.backed _ hmem) id
  | scheduling ready caller =>
      refine absurd ?_ hstopped
      cases ready with
      | nil => cases caller <;> obtain rfl := Option.some.inj hm <;> exact hrunning
      | cons id ready =>
          rw [Thread.step] at hm
          split at hm <;> obtain rfl := Option.some.inj hm <;> exact hrunning
  | submitting id input ready caller =>
      obtain rfl := Option.some.inj hm
      exact absurd hrunning hstopped
  | queued id input =>
      obtain rfl := Option.some.inj hm
      exact absurd hrunning hstopped
  | executing id input =>
      obtain rfl := Option.some.inj hm
      exact absurd hrunning hstopped
  | emitting id ready last =>
      obtain rfl := Option.some.inj hm
      exact absurd hrunning hstopped
  | notifying =>
      obtain rfl := Option.some.inj hm
      exact absurd hrunning hstopped
  | finishing =>
      obtain rfl := Option.some.inj hm
      exact absurd hrunning hstopped
  | ended => cases hm

/-- A sequence that is running goes on. -/
theorem Inv.exists_step {q : AsyncTaskSequence ν} (hgraph : q.Graph)
    (hacyclic : Acyclic q.dependencies) {s : Execution ν} (h : Inv q s)
    (hrunning : s.sequence.running = true) : ∃ l s', Execution.Step s l s' := by
  by_contra hstuck
  simp only [not_exists] at hstuck
  have hnone : ∀ l, s.step l = none := fun l =>
    Option.eq_none_iff_forall_not_mem.mpr fun s' hs' => hstuck l s' hs'
  rw [(h.stuck hgraph hacyclic hnone).1] at hrunning
  cases hrunning

/-- **Every graph that is run comes to the section that stops it**, whatever its tasks are. -/
theorem exists_stopping {q : AsyncTaskSequence ν} (hgraph : q.Graph)
    (hvalid : q.hasValidGraph = true) :
    ∃ ls s, Reaches Execution.Step (begun q) ls s ∧ s.sequence.running = false ∧
      ∃ id ready, .emitting id ready true ∈ s.threads := by
  obtain ⟨hne, hacyclic⟩ := (hasValidGraph_iff hgraph).mp hvalid
  obtain ⟨ls, u, l, v, hrun, hu, hrunning, hlast, hstopped⟩ :=
    @exists_leave _ _ Execution.Step (Inv q) (fun s => s.sequence.running = true) Execution.weight
      (fun _ _ _ hs hstep => ⟨hs.step hgraph hstep, hs.weight_lt hgraph hstep⟩)
      (fun _ hs hrunning => hs.exists_step hgraph hacyclic hrunning) (begun q) (inv_begun hne) rfl
  exact ⟨ls ++ [l], v, hrun.snoc trivial hlast, Bool.eq_false_iff.mpr hstopped,
    hu.emits_of_stops hgraph hlast hrunning hstopped⟩

/-! ### The thread that waits -/

/-- The other threads go on while the waiting one does nothing. -/
theorem Waited.reaches_of_execution {e e' : Execution ν} {ls : List (Turn ν)}
    (h : Reaches Execution.Step e ls e') :
    Reaches Waited.Step { execution := e } (ls.map .turn) { execution := e' } := by
  induction h with
  | nil e => exact .nil _
  | @cons e e₁ e' l ls _ hstep _ ih =>
      refine .cons trivial ?_ ih
      rw [Waited.Step, Waited.step, show e.step l = some e₁ from hstep]
      rfl

theorem Waited.started_of_valid {q : AsyncTaskSequence ν} (hvalid : q.hasValidGraph = true)
    (hrunning : q.running = false) : started q = { execution := begun q } := by
  rw [started, beginRun_eq hvalid hrunning]
  rfl

theorem Waited.started_of_invalid {q : AsyncTaskSequence ν} (hinvalid : q.hasValidGraph = false) :
    (started q).execution.threads = [.ended] := by
  have hrefused : q.beginRun true = none := by
    rw [beginRun, hinvalid, Bool.not_false, Bool.or_true, if_pos rfl]
  rw [started, hrefused]

/-- No thread begins where all are at their end. -/
theorem Waited.ended_step {s s' : Waited ν} {l : Label ν} (h : s.execution.threads = [.ended])
    (hstep : Step s l s') : s'.execution.threads = [.ended] := by
  cases l with
  | turn l =>
      obtain ⟨e, he, rfl⟩ := Option.map_eq_some_iff.mp hstep
      obtain ⟨t, m, ht, hm, rfl⟩ := Execution.step_cases he
      rw [h] at ht
      obtain rfl := List.mem_singleton.mp (List.mem_of_getElem? ht)
      cases hm
  | await =>
      rw [Step, step] at hstep
      split_ifs at hstep <;> obtain rfl := Option.some.inj hstep <;> exact h

/-- **`wait` may return too early on every graph that is run.** Where `start` refuses the graph,
there is nobody to touch the sequence. -/
theorem untouchedAfterWait_iff (q : AsyncTaskSequence ν) (h : Built q) :
    UntouchedAfterWait q ↔ q.hasValidGraph = false := by
  obtain ⟨hgraph, hrunning⟩ := h.graph
  constructor
  · refine fun huntouched => Bool.eq_false_iff.mpr fun hvalid => ?_
    obtain ⟨ls, e, hrun, hstopped, id, ready, hmem⟩ := exists_stopping hgraph hvalid
    -- the destructor comes right behind the section that stops the sequence
    have hawait : Waited.Step { execution := e } .await { execution := e, returned := true } := by
      rw [Waited.Step, Waited.step, hstopped]
      rfl
    have hwaited := (Waited.reaches_of_execution hrun).snoc trivial hawait
    rw [← Waited.started_of_valid hvalid hrunning] at hwaited
    exact Bool.noConfusion (huntouched _ _ hwaited rfl _ hmem)
  · intro hinvalid ls s hrun _ t ht
    have hended : s.execution.threads = [.ended] := by
      refine hrun.invariant (I := fun s : Waited ν => s.execution.threads = [.ended]) ?_
        (Waited.started_of_invalid hinvalid)
      exact fun _ _ _ hs _ hstep => Waited.ended_step hs hstep
    rw [hended] at ht
    obtain rfl := List.mem_singleton.mp ht
    rfl

/-- Two tasks, the second of which is to come behind the first. -/
theorem chain_touched :
    (UntouchedAfterWait chain ↔ chain.hasValidGraph = false) ∧ ¬UntouchedAfterWait chain := by
  have hiff := untouchedAfterWait_iff chain built_chain
  refine ⟨hiff, fun huntouched => ?_⟩
  have hvalid : chain.hasValidGraph = true := by decide +kernel
  rw [hiff.mp huntouched] at hvalid
  cases hvalid

/-- One task. -/
def single : AsyncTaskSequence Unit := (({} : AsyncTaskSequence Unit).addTask false).2

/-- The task is done, the destructor returns, and its signal is emitted then. -/
theorem signal_behind_destructor :
    ¬UntouchedAfterWait single ∧
      ∃ ls s, Reaches Waited.Step (.started single) ls s ∧ s.returned = true ∧
        .emitting 0 [] true ∈ s.execution.threads := by
  have hrun : ∃ s, Reaches Waited.Step (.started single)
      [.turn ⟨0, .empty⟩, .turn ⟨0, .empty⟩, .turn ⟨1, .empty⟩, .turn ⟨1, .empty⟩,
        .turn ⟨1, .empty⟩, .await] s ∧ s.returned = true ∧
      .emitting 0 [] true ∈ s.execution.threads :=
    ⟨_, .cons trivial rfl (.cons trivial rfl (.cons trivial rfl (.cons trivial rfl
      (.cons trivial rfl (.cons trivial rfl (.nil _)))))), rfl, .tail _ (.head _)⟩
  obtain ⟨s, hreaches, hreturned, hmem⟩ := hrun
  exact ⟨fun huntouched => Bool.noConfusion (huntouched _ s hreaches hreturned _ hmem),
    _, s, hreaches, hreturned, hmem⟩

end AsyncTaskSequence

end SimplyNode
