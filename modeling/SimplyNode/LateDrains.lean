import SimplyNode.PoolLoop

/-!
# A Pool after its Shutdown

`start` refuses a task once `m_stopping` is set, but `enqueueStrandDrain` goes on accepting
drains until `m_joined` is set, since strands may post while the workers run the queue down.
Between the moment the last worker leaves its loop and the moment `m_joined` is set nobody is
there to run what it accepts.

## Main results

* `quiescent_iff_onTime`: a pool whose `shutdown` has returned is quiescent iff no drain was
  offered in between.
* `late_drain_never_runs`: such a drain stays in the queue.
-/

open Threads Transition

namespace SimplyNode

namespace PoolRun

/-- Nothing is left to do, and every drain that was accepted has run. -/
def Quiescent (s : PoolRun) : Prop :=
  s.IsDone ∧ ∀ k, s.accepted.count (.drain k) = s.ended.count (.drain k)

/-- No drain is offered to the pool after the last worker has left its loop and before
`m_joined` is set. -/
def OnTime (s : PoolRun) : PoolStep → Prop
  | .enqueueStrandDrain _ =>
      ¬ (s.AllLeft ∧ s.pool.stopping = true ∧ s.pool.joined = false)
  | _ => True

variable {s s' : PoolRun} {n : ℕ} {l : PoolStep}

/-- The last worker leaves an empty queue. -/
def RunDown (s : PoolRun) : Prop := s.AllLeft → s.pool.queue = []

/-- Nobody is left to run what is in the queue. -/
def Stuck (s : PoolRun) : Prop := s.AllLeft ∧ s.pool.queue ≠ []

/-- Without workers the pool is stopping, or it has never had any. -/
theorem Staffed.workers_of_allLeft (hi : Staffed n s) (hall : s.AllLeft) :
    s.pool.workers = 0 := by
  by_contra hw
  cases hstop : s.pool.stopping with
  | false => exact hi.not_allLeft hstop hw hall
  | true => exact hw (hi.taken hstop)

/-- **The step lemma**: on time, the workers leave an empty queue behind. -/
theorem RunDown.step (hd : RunDown s) (hi : Staffed n s) (hok : s.OnTime l)
    (hst : Step s l s') : RunDown s' := by
  cases hst with
  | @start callable =>
      rw [PoolRun.start]
      split
      · exact hd
      · rename_i hacc
        simp only [Bool.or_eq_true, not_or, beq_iff_eq, Bool.not_eq_true] at hacc
        exact fun hall => absurd hall (hi.not_allLeft hacc.1.2 hacc.2)
  | @enqueueStrandDrain k =>
      rcases s.enqueueStrandDrain_cases k with heq | ⟨⟨hjoin, hstop⟩, heq⟩
      · rw [heq]
        exact hd
      · rw [heq]
        intro hall
        exact absurd ⟨hall, hstop (hi.workers_of_allLeft hall), hjoin⟩ hok
  | take hx hq => exact fun hall => absurd (hall _ (mem_set_self hx)) (by simp)
  | finish hx => exact fun hall => absurd (hall _ (mem_set_self hx)) (by simp)
  | leave hx hstop hq => exact fun _ => hq
  | waitForDone => exact hd
  | waitReturns hw hdone => exact hd
  | shutdown hnone => exact hd
  | stopAccepting he => exact hd
  | join hj hx => exact hd
  | setJoined hj => exact hd
  | shutdownReturns hj => exact hd

/-- What is stuck stays stuck. -/
theorem Stuck.step (hstuck : Stuck s) (hst : Step s l s') : Stuck s' := by
  obtain ⟨hall, hq⟩ := hstuck
  have hnot : ∀ {i : ℕ} {x : WorkerPhase}, s.threads[i]? = some x → x = .left :=
    fun hx => hall _ (List.mem_of_getElem? hx)
  cases hst with
  | @start callable =>
      rw [PoolRun.start]
      split
      · exact ⟨hall, hq⟩
      · exact ⟨hall, by simp⟩
  | @enqueueStrandDrain k =>
      rcases s.enqueueStrandDrain_cases k with heq | ⟨-, heq⟩
      · rw [heq]
        exact ⟨hall, hq⟩
      · rw [heq]
        exact ⟨hall, by simp⟩
  | take hx hcons => exact absurd (hnot hx) (by simp)
  | finish hx => exact absurd (hnot hx) (by simp)
  | leave hx hstop hnil => exact absurd hnil hq
  | waitForDone => exact ⟨hall, hq⟩
  | waitReturns hw hdone => exact ⟨hall, hq⟩
  | shutdown hnone => exact ⟨hall, hq⟩
  | stopAccepting he => exact ⟨hall, hq⟩
  | join hj hx => exact ⟨hall, hq⟩
  | setJoined hj => exact ⟨hall, hq⟩
  | shutdownReturns hj => exact ⟨hall, hq⟩

/-- A drain that comes late is accepted, and then stuck. -/
theorem stuck_of_late (hlate : ¬ s.OnTime l) (hst : Step s l s') : Stuck s' := by
  cases hst with
  | @enqueueStrandDrain k =>
      obtain ⟨hall, hstop, hjoin⟩ := not_not.mp hlate
      have hacc : s.pool.enqueueStrandDrain k =
          some { s.pool with queue := s.pool.queue ++ [.drain k] } := by
        simp [TaskPool.enqueueStrandDrain, hstop, hjoin]
      rw [PoolRun.enqueueStrandDrain, hacc]
      exact ⟨hall, by simp⟩
  | _ => exact absurd trivial hlate

/-- With an empty queue and nobody in a task, everything that was accepted has run. -/
theorem Ledger.quiescent (hi : Ledger s) (hall : s.AllLeft) (hq : s.pool.queue = []) :
    s.Quiescent := by
  have hdone : s.IsDone := by
    refine ⟨hq, ?_⟩
    rw [hi.active, List.countP_eq_zero]
    intro x hx
    rw [hall x hx]
    simp [WorkerPhase.isRunning]
  exact ⟨hdone, fun k => hi.ended_of_isDone hdone (.drain k)⟩

end PoolRun

/-- **A shut-down pool is quiescent iff no drain came late.** In a run in which a call of
`shutdown` has returned, the queue is empty, no task is active and every accepted drain has
run, iff no drain was offered after the last worker had left its loop and before `m_joined` was
set. -/
theorem quiescent_iff_onTime {n : ℕ} {s : PoolRun} {ls : List PoolStep}
    (hrun : Reaches PoolRun.Step (PoolRun.initial n) ls s) (hdown : 0 < s.shutdowns) :
    s.Quiescent ↔ Run PoolRun.Step PoolRun.OnTime (PoolRun.initial n) ls s := by
  have hi := PoolRun.inv_of_run hrun
  obtain ⟨hall, -⟩ := hi.staffed.joined (hi.staffed.returned hdown)
  constructor
  · intro hquiet
    rcases hrun.guarded_or_breaks with hok | ⟨u, l, u', ls₁, ls₂, -, hlate, hst, hrest⟩
    · exact hok
    · have hstuck : s.Stuck := hrest.invariant (fun _ _ _ hu _ h => PoolRun.Stuck.step hu h)
        (PoolRun.stuck_of_late hlate hst)
      exact absurd hquiet.1.1 hstuck.2
  · intro hok
    have hempty : PoolRun.Inv n s ∧ s.RunDown := by
      refine hok.invariant (I := fun u => PoolRun.Inv n u ∧ u.RunDown) ?_
        ⟨PoolRun.inv_initial n, fun _ => rfl⟩
      intro u l u' hu hl h
      exact ⟨hu.1.step h, hu.2.step hu.1.staffed hl h⟩
    exact hi.ledger.quiescent hall (hempty.2 hall)

/-- A drain that is offered while a worker is left is run before `shutdown` returns. -/
theorem drain_on_time_runs : ∃ s : PoolRun, s.shutdowns = 1 ∧ s.accepted = [.drain 0] ∧
    s.Quiescent := by
  have hrun : ∃ s : PoolRun, s.shutdowns = 1 ∧ s.accepted = [.drain 0] ∧
      Run PoolRun.Step PoolRun.OnTime (PoolRun.initial 1) [.shutdown, .stopAccepting,
        .enqueueStrandDrain 0, .take 0, .finish 0 false, .leave 0, .join, .setJoined,
        .shutdownReturns] s := by
    refine ⟨_, rfl, rfl, .cons trivial (.shutdown rfl) (.cons trivial (.stopAccepting rfl)
      (.cons ?_ .enqueueStrandDrain (.cons trivial (.take rfl rfl) (.cons trivial (.finish rfl)
      (.cons trivial (.leave rfl rfl rfl) (.cons trivial (.join rfl rfl) (.cons trivial
      (.setJoined rfl) (.cons trivial (.shutdownReturns rfl) (.nil _)))))))))⟩
    rintro ⟨hall, -⟩
    exact absurd (hall .waiting (List.mem_singleton_self _)) (by simp)
  obtain ⟨s, hdown, hacc, hrun⟩ := hrun
  exact ⟨s, hdown, hacc, (quiescent_iff_onTime hrun.forget (by omega)).mpr hrun⟩

/-- **A drain that comes late never runs**: it is offered between the last worker's test and
`m_joined`, is accepted, and stays in the queue, so that `waitForDone` blocks for ever. -/
theorem late_drain_never_runs : ∃ s, Reaches PoolRun.Step (PoolRun.initial 1) [.shutdown,
      .stopAccepting, .leave 0, .enqueueStrandDrain 0, .join, .setJoined, .shutdownReturns] s ∧
    s.shutdowns = 1 ∧ s.accepted = [.drain 0] ∧ s.begun = [] ∧ ¬ s.Quiescent ∧
    ∀ ls s', Reaches PoolRun.Step s ls s' → ¬ s'.IsDone := by
  have hrun : ∃ s, Reaches PoolRun.Step (PoolRun.initial 1) [.shutdown, .stopAccepting,
        .leave 0, .enqueueStrandDrain 0, .join, .setJoined, .shutdownReturns] s ∧
      s.shutdowns = 1 ∧ s.accepted = [.drain 0] ∧ s.begun = [] ∧
      s.pool.queue = [.drain 0] ∧ s.threads = [.left] :=
    ⟨_, .cons trivial (.shutdown rfl) (.cons trivial (.stopAccepting rfl) (.cons trivial
      (.leave rfl rfl rfl) (.cons trivial .enqueueStrandDrain (.cons trivial (.join rfl rfl)
      (.cons trivial (.setJoined rfl) (.cons trivial (.shutdownReturns rfl) (.nil _))))))),
      rfl, rfl, rfl, rfl, rfl⟩
  obtain ⟨s, hrun, hdown, hacc, hbegun, hq, hth⟩ := hrun
  have hstuck : s.Stuck := ⟨fun x hx => by simpa [hth] using hx, by simp [hq]⟩
  refine ⟨s, hrun, hdown, hacc, hbegun, fun h => hstuck.2 h.1.1, fun ls s' hrest hdone => ?_⟩
  have hstuck' : s'.Stuck := hrest.invariant (fun _ _ _ hu _ h => PoolRun.Stuck.step hu h) hstuck
  exact hstuck'.2 hdone.1

end SimplyNode
