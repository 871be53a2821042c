import SimplyNode.ThreadPool

/-!
# A Thread Pool and its Shutdown

`shutdown` sets `m_stopping`, stops the loops and joins the workers. A loop looks at its stop
flag behind its drain only: a worker that is told to stop before it drains executes what is in
its queue, and one that is told to stop behind its drain leaves what is there. A runnable is
also left behind when its call of `start` was accepted but posts only after the last drain. A
call of `shutdown` that finds `m_stopping` set returns at once, whatever the first one has come
to.

## Main results

* `Doomed.step`: what is left to a worker that takes no further task is never executed.
* `not_doomed_step`, `doomed_of_not_inTime`: the steps that leave something behind.
* `shutdown_keeps_iff_inTime`: in a run in which a call of `shutdown` has returned, every state
  after a return has executed all that was accepted, iff every step of the run was in time.
* `stop_behind_drain`: a run in which a runnable is left behind.
-/

open Threads Transition

namespace SimplyNode

namespace ThreadPool

variable {s s' : ThreadPool} {n i k : ℕ} {l : ThreadPoolStep} {w w' : PoolWorker}

/-- A runnable is in the queue of a worker, or about to be posted to it. -/
def Expects (s : ThreadPool) (i : ℕ) (w : PoolWorker) : Prop :=
  (∃ t ∈ w.loop.tasks, t.isRunnable = true) ∨ ∃ c ∈ s.posting, c.2 = i

/-- A worker takes no further task, and a runnable is left to it. -/
def Doomed (s : ThreadPool) (i : ℕ) : Prop :=
  ∃ w, s.workers[i]? = some w ∧ w.Going ∧ s.Expects i w

/-- **The condition on a step.** No runnable is accepted for a worker that takes no further task;
when a loop that is behind its drain is told to stop, and when a loop that was told to stop has
drained its queue, no runnable is queued there or still to be posted; and no other call of
`shutdown` comes while an accepted runnable is queued or active. -/
def InTime (s : ThreadPool) : ThreadPoolStep → Prop
  | .start runnable => runnable = true → s.stopping = false → s.workerCount ≠ 0 →
      ∀ w, s.workers[s.nextWorker % s.workerCount]? = some w → ¬ w.Going
  | .stop i => ∀ w, s.workers[i]? = some w → w.phase = .behind → ¬ s.Expects i w
  | .stopNext => ∀ i rest w, s.shutdown = some (.stopping (i :: rest)) →
      s.workers[i]? = some w → w.phase = .behind → ¬ s.Expects i w
  | .drained i => ∀ w, s.workers[i]? = some w → w.loop.stop = true → ¬ s.Expects i w
  | .shutdownAgain => s.Settled
  | _ => True

/-! ### What is left behind stays behind -/

/-- A call of `start` that is about to post still is, or has posted. -/
theorem Step.posting (hst : Step s l s') {c : ℕ × ℕ} (hc : c ∈ s.posting) :
    c ∈ s'.posting ∨ ∃ w', s'.workers[c.2]? = some w' ∧ .call c.1 ∈ w'.loop.tasks := by
  cases hst with
  | start =>
      refine Or.inl ?_
      rw [ThreadPool.start]
      split
      · exact hc
      · exact List.mem_append_left _ hc
  | @post call k i w hcall hw =>
      obtain ⟨m, hm, rfl⟩ := List.mem_iff_getElem.mp hc
      by_cases hmc : m = call
      · subst hmc
        obtain ⟨_, hk⟩ := List.getElem?_eq_some_iff.mp hcall
        obtain ⟨hi, -⟩ := List.getElem?_eq_some_iff.mp hw
        rw [hk]
        exact Or.inr ⟨_, List.getElem?_set_self hi,
          List.mem_append_right _ (List.mem_singleton_self _)⟩
      · exact Or.inl (List.mem_eraseIdx_iff_getElem.mpr ⟨m, hm, hmc, rfl⟩)
  | _ => exact Or.inl hc

/-- **What is left behind stays behind.** -/
theorem Doomed.step (hb : Ledger s) (hst : Step s l s') (h : Doomed s i) : Doomed s' i := by
  obtain ⟨w, hw, hgoing, hexpects⟩ := h
  obtain ⟨w', hw', -, hlater⟩ := hst.later hw
  obtain ⟨hgoing', htasks⟩ := hlater hgoing
  refine ⟨w', hw', hgoing', ?_⟩
  rcases hexpects with ⟨t, ht, hrun⟩ | ⟨c, hc, rfl⟩
  · exact Or.inl ⟨t, htasks t ht, hrun⟩
  · rcases hst.posting hc with hc' | ⟨u, hu, hmem⟩
    · exact Or.inr ⟨c, hc', rfl⟩
    · obtain rfl := Option.some.inj (hu.symm.trans hw')
      have hpos := hb.posting c hc
      refine Or.inl ⟨_, hmem, ?_⟩
      simp only [Task.isRunnable, bne_iff_ne]
      omega

/-- What is left behind is counted as queued for ever. -/
theorem Doomed.queued_pos (hb : Ledger s) (h : Doomed s i) : 0 < s.queuedTasks := by
  obtain ⟨w, hw, -, ⟨t, ht, hrun⟩ | ⟨c, hc, -⟩⟩ := h
  · have hle := hb.queued_le hw
    have hpos : 0 < w.loop.tasks.countP Task.isRunnable := List.countP_pos_iff.mpr ⟨t, ht, hrun⟩
    rw [PoolWorker.queued] at hle
    omega
  · have hpos := List.length_pos_of_mem hc
    have := hb.queued
    omega

/-! ### Which steps leave something behind -/

/-- The step of one worker, which leaves nothing to itself behind. -/
theorem not_doomed_setWorker {j : ℕ} {u' : PoolWorker} (hnone : ∀ i, ¬ Doomed s i)
    (hset : s'.workers = s.workers.set j u') (hposting : ∀ c ∈ s'.posting, c ∈ s.posting)
    (hu : u'.Going → ¬ s'.Expects j u') : ∀ i, ¬ Doomed s' i := by
  rintro i ⟨w, hw, hgoing, hexpects⟩
  obtain ⟨hi, -⟩ := List.getElem?_eq_some_iff.mp hw
  rw [hset] at hw hi
  by_cases hij : j = i
  · subst hij
    rw [List.length_set] at hi
    rw [List.getElem?_set_self hi] at hw
    obtain rfl := Option.some.inj hw
    exact hu hgoing hexpects
  · rw [List.getElem?_set_ne hij] at hw
    refine hnone i ⟨w, hw, hgoing, hexpects.imp_right ?_⟩
    rintro ⟨c, hc, hci⟩
    exact ⟨c, hposting c hc, hci⟩

theorem not_doomed_of_eq (hnone : ∀ i, ¬ Doomed s i) (hworkers : s'.workers = s.workers)
    (hposting : s'.posting = s.posting) : ∀ i, ¬ Doomed s' i := by
  rintro i ⟨w, hw, hgoing, hexpects⟩
  refine hnone i ⟨w, hworkers ▸ hw, hgoing, ?_⟩
  rw [Expects, hposting] at hexpects
  exact hexpects

/-- A runnable that is accepted in time is left behind by no worker. -/
theorem not_doomed_start (hnone : ∀ i, ¬ Doomed s i) {runnable : Bool}
    (hok : s.InTime (.start runnable)) : ∀ i, ¬ Doomed (s.start runnable) i := by
  rw [ThreadPool.start]
  split
  · exact not_doomed_of_eq hnone rfl rfl
  · rename_i hacc
    simp only [Bool.or_eq_true, not_or, Bool.not_eq_true, Bool.not_eq_false', beq_iff_eq] at hacc
    rintro i ⟨w, hw, hgoing, hexpects⟩
    rcases hexpects with htask | ⟨c, hc, hci⟩
    · exact hnone i ⟨w, hw, hgoing, Or.inl htask⟩
    · rcases List.mem_append.mp hc with hc | hc
      · exact hnone i ⟨w, hw, hgoing, Or.inr ⟨c, hc, hci⟩⟩
      · rw [List.mem_singleton.mp hc] at hci
        subst hci
        exact hok hacc.1.1 hacc.1.2 hacc.2 w hw hgoing

/-- **A step in time leaves nothing behind.** -/
theorem not_doomed_step (hnone : ∀ i, ¬ Doomed s i) (hok : s.InTime l) (hst : Step s l s') :
    ∀ i, ¬ Doomed s' i := by
  cases hst with
  | start => exact not_doomed_start hnone hok
  | @post call k i w hcall hw =>
      refine not_doomed_setWorker hnone rfl (fun c hc => List.mem_of_mem_eraseIdx hc)
        fun hgoing _ => ?_
      exact hnone i ⟨w, hw, hgoing, Or.inr ⟨_, List.mem_of_getElem? hcall, rfl⟩⟩
  | @postOther i t w ht hw =>
      refine not_doomed_setWorker hnone rfl (fun _ hc => hc) fun hgoing hexpects => ?_
      refine hnone i ⟨w, hw, hgoing, hexpects.imp_left ?_⟩
      rintro ⟨u, hu, hrun⟩
      rcases List.mem_append.mp hu with hu | hu
      · exact ⟨u, hu, hrun⟩
      · rw [List.mem_singleton.mp hu, ht] at hrun
        cases hrun
  | @stop i w hw =>
      refine not_doomed_setWorker hnone rfl (fun _ hc => hc) fun hgoing hexpects => ?_
      rcases hgoing with hleft | ⟨hbehind, -⟩
      · exact hnone i ⟨w, hw, Or.inl hleft, hexpects⟩
      · exact hok w hw hbehind hexpects
  | @take i w t q hw hphase hpop =>
      refine not_doomed_setWorker hnone rfl (fun _ hc => hc) fun hgoing _ => ?_
      have htakes : ∀ t, phaseOf t ≠ .left ∧ phaseOf t ≠ .behind := by
        intro t
        cases t with
        | call k =>
            rw [phaseOf]
            split <;> simp
        | _ => simp [phaseOf]
      exact PoolWorker.not_going_of_phase rfl (htakes t).1 (htakes t).2 hgoing
  | @drained i w hw hphase hpop =>
      refine not_doomed_setWorker hnone rfl (fun _ hc => hc) fun hgoing hexpects => ?_
      rcases hgoing with hleft | ⟨-, hstop⟩
      · cases hleft
      · exact hok w hw hstop hexpects
  | begin hw hphase =>
      exact not_doomed_setWorker hnone rfl (fun _ hc => hc) fun hgoing _ =>
        PoolWorker.not_going_of_phase rfl (by simp) (by simp) hgoing
  | execute hw hphase =>
      exact not_doomed_setWorker hnone rfl (fun _ hc => hc) fun hgoing _ =>
        PoolWorker.not_going_of_phase rfl (by simp) (by simp) hgoing
  | finish hw hphase =>
      exact not_doomed_setWorker hnone rfl (fun _ hc => hc) fun hgoing _ =>
        PoolWorker.not_going_of_phase rfl (by simp) (by simp) hgoing
  | @wait i w hw hphase =>
      refine not_doomed_setWorker hnone rfl (fun _ hc => hc) fun hgoing hexpects => ?_
      cases hstop : w.loop.stop with
      | true => exact hnone i ⟨w, hw, Or.inr ⟨hphase, hstop⟩, hexpects⟩
      | false =>
          have hagain : (passOrLeave w).phase = .draining := by rw [passOrLeave, hstop]; rfl
          exact PoolWorker.not_going_of_phase hagain (by decide) (by decide) hgoing
  | @stopNext i rest w hj hw =>
      refine not_doomed_setWorker hnone rfl (fun _ hc => hc) fun hgoing hexpects => ?_
      rcases hgoing with hleft | ⟨hbehind, -⟩
      · exact hnone i ⟨w, hw, Or.inl hleft, hexpects⟩
      · exact hok i rest w hj hw hbehind hexpects
  | _ => exact not_doomed_of_eq hnone rfl rfl

/-- **A step that is not in time** leaves a runnable behind, or it is a call of `shutdown` that
returns while an accepted runnable is queued or active. -/
theorem doomed_of_not_inTime (hst : Step s l s') (hlate : ¬ s.InTime l) :
    (∃ i, Doomed s' i) ∨ l = .shutdownAgain ∧ ¬ s.Settled := by
  cases hst with
  | @start runnable =>
      simp only [InTime, not_forall, not_not] at hlate
      obtain ⟨hrun, hstop, hcount, w, hw, hgoing⟩ := hlate
      have hacc : ¬ (!runnable || s.stopping || s.workerCount == 0) = true := by
        simp [hrun, hstop, hcount]
      rw [ThreadPool.start, if_neg hacc]
      exact Or.inl ⟨s.nextWorker % s.workerCount, w, hw, hgoing,
        Or.inr ⟨_, List.mem_append_right _ (List.mem_singleton_self _), rfl⟩⟩
  | @stop i w hw =>
      simp only [InTime, not_forall, not_not] at hlate
      obtain ⟨u, hu, hbehind, hexpects⟩ := hlate
      obtain rfl := Option.some.inj (hu.symm.trans hw)
      obtain ⟨hi, -⟩ := List.getElem?_eq_some_iff.mp hu
      exact Or.inl ⟨i, _, List.getElem?_set_self hi, Or.inr ⟨hbehind, rfl⟩, hexpects⟩
  | @drained i w hw hphase hpop =>
      simp only [InTime, not_forall, not_not] at hlate
      obtain ⟨u, hu, hstop, hexpects⟩ := hlate
      obtain rfl := Option.some.inj (hu.symm.trans hw)
      obtain ⟨hi, -⟩ := List.getElem?_eq_some_iff.mp hu
      exact Or.inl ⟨i, _, List.getElem?_set_self hi, Or.inr ⟨rfl, hstop⟩, hexpects⟩
  | @stopNext i rest w hj hw =>
      simp only [InTime, not_forall, not_not] at hlate
      obtain ⟨i', rest', u, hj', hu, hbehind, hexpects⟩ := hlate
      obtain ⟨rfl, rfl⟩ :=
        List.cons.inj (StopPhase.stopping.inj (Option.some.inj (hj.symm.trans hj')))
      obtain rfl := Option.some.inj (hu.symm.trans hw)
      obtain ⟨hi, -⟩ := List.getElem?_eq_some_iff.mp hu
      exact Or.inl ⟨i, _, List.getElem?_set_self hi, Or.inr ⟨hbehind, rfl⟩, hexpects⟩
  | shutdownAgain => exact Or.inr ⟨rfl, hlate⟩
  | _ => exact absurd trivial hlate

/-! ### The shutdown -/

/-- Nothing was left behind, and all was executed when a call of `shutdown` returned. -/
structure Orderly (n : ℕ) (s : ThreadPool) : Prop where
  ledger : Ledger s
  staffed : Staffed n s
  none : ∀ i, ¬ Doomed s i
  returned : 0 < s.returns → s.stopping = true ∧ s.Settled

/-- When all workers have left and nothing was left behind, all was executed. -/
theorem settled_of_left (hb : Ledger s) (hi : Staffed n s) (hnone : ∀ i, ¬ Doomed s i)
    (hleft : ∀ w ∈ s.workers, w.phase = .left) : s.Settled := by
  have hposting : s.posting = [] := by
    rw [List.eq_nil_iff_forall_not_mem]
    intro c hc
    have hlt := hi.posting c hc
    rw [← hi.length] at hlt
    exact hnone c.2 ⟨_, List.getElem?_eq_getElem hlt, Or.inl (hleft _ (List.getElem_mem hlt)),
      Or.inr ⟨c, hc, rfl⟩⟩
  have hqueues : ∀ w ∈ s.workers, w.queued = 0 := by
    intro w hmem
    obtain ⟨i, hlt, rfl⟩ := List.mem_iff_getElem.mp hmem
    have htasks : (s.workers[i]).loop.tasks.countP Task.isRunnable = 0 := by
      rw [List.countP_eq_zero]
      exact fun t ht hrun => hnone i ⟨_, List.getElem?_eq_getElem hlt, Or.inl (hleft _ hmem),
        Or.inl ⟨t, ht, hrun⟩⟩
    rw [PoolWorker.queued, htasks, hleft _ hmem]
    rfl
  have hactives : ∀ w ∈ s.workers, w.active = 0 := by
    intro w hmem
    rw [PoolWorker.active, hleft _ hmem]
    rfl
  constructor
  · rw [hb.queued, hposting, sum_map_eq_zero.mpr hqueues]
    rfl
  · rw [hb.active, sum_map_eq_zero.mpr hactives]

/-- A pool that is stopping and has executed everything stays so. -/
theorem Settled.step (hb : Ledger s) (hstop : s.stopping = true) (h : s.Settled)
    (hst : Step s l s') : s'.stopping = true ∧ s'.Settled := by
  obtain ⟨hqueued, hactive⟩ := h
  cases hst with
  | start =>
      rw [ThreadPool.start]
      split
      · exact ⟨hstop, hqueued, hactive⟩
      · rename_i hacc
        simp [hstop] at hacc
  | @begin i k w hw hphase =>
      have hle := hb.queued_le hw
      rw [PoolWorker.queued, hphase, hqueued] at hle
      simp [PassPhase.isTaken] at hle
  | @finish i w hw hphase =>
      have hle := hb.active_le hw
      rw [PoolWorker.active, hphase, hactive] at hle
      simp [PassPhase.isActive] at hle
  | shutdown hs => rw [hstop] at hs; cases hs
  | _ => exact ⟨hstop, hqueued, hactive⟩

/-- **The step lemma of an orderly shutdown.** -/
theorem Orderly.step (h : Orderly n s) (hok : s.InTime l) (hst : Step s l s') : Orderly n s' where
  ledger := h.ledger.step hst
  staffed := h.staffed.step hst
  none := not_doomed_step h.none hok hst
  returned hreturned := by
    by_cases hr : 0 < s.returns
    · obtain ⟨hstop, hs⟩ := h.returned hr
      exact hs.step h.ledger hstop hst
    · -- the first return is this step
      cases hst with
      | start =>
          rw [ThreadPool.start] at hreturned
          split at hreturned <;> exact absurd hreturned hr
      | shutdownAgain hstop => exact ⟨hstop, hok⟩
      | shutdownReturns hc =>
          have hs := settled_of_left h.ledger h.staffed h.none (h.staffed.cleared hc)
          exact ⟨h.staffed.begun (by rw [hc]; exact Option.some_ne_none _), hs⟩
      | _ => exact absurd hreturned hr

theorem orderly_initial (n : ℕ) : Orderly n (initial n) where
  ledger := ledger_initial n
  staffed := staffed_initial n
  none := by
    rintro i ⟨w, hw, hgoing, -⟩
    have hmem : w = { loop := { tasks := [.call 0] } } :=
      List.eq_of_mem_replicate (List.mem_of_getElem? hw)
    subst hmem
    exact PoolWorker.not_going_of_phase rfl (by decide) (by decide) hgoing
  returned h := absurd h (Nat.lt_irrefl 0)

/-- **When a pool keeps its promise.** In a run in which a call of `shutdown` has returned, every
state behind a return has executed every accepted runnable exactly once, with both counters at
0, iff every step of the run was in time. -/
theorem shutdown_keeps_iff_inTime {ls : List ThreadPoolStep} (hreturned : 0 < s.returns) :
    Run Step (fun u l => ∀ u', Step u l u' → 0 < u'.returns → u'.Kept) (initial n) ls s ↔
      Run Step InTime (initial n) ls s := by
  constructor
  · intro hrun
    have hkept : s.Kept := by
      refine hrun.invariant (I := fun u => 0 < u.returns → u.Kept)
        (fun u l u' _ hok hst => hok u' hst) (fun h => absurd h (Nat.lt_irrefl 0)) hreturned
    rcases hrun.guarded_or_breaks_of_ok with h | ⟨u, l, u', ls₁, ls₂, h₁, hok, hlate, hst, h₂⟩
    · exact h
    · have hb : Ledger u := h₁.invariant (fun _ _ _ hb _ hst => hb.step hst) (ledger_initial n)
      rcases doomed_of_not_inTime hst hlate with ⟨i, hdoomed⟩ | ⟨rfl, hopen⟩
      · -- what is left behind is still there at the end
        have hend : Ledger s ∧ Doomed s i :=
          h₂.invariant (I := fun v => Ledger v ∧ Doomed v i)
            (fun _ _ _ hv _ hst => ⟨hv.1.step hst, hv.2.step hv.1 hst⟩) ⟨hb.step hst, hdoomed⟩
        have := hend.2.queued_pos hend.1
        have := hkept.2.1
        omega
      · cases hst with
        | shutdownAgain hstop =>
            exact absurd (hok _ (.shutdownAgain hstop) (Nat.succ_pos _)).2 hopen
  · intro hrun
    refine hrun.strengthen (I := Orderly n) (fun u l u' h hok hst => ⟨h.step hok hst, ?_⟩)
      (orderly_initial n)
    intro v hv hpos
    have hafter := h.step hok hv
    exact hafter.ledger.kept_of_settled (hafter.returned hpos).2

/-- A runnable that is in the queue when its worker is told to stop, before the worker drains. -/
theorem stopped_before_drain : ∃ s : ThreadPool, s.returns = 1 ∧ s.accepted = [1] ∧ s.Kept := by
  have hrun : ∃ s : ThreadPool, s.returns = 1 ∧ s.accepted = [1] ∧ Run Step InTime (initial 1)
      [.start true, .post 0, .shutdown, .stopNext, .stopped, .take 0, .take 0, .begin 0,
        .execute 0, .finish 0, .drained 0, .wait 0, .join, .clear, .shutdownReturns] s := by
    refine ⟨_, ?_, ?_, .cons ?_ .start (.cons trivial (.post rfl rfl) (.cons trivial
      (.shutdown rfl) (.cons ?_ (.stopNext rfl rfl) (.cons trivial (.stopped rfl) (.cons trivial
      (.take rfl rfl rfl) (.cons trivial (.take rfl rfl rfl) (.cons trivial (.begin rfl rfl)
      (.cons trivial (.execute rfl rfl) (.cons trivial (.finish rfl rfl) (.cons ?_
      (.drained rfl rfl rfl) (.cons trivial (.wait rfl rfl) (.cons trivial (.join rfl rfl rfl)
      (.cons trivial (.clear rfl) (.cons trivial (.shutdownReturns rfl) (.nil _)))))))))))))))⟩
    · rfl
    · rfl
    · intro _ _ _ w hw
      obtain rfl := Option.some.inj hw
      decide
    · intro i rest w hj hw hbehind
      obtain ⟨rfl, rfl⟩ := List.cons.inj (StopPhase.stopping.inj (Option.some.inj hj))
      obtain rfl := Option.some.inj hw
      cases hbehind
    · intro w hw _ hexpects
      obtain rfl := Option.some.inj hw
      rcases hexpects with ⟨t, ht, -⟩ | ⟨c, hc, -⟩
      · cases ht
      · cases hc
  obtain ⟨s, hreturned, hacc, hrun⟩ := hrun
  have hkept := (shutdown_keeps_iff_inTime (by omega)).mpr hrun
  exact ⟨s, hreturned, hacc, hkept.invariant (I := fun u => 0 < u.returns → u.Kept)
    (fun u l u' _ hok hst => hok u' hst) (fun h => absurd h (Nat.lt_irrefl 0)) (by omega)⟩

/-- **A runnable that is left behind.** It is accepted and posted while its worker is in the wait,
and the worker is told to stop before it wakes up: the shutdown returns, the runnable is never
executed, and `waitForDone` blocks for ever. -/
theorem stop_behind_drain : ∃ s, Reaches Step (initial 1)
      [.take 0, .drained 0, .start true, .post 0, .shutdown, .stopNext, .stopped, .wait 0, .join,
        .clear, .shutdownReturns] s ∧
    s.returns = 1 ∧ s.accepted = [1] ∧ s.done = [] ∧ ¬ s.Kept ∧
    ∀ ls s', Reaches Step s ls s' → ¬ s'.Settled := by
  have hrun : ∃ s, Reaches Step (initial 1)
        [.take 0, .drained 0, .start true, .post 0, .shutdown, .stopNext, .stopped, .wait 0,
          .join, .clear, .shutdownReturns] s ∧
      s.returns = 1 ∧ s.accepted = [1] ∧ s.done = [] ∧
      s.workers = [{ loop := { tasks := [.call 1], retired := true }, phase := .left }] := by
    refine ⟨_, .cons trivial (.take rfl rfl rfl) (.cons trivial (.drained rfl rfl rfl)
      (.cons trivial .start (.cons trivial (.post rfl rfl) (.cons trivial (.shutdown rfl)
      (.cons trivial (.stopNext rfl rfl) (.cons trivial (.stopped rfl) (.cons trivial
      (.wait rfl rfl) (.cons trivial (.join rfl rfl rfl) (.cons trivial (.clear rfl)
      (.cons trivial (.shutdownReturns rfl) (.nil _))))))))))), ?_, ?_, ?_, ?_⟩
    all_goals rfl
  obtain ⟨s, hrun, hreturned, hacc, hdone, hworkers⟩ := hrun
  have hb : Ledger s := hrun.invariant (fun _ _ _ hb _ hst => hb.step hst) (ledger_initial 1)
  have hdoomed : Doomed s 0 :=
    ⟨_, by rw [hworkers]; rfl, Or.inl rfl, Or.inl ⟨.call 1, List.mem_singleton_self _, rfl⟩⟩
  refine ⟨s, hrun, hreturned, hacc, hdone, fun h => ?_, fun ls s' hrest hsettled => ?_⟩
  · have := hdoomed.queued_pos hb
    have := h.2.1
    omega
  · have hend : Ledger s' ∧ Doomed s' 0 :=
      hrest.invariant (I := fun v => Ledger v ∧ Doomed v 0)
        (fun _ _ _ hv _ hst => ⟨hv.1.step hst, hv.2.step hv.1 hst⟩) ⟨hb, hdoomed⟩
    have := hend.2.queued_pos hend.1
    have := hsettled.1
    omega

end ThreadPool

end SimplyNode
