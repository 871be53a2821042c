import SimplyNode.TimerRun

/-!
# Where the Entries of a Timer Are

A timer that runs has an entry with its owner: in the `m_timers` of an event loop, or in the queue
of the timer service of a strand's pool. When it is due the entry is taken: into the batch that the
loop dispatches, or by the service's thread, which posts a task with it to the strand.

## Main results

* `Armed`, `Taken`: an entry of a timer with a generation is still with an executor, or has been
  taken for it.
* `Flows`: what the steps that only pass entries on do to them.
* `Inv`: what holds of the entries and of the work in progress as long as the calls on a timer do
  not overlap. `Inv.flows`: passing entries on keeps it.
-/

open Transition

namespace SimplyNode

namespace TimerRun

/-! ### Places of entries -/

section Places

variable (s : TimerRun)

/-- An entry of the timer waits with the executor: in `m_timers`, or in the timer service. -/
def Armed : ExecutorId → Addr → ℕ → Prop
  | .loop t, a, g => ∃ x ∈ (s.loops t).timers, x.timer = a ∧ x.generation = g
  | .strand k, a, g =>
      ∃ x ∈ (s.service k).queue, x.strand = k ∧ x.name = a ∧ x.generation = g

/-- A timeout of the timer is queued at the executor. -/
def Queued (e : ExecutorId) (a : Addr) (g : ℕ) : Prop :=
  ∃ p : NodePtr, p.node = a ∧ Task.timeout p g ∈ s.tasks e

/-- The timer service has taken an entry of the timer and not posted it yet. -/
def Due (k : StrandId) (a : Addr) (g : ℕ) : Prop :=
  ∃ x ∈ s.due (s.strands k).pool, x.strand = k ∧ x.name = a ∧ x.generation = g

/-- An entry of the timer has been taken for the executor, and is not dispatched yet. -/
def Taken : ExecutorId → Addr → ℕ → Prop
  | .loop t, a, g => ∃ x ∈ s.batches t, x.timer = a ∧ x.generation = g
  | .strand k, a, g => s.Due k a g ∨ s.Queued (.strand k) a g

/-- The services are indexed, and have entries of strands of their own pool only. -/
structure Booked : Prop where
  indexed : ∀ p, (s.services p).Indexed
  home : ∀ p x, x ∈ (s.services p).queue ∨ x ∈ s.due p → (s.strands x.strand).pool = p

end Places

variable {s s' s'' : TimerRun} {e e' : ExecutorId} {a b : Addr} {g f : ℕ} {T T' : OwnedTimer}

/-! ### What a single change does to the entries -/

/-- The tasks behind a change of one queue. -/
theorem tasks_setTasks {l : List Task} :
    (s.setTasks e l).tasks e' = if e' = e then l else s.tasks e' := by
  cases e with
  | loop t =>
      cases e' with
      | loop t' =>
          by_cases h : t' = t
          · subst h
            simp [setTasks, tasks]
          · simp [setTasks, tasks, h]
      | strand k' => simp [setTasks, tasks]
  | strand k =>
      cases e' with
      | loop t' => simp [setTasks, tasks]
      | strand k' =>
          by_cases h : k' = k
          · subst h
            simp [setTasks, tasks]
          · simp [setTasks, tasks, h]

/-- A change of tasks leaves the strands to their pools. -/
theorem pool_setTasks {l : List Task} (k : StrandId) :
    ((s.setTasks e l).strands k).pool = (s.strands k).pool := by
  cases e with
  | loop t => rfl
  | strand j =>
      by_cases h : k = j
      · subst h
        simp [setTasks]
      · simp [setTasks, h]

/-- A change of tasks leaves the entries of the loops. -/
theorem timers_setTasks {l : List Task} (t : ThreadId) :
    ((s.setTasks e l).loops t).timers = (s.loops t).timers := by
  cases e with
  | loop j =>
      by_cases h : t = j
      · subst h
        simp [setTasks]
      · simp [setTasks, h]
  | strand k => rfl

/-- A change of tasks leaves the entries of the services. -/
theorem services_setTasks {l : List Task} : (s.setTasks e l).services = s.services := by
  cases e <;> rfl

/-- A change of tasks leaves what is due. -/
theorem due_setTasks {l : List Task} : (s.setTasks e l).due = s.due := by
  cases e <;> rfl

/-- A change of tasks leaves what the loops have taken. -/
theorem batches_setTasks {l : List Task} : (s.setTasks e l).batches = s.batches := by
  cases e <;> rfl

/-- A change of tasks leaves the timers. -/
theorem objects_setTasks {l : List Task} : (s.setTasks e l).timers = s.timers := by
  cases e <;> rfl

/-- A change of tasks leaves what the executors are doing. -/
theorem doing_setTasks {l : List Task} : (s.setTasks e l).doing = s.doing := by
  cases e <;> rfl

/-- A change of tasks leaves the record. -/
theorem log_setTasks {l : List Task} : (s.setTasks e l).log = s.log := by
  cases e <;> rfl

/-- A change of tasks arms no timer. -/
theorem armed_setTasks {l : List Task} : (s.setTasks e l).Armed e' a g ↔ s.Armed e' a g := by
  cases e' with
  | loop t =>
      rw [Armed, Armed, timers_setTasks]
  | strand k =>
      rw [Armed, Armed, service, service, pool_setTasks, services_setTasks]

/-- A change of tasks makes no entry due. -/
theorem due_iff_setTasks {l : List Task} {k : StrandId} :
    (s.setTasks e l).Due k a g ↔ s.Due k a g := by
  rw [Due, Due, pool_setTasks, due_setTasks]

/-- A change of tasks keeps the books. -/
theorem booked_setTasks {l : List Task} (h : s.Booked) : (s.setTasks e l).Booked where
  indexed p := by
    rw [services_setTasks]
    exact h.indexed p
  home p x hx := by
    rw [pool_setTasks]
    rw [services_setTasks, due_setTasks] at hx
    exact h.home p x hx

/-- Replacing the queue of an executor changes its queued timeouts only. -/
theorem taken_setTasks {l : List Task} : (s.setTasks e l).Taken e' a g →
    s.Taken e' a g ∨ e' = e ∧ ∃ p : NodePtr, p.node = a ∧ Task.timeout p g ∈ l := by
  cases e' with
  | loop t =>
      intro h
      rw [Taken, batches_setTasks] at h
      exact Or.inl h
  | strand k =>
      rintro (h | ⟨p, hp, hmem⟩)
      · exact Or.inl (Or.inl (due_iff_setTasks.mp h))
      · rw [tasks_setTasks] at hmem
        split at hmem
        · exact Or.inr ⟨‹_›, p, hp, hmem⟩
        · exact Or.inl (Or.inr ⟨p, hp, hmem⟩)

/-- A taken entry is kept unless it is a timeout that the new queue does not have. -/
theorem Taken.setTasks {l : List Task} (h : s.Taken e' a g)
    (hl : ∀ p : NodePtr, e' = e → p.node = a → Task.timeout p g ∈ s.tasks e →
      Task.timeout p g ∈ l) : (s.setTasks e l).Taken e' a g := by
  cases e' with
  | loop t =>
      rw [Taken, batches_setTasks]
      exact h
  | strand k =>
      rcases h with h | ⟨p, hp, hmem⟩
      · exact Or.inl (due_iff_setTasks.mpr h)
      · refine Or.inr ⟨p, hp, ?_⟩
        rw [tasks_setTasks]
        split
        · rename_i he
          exact hl p he hp (he ▸ hmem)
        · exact hmem

/-- The executor takes entries: a strand does while the timer service of its pool runs. -/
def Serves (s : TimerRun) : ExecutorId → Prop
  | .loop _ => True
  | .strand k => (s.service k).stopped = false

/-- Scheduling brings no entry but the one of the timer where it is scheduled. -/
theorem armed_scheduleTimer (hb : s.Booked) {d : TimePoint}
    (h : (s.scheduleTimer e a d g).Armed e' b f) :
    b = a ∧ e' = e ∧ f = g ∧ s.Serves e ∨ s.Armed e' b f := by
  cases e with
  | loop t =>
      cases e' with
      | loop t' =>
          by_cases ht : t' = t
          · subst ht
            obtain ⟨x, hx, rfl, rfl⟩ := h
            simp only [scheduleTimer, Function.update_self, EventLoop.scheduleTimer] at hx
            rcases List.mem_append.mp hx with hx | hx
            · exact Or.inr ⟨x, (List.mem_filter.mp hx).1, rfl, rfl⟩
            · obtain rfl := List.mem_singleton.mp hx
              exact Or.inl ⟨rfl, rfl, rfl, trivial⟩
          · simp only [Armed, scheduleTimer, Function.update_of_ne ht] at h
            exact Or.inr h
      | strand k' => exact Or.inr h
  | strand k =>
      cases e' with
      | loop t' => exact Or.inr h
      | strand k' =>
          obtain ⟨x, hx, rfl, rfl, rfl⟩ := h
          simp only [scheduleTimer, setService, service] at hx
          by_cases hp : (s.strands x.strand).pool = (s.strands k).pool
          · rw [hp, Function.update_self] at hx
            cases hs : (s.services (s.strands k).pool).stopped with
            | true =>
                rw [TimerService.schedule_of_stopped hs] at hx
                exact Or.inr ⟨x, by rw [service, hp]; exact hx, rfl, rfl, rfl⟩
            | false =>
                rcases (TimerService.mem_queue_schedule (hb.indexed _) hs).mp hx with rfl | hx
                · exact Or.inl ⟨rfl, rfl, rfl, hs⟩
                · exact Or.inr ⟨x, by rw [service, hp]; exact hx.1, rfl, rfl, rfl⟩
          · rw [Function.update_of_ne hp] at hx
            exact Or.inr ⟨x, hx, rfl, rfl, rfl⟩

/-- Scheduling keeps the other timers' entries. -/
theorem Armed.scheduleTimer (hb : s.Booked) {d : TimePoint} (hne : b ≠ a)
    (h : s.Armed e' b f) : (s.scheduleTimer e a d g).Armed e' b f := by
  cases e with
  | loop t =>
      cases e' with
      | loop t' =>
          by_cases ht : t' = t
          · subst ht
            obtain ⟨x, hx, rfl, rfl⟩ := h
            refine ⟨x, ?_, rfl, rfl⟩
            simp only [TimerRun.scheduleTimer, Function.update_self, EventLoop.scheduleTimer]
            exact List.mem_append_left _ (List.mem_filter.mpr ⟨hx, by simpa using hne⟩)
          · simp only [Armed, TimerRun.scheduleTimer, Function.update_of_ne ht]
            exact h
      | strand k' => exact h
  | strand k =>
      cases e' with
      | loop t' => exact h
      | strand k' =>
          obtain ⟨x, hx, rfl, rfl, rfl⟩ := h
          refine ⟨x, ?_, rfl, rfl, rfl⟩
          rw [service] at hx
          simp only [TimerRun.scheduleTimer, setService, service]
          by_cases hp : (s.strands x.strand).pool = (s.strands k).pool
          · rw [hp, Function.update_self]
            rw [hp] at hx
            cases hs : (s.services (s.strands k).pool).stopped with
            | true =>
                rw [TimerService.schedule_of_stopped hs]
                exact hx
            | false =>
                exact (TimerService.mem_queue_schedule (hb.indexed _) hs).mpr (Or.inr ⟨hx, hne⟩)
          · rw [Function.update_of_ne hp]
            exact hx

/-- A scheduled timer has the entry, if the executor takes entries. -/
theorem armed_scheduleTimer_self (hb : s.Booked) (hr : s.Serves e) {d : TimePoint} :
    (s.scheduleTimer e a d g).Armed e a g := by
  cases e with
  | loop t =>
      refine ⟨⟨a, d, g⟩, ?_, rfl, rfl⟩
      simp only [scheduleTimer, Function.update_self, EventLoop.scheduleTimer]
      exact List.mem_append_right _ List.mem_cons_self
  | strand k =>
      refine ⟨⟨d, k, timerPtr a, g⟩, ?_, rfl, rfl, rfl⟩
      simp only [scheduleTimer, setService, service, Function.update_self]
      exact (TimerService.mem_queue_schedule (hb.indexed _) hr).mpr (Or.inl rfl)

/-- The index agrees with the queue after a start. -/
theorem booked_scheduleTimer (hb : s.Booked) {d : TimePoint} :
    (s.scheduleTimer e a d g).Booked := by
  cases e with
  | loop t => exact ⟨hb.indexed, hb.home⟩
  | strand k =>
      constructor
      · intro p
        simp only [scheduleTimer, setService, service]
        by_cases hp : p = (s.strands k).pool
        · subst hp
          rw [Function.update_self]
          exact (hb.indexed _).schedule
        · rw [Function.update_of_ne hp]
          exact hb.indexed p
      · intro p x hx
        simp only [scheduleTimer, setService, service] at hx ⊢
        rcases hx with hx | hx
        · by_cases hp : p = (s.strands k).pool
          · subst hp
            rw [Function.update_self] at hx
            cases hs : (s.services (s.strands k).pool).stopped with
            | true =>
                rw [TimerService.schedule_of_stopped hs] at hx
                exact hb.home _ x (Or.inl hx)
            | false =>
                rcases (TimerService.mem_queue_schedule (hb.indexed _) hs).mp hx with rfl | hx
                · rfl
                · exact hb.home _ x (Or.inl hx.1)
          · rw [Function.update_of_ne hp] at hx
            exact hb.home p x (Or.inl hx)
        · exact hb.home p x (Or.inr hx)

/-- A new entry leaves the timers. -/
theorem objects_scheduleTimer {d : TimePoint} :
    (s.scheduleTimer e a d g).timers = s.timers := by
  cases e <;> rfl

/-- A new entry leaves what the executors are doing. -/
theorem doing_scheduleTimer {d : TimePoint} : (s.scheduleTimer e a d g).doing = s.doing := by
  cases e <;> rfl

/-- A new entry leaves the strands. -/
theorem strands_scheduleTimer {d : TimePoint} :
    (s.scheduleTimer e a d g).strands = s.strands := by
  cases e <;> rfl

/-- A new entry leaves the record. -/
theorem log_scheduleTimer {d : TimePoint} : (s.scheduleTimer e a d g).log = s.log := by
  cases e <;> rfl

/-- Scheduling neither stops nor restarts a timer service. -/
theorem stopped_scheduleTimer {d : TimePoint} (p : PoolId) :
    ((s.scheduleTimer e a d g).services p).stopped = (s.services p).stopped := by
  cases e with
  | loop t => rfl
  | strand k =>
      by_cases hp : p = (s.strands k).pool
      · subst hp
        simp only [scheduleTimer, setService, service, Function.update_self]
        exact TimerService.stopped_schedule
      · simp only [scheduleTimer, setService, Function.update_of_ne hp]

/-- What has been taken is what was taken before. -/
theorem taken_scheduleTimer {d : TimePoint} :
    (s.scheduleTimer e a d g).Taken e' b f ↔ s.Taken e' b f := by
  cases e <;> cases e' <;> exact Iff.rfl

/-- A cancelled timer has no entry with the executor any more. -/
theorem armed_cancelTimer (hb : s.Booked) :
    (s.cancelTimer e a).Armed e' b f → s.Armed e' b f ∧ ¬ (e' = e ∧ b = a) := by
  intro h
  cases e with
  | loop t =>
      cases e' with
      | loop t' =>
          by_cases ht : t' = t
          · subst ht
            obtain ⟨x, hx, rfl, rfl⟩ := h
            simp only [cancelTimer, Function.update_self, EventLoop.cancelTimer] at hx
            obtain ⟨hx, hne⟩ := List.mem_filter.mp hx
            exact ⟨⟨x, hx, rfl, rfl⟩, fun h => by simp [h.2] at hne⟩
          · simp only [Armed, cancelTimer, Function.update_of_ne ht] at h
            exact ⟨h, fun h => ht (ExecutorId.loop.inj h.1)⟩
      | strand k' => exact ⟨h, fun h => absurd h.1 (by simp)⟩
  | strand k =>
      cases e' with
      | loop t' => exact ⟨h, fun h => absurd h.1 (by simp)⟩
      | strand k' =>
          obtain ⟨x, hx, rfl, rfl, rfl⟩ := h
          simp only [cancelTimer, setService, service] at hx
          by_cases hp : (s.strands x.strand).pool = (s.strands k).pool
          · rw [hp, Function.update_self] at hx
            obtain ⟨hx, hne⟩ := (TimerService.mem_queue_cancel (hb.indexed _)).mp hx
            exact ⟨⟨x, by rw [service, hp]; exact hx, rfl, rfl, rfl⟩, fun h => hne h.2⟩
          · rw [Function.update_of_ne hp] at hx
            refine ⟨⟨x, hx, rfl, rfl, rfl⟩, fun h => hp ?_⟩
            rw [ExecutorId.strand.inj h.1]

/-- Cancelling keeps the other timers' entries. -/
theorem Armed.cancelTimer (hb : s.Booked) (hne : b ≠ a) (h : s.Armed e' b f) :
    (s.cancelTimer e a).Armed e' b f := by
  cases e with
  | loop t =>
      cases e' with
      | loop t' =>
          by_cases ht : t' = t
          · subst ht
            obtain ⟨x, hx, rfl, rfl⟩ := h
            refine ⟨x, ?_, rfl, rfl⟩
            simp only [TimerRun.cancelTimer, Function.update_self, EventLoop.cancelTimer]
            exact List.mem_filter.mpr ⟨hx, by simpa using hne⟩
          · simp only [Armed, TimerRun.cancelTimer, Function.update_of_ne ht]
            exact h
      | strand k' => exact h
  | strand k =>
      cases e' with
      | loop t' => exact h
      | strand k' =>
          obtain ⟨x, hx, rfl, rfl, rfl⟩ := h
          refine ⟨x, ?_, rfl, rfl, rfl⟩
          rw [service] at hx
          simp only [TimerRun.cancelTimer, setService, service]
          by_cases hp : (s.strands x.strand).pool = (s.strands k).pool
          · rw [hp, Function.update_self]
            rw [hp] at hx
            exact (TimerService.mem_queue_cancel (hb.indexed _)).mpr ⟨hx, hne⟩
          · rw [Function.update_of_ne hp]
            exact hx

/-- The index agrees with the queue after a stop. -/
theorem booked_cancelTimer (hb : s.Booked) : (s.cancelTimer e a).Booked := by
  cases e with
  | loop t => exact ⟨hb.indexed, hb.home⟩
  | strand k =>
      constructor
      · intro p
        simp only [cancelTimer, setService, service]
        by_cases hp : p = (s.strands k).pool
        · subst hp
          rw [Function.update_self]
          exact (hb.indexed _).cancel
        · rw [Function.update_of_ne hp]
          exact hb.indexed p
      · intro p x hx
        simp only [cancelTimer, setService, service] at hx ⊢
        rcases hx with hx | hx
        · by_cases hp : p = (s.strands k).pool
          · subst hp
            rw [Function.update_self] at hx
            exact hb.home _ x (Or.inl ((TimerService.mem_queue_cancel (hb.indexed _)).mp hx).1)
          · rw [Function.update_of_ne hp] at hx
            exact hb.home p x (Or.inl hx)
        · exact hb.home p x (Or.inr hx)

/-- A cancelled entry leaves the timers. -/
theorem objects_cancelTimer : (s.cancelTimer e a).timers = s.timers := by
  cases e <;> rfl

/-- A cancelled entry leaves what the executors are doing. -/
theorem doing_cancelTimer : (s.cancelTimer e a).doing = s.doing := by
  cases e <;> rfl

/-- A cancelled entry leaves the strands. -/
theorem strands_cancelTimer : (s.cancelTimer e a).strands = s.strands := by
  cases e <;> rfl

/-- A cancelled entry leaves the record. -/
theorem log_cancelTimer : (s.cancelTimer e a).log = s.log := by
  cases e <;> rfl

/-- Cancelling neither stops nor restarts a timer service. -/
theorem stopped_cancelTimer (p : PoolId) :
    ((s.cancelTimer e a).services p).stopped = (s.services p).stopped := by
  cases e with
  | loop t => rfl
  | strand k =>
      by_cases hp : p = (s.strands k).pool
      · subst hp
        simp only [cancelTimer, setService, service, Function.update_self]
        rfl
      · simp only [cancelTimer, setService, Function.update_of_ne hp]

/-- What has been taken is what was taken before. -/
theorem taken_cancelTimer : (s.cancelTimer e a).Taken e' b f ↔ s.Taken e' b f := by
  cases e <;> cases e' <;> exact Iff.rfl

/-! ### Steps that pass entries on -/

/-- The entries of `s` are passed on: none is new, and only the entries of `L` are lost. The timers
and the work in progress stay as they are. -/
structure Flows (s s' : TimerRun) (L : ExecutorId → Addr → ℕ → Prop) : Prop where
  timers : s'.timers = s.timers
  doing : s'.doing = s.doing
  pool : ∀ k, (s'.strands k).pool = (s.strands k).pool
  stopped : ∀ p, (s.services p).stopped = true → (s'.services p).stopped = true
  log : s'.log = s.log ∨ ∃ a c, s'.log = .called a c :: s.log
  booked : s.Booked → s'.Booked
  armed : ∀ e a g, s'.Armed e a g → s.Armed e a g
  taken : s.Booked → ∀ e a g, s'.Taken e a g → s.Taken e a g ∨ s.Armed e a g
  keepsArmed : s.Booked → ∀ e a g, s.Armed e a g →
    s'.Armed e a g ∨ s'.Taken e a g ∨ L e a g
  keepsTaken : s.Booked → ∀ e a g, s.Taken e a g → s'.Taken e a g ∨ L e a g

namespace Flows

variable {L : ExecutorId → Addr → ℕ → Prop}

/-- Nothing happens to the entries. -/
theorem of_iff (ht : s'.timers = s.timers) (hd : s'.doing = s.doing)
    (hs : s'.strands = s.strands) (hv : s'.services = s.services) (hu : s'.due = s.due)
    (hl : s'.log = s.log ∨ ∃ a c, s'.log = .called a c :: s.log)
    (ha : ∀ e a g, s'.Armed e a g ↔ s.Armed e a g)
    (hk : ∀ e a g, s'.Taken e a g ↔ s.Taken e a g) : Flows s s' L where
  timers := ht
  doing := hd
  pool k := by rw [hs]
  stopped p h := by rw [hv, h]
  log := hl
  booked h := by
    refine ⟨fun p => ?_, fun p x hx => ?_⟩
    · rw [hv]
      exact h.indexed p
    · rw [hv, hu] at hx
      rw [hs]
      exact h.home p x hx
  armed e a g := (ha e a g).mp
  taken _ e a g h := Or.inl ((hk e a g).mp h)
  keepsArmed _ e a g h := Or.inl ((ha e a g).mpr h)
  keepsTaken _ e a g h := Or.inl ((hk e a g).mpr h)

/-- A call from outside is observed. -/
theorem called {c : TimerCall} : Flows s (s.record (.called a c)) L :=
  of_iff rfl rfl rfl rfl rfl (Or.inr ⟨a, c, rfl⟩)
    (fun e _ _ => by cases e <;> exact Iff.rfl) fun e _ _ => by cases e <;> exact Iff.rfl

/-- The time goes on, or `TimerService::stop()` returns. -/
theorem clock {now : TimePoint} {j : PoolId → Bool} :
    Flows s { s with now := now, joined := j } L :=
  of_iff rfl rfl rfl rfl rfl (Or.inl rfl) (fun e _ _ => by cases e <;> exact Iff.rfl)
    fun e _ _ => by cases e <;> exact Iff.rfl

/-- Steps behind steps. -/
theorem trans (h : Flows s s' L) (h' : Flows s' s'' L)
    (hl : s'.log = s.log) : Flows s s'' L where
  timers := h'.timers.trans h.timers
  doing := h'.doing.trans h.doing
  pool k := (h'.pool k).trans (h.pool k)
  stopped p hp := h'.stopped p (h.stopped p hp)
  log := hl ▸ h'.log
  booked hb := h'.booked (h.booked hb)
  armed e a g hx := h.armed e a g (h'.armed e a g hx)
  taken hb e a g hx := by
    rcases h'.taken (h.booked hb) e a g hx with hx | hx
    · exact h.taken hb e a g hx
    · exact Or.inr (h.armed e a g hx)
  keepsArmed hb e a g hx := by
    rcases h.keepsArmed hb e a g hx with hx | hx | hx
    · exact h'.keepsArmed (h.booked hb) e a g hx
    · exact Or.inr (h'.keepsTaken (h.booked hb) e a g hx)
    · exact Or.inr (Or.inr hx)
  keepsTaken hb e a g hx := by
    rcases h.keepsTaken hb e a g hx with hx | hx
    · exact h'.keepsTaken (h.booked hb) e a g hx
    · exact Or.inr hx

/-- A queue is replaced by one that has no timeouts of its own. -/
theorem setTasks {l : List Task} (hl : ∀ p g, Task.timeout p g ∈ l →
      Task.timeout p g ∈ s.tasks e)
    (hlost : ∀ (p : NodePtr) g, Task.timeout p g ∈ s.tasks e →
      Task.timeout p g ∈ l ∨ L e p.node g) :
    Flows s (s.setTasks e l) L where
  timers := objects_setTasks
  doing := doing_setTasks
  pool := pool_setTasks
  stopped p h := by
    rw [services_setTasks]
    exact h
  log := Or.inl log_setTasks
  booked := booked_setTasks
  armed _ _ _ := armed_setTasks.mp
  taken _ e' a g h := by
    rcases taken_setTasks h with h | ⟨rfl, p, hp, hmem⟩
    · exact Or.inl h
    · cases e' with
      | loop t =>
          rw [Taken, batches_setTasks] at h
          exact Or.inl h
      | strand k => exact Or.inl (Or.inr ⟨p, hp, hl p g hmem⟩)
  keepsArmed _ _ _ _ h := Or.inl (armed_setTasks.mpr h)
  keepsTaken _ e' a g h := by
    by_cases hx : L e' a g
    · exact Or.inr hx
    · refine Or.inl (h.setTasks fun p he hp hmem => ?_)
      rcases hlost p g hmem with hmem | hmem
      · exact hmem
      · exact absurd (hp ▸ he ▸ hmem) hx

/-- A task other than a timeout is posted. -/
theorem post {t : Task} (ht : ∀ p g, t ≠ .timeout p g) : Flows s (s.post e t) L := by
  refine setTasks (fun p g hmem => ?_) fun p g hmem => Or.inl (List.mem_append_left _ hmem)
  rcases List.mem_append.mp hmem with hmem | hmem
  · exact hmem
  · exact absurd (List.mem_singleton.mp hmem).symm (ht p g)

/-- A task is taken from a queue. -/
theorem pop {k : Task} {rest : List Task} (hq : s.tasks e = k :: rest)
    (hlost : ∀ (p : NodePtr) g, k = .timeout p g → L e p.node g) :
    Flows s (s.setTasks e rest) L := by
  refine setTasks (fun p g hmem => hq ▸ List.mem_cons_of_mem k hmem) fun p g hmem => ?_
  rcases List.mem_cons.mp (hq ▸ hmem) with hmem | hmem
  · exact Or.inr (hlost p g hmem.symm)
  · exact Or.inl hmem

/-- A loop takes the due entries. -/
theorem take {t : ThreadId} : Flows s
    { s with
      loops := Function.update s.loops t ((s.loops t).takeDueTimers s.now).2
      batches := Function.update s.batches t
        (((s.loops t).takeDueTimers s.now).1 ++ s.batches t) } L where
  timers := rfl
  doing := rfl
  pool _ := rfl
  stopped _ h := h
  log := Or.inl rfl
  booked h := ⟨h.indexed, h.home⟩
  armed e a g h := by
    cases e with
    | strand k => exact h
    | loop t' =>
        by_cases ht : t' = t
        · subst ht
          obtain ⟨x, hx, rfl, rfl⟩ := h
          simp only [Function.update_self, EventLoop.takeDueTimers] at hx
          exact ⟨x, (List.mem_filter.mp hx).1, rfl, rfl⟩
        · simp only [Armed, Function.update_of_ne ht] at h
          exact h
  taken _ e a g h := by
    cases e with
    | strand k => exact Or.inl h
    | loop t' =>
        by_cases ht : t' = t
        · subst ht
          obtain ⟨x, hx, rfl, rfl⟩ := h
          simp only [Function.update_self, EventLoop.takeDueTimers] at hx
          rcases List.mem_append.mp hx with hx | hx
          · exact Or.inr ⟨x, (List.mem_filter.mp hx).1, rfl, rfl⟩
          · exact Or.inl ⟨x, hx, rfl, rfl⟩
        · simp only [Taken, Function.update_of_ne ht] at h
          exact Or.inl h
  keepsArmed _ e a g h := by
    cases e with
    | strand k => exact Or.inl h
    | loop t' =>
        by_cases ht : t' = t
        · subst ht
          obtain ⟨x, hx, rfl, rfl⟩ := h
          simp only [Armed, Taken, Function.update_self, EventLoop.takeDueTimers]
          by_cases hd : x.deadline ≤ s.now
          · exact Or.inr (Or.inl ⟨x, List.mem_append_left _
              (List.mem_filter.mpr ⟨hx, by simpa using hd⟩), rfl, rfl⟩)
          · exact Or.inl ⟨x, List.mem_filter.mpr ⟨hx, by simpa using hd⟩, rfl, rfl⟩
        · simp only [Armed, Function.update_of_ne ht]
          exact Or.inl h
  keepsTaken _ e a g h := by
    cases e with
    | strand k => exact Or.inl h
    | loop t' =>
        by_cases ht : t' = t
        · subst ht
          obtain ⟨x, hx, rfl, rfl⟩ := h
          simp only [Taken, Function.update_self]
          exact Or.inl ⟨x, List.mem_append_right _ hx, rfl, rfl⟩
        · simp only [Taken, Function.update_of_ne ht]
          exact Or.inl h

/-- A loop takes the head of its batch. -/
theorem popBatch {t : ThreadId} {x : TimerEntry} {rest : List TimerEntry}
    (hb : s.batches t = x :: rest) (hlost : L (.loop t) x.timer x.generation) :
    Flows s { s with batches := Function.update s.batches t rest } L where
  timers := rfl
  doing := rfl
  pool _ := rfl
  stopped _ h := h
  log := Or.inl rfl
  booked h := ⟨h.indexed, h.home⟩
  armed e a g h := by
    cases e <;> exact h
  taken _ e a g h := by
    cases e with
    | strand k => exact Or.inl h
    | loop t' =>
        by_cases ht : t' = t
        · subst ht
          obtain ⟨y, hy, rfl, rfl⟩ := h
          simp only [Function.update_self] at hy
          exact Or.inl ⟨y, hb ▸ List.mem_cons_of_mem x hy, rfl, rfl⟩
        · simp only [Taken, Function.update_of_ne ht] at h
          exact Or.inl h
  keepsArmed _ e a g h := by
    cases e <;> exact Or.inl h
  keepsTaken _ e a g h := by
    cases e with
    | strand k => exact Or.inl h
    | loop t' =>
        by_cases ht : t' = t
        · subst ht
          obtain ⟨y, hy, rfl, rfl⟩ := h
          simp only [Taken, Function.update_self]
          rcases List.mem_cons.mp (hb ▸ hy) with rfl | hy
          · exact Or.inr hlost
          · exact Or.inl ⟨y, hy, rfl, rfl⟩
        · simp only [Taken, Function.update_of_ne ht]
          exact Or.inl h

/-- A service that takes the due entries loses none, and gets none. -/
theorem mem_serviceTake {p : PoolId} (hd : s.due p = []) (q : PoolId) (x : ServiceEntry) :
    let services := Function.update s.services p ((s.services p).takeDue s.now).2
    let due := Function.update s.due p ((s.services p).takeDue s.now).1
    (x ∈ (s.services q).queue ∨ x ∈ s.due q ↔ x ∈ (services q).queue ∨ x ∈ due q) ∧
      (x ∈ (services q).queue → x ∈ (s.services q).queue) ∧ (x ∈ s.due q → x ∈ due q) := by
  have hsplit : x ∈ (s.services p).queue ↔ x ∈ ((s.services p).takeDue s.now).1 ∨
      x ∈ ((s.services p).takeDue s.now).2.queue := TimerService.mem_queue_takeDue
  dsimp only
  by_cases hq : q = p
  · subst hq
    rw [Function.update_self, Function.update_self, hd]
    refine ⟨?_, fun hx => hsplit.mpr (Or.inr hx), fun hx => absurd hx List.not_mem_nil⟩
    rw [or_iff_left List.not_mem_nil, hsplit, or_comm]
  · rw [Function.update_of_ne hq, Function.update_of_ne hq]
    exact ⟨Iff.rfl, id, id⟩

/-- The thread of a service takes the due entries. -/
theorem serviceTake {p : PoolId} (hd : s.due p = []) : Flows s
    { s with
      services := Function.update s.services p ((s.services p).takeDue s.now).2
      due := Function.update s.due p ((s.services p).takeDue s.now).1 } L where
  timers := rfl
  doing := rfl
  pool _ := rfl
  stopped q h := by
    by_cases hq : q = p
    · subst hq
      simp only [Function.update_self]
      exact h
    · simp only [Function.update_of_ne hq]
      exact h
  log := Or.inl rfl
  booked h := by
    refine ⟨fun q => ?_, fun q x hx => h.home q x ((mem_serviceTake hd q x).1.mpr hx)⟩
    by_cases hq : q = p
    · subst hq
      simp only [Function.update_self]
      exact (h.indexed _).takeDue
    · simp only [Function.update_of_ne hq]
      exact h.indexed q
  armed e a g h := by
    cases e with
    | loop t => exact h
    | strand k =>
        obtain ⟨x, hx, heq⟩ := h
        exact ⟨x, (mem_serviceTake hd _ x).2.1 hx, heq⟩
  taken _ e a g h := by
    cases e with
    | loop t => exact Or.inl h
    | strand k =>
        rcases h with ⟨x, hx, heq⟩ | h
        · rcases (mem_serviceTake hd _ x).1.mpr (Or.inr hx) with hx | hx
          · exact Or.inr ⟨x, hx, heq⟩
          · exact Or.inl (Or.inl ⟨x, hx, heq⟩)
        · exact Or.inl (Or.inr h)
  keepsArmed _ e a g h := by
    cases e with
    | loop t => exact Or.inl h
    | strand k =>
        obtain ⟨x, hx, heq⟩ := h
        rcases (mem_serviceTake hd _ x).1.mp (Or.inl hx) with hx | hx
        · exact Or.inl ⟨x, hx, heq⟩
        · exact Or.inr (Or.inl (Or.inl ⟨x, hx, heq⟩))
  keepsTaken _ e a g h := by
    cases e with
    | loop t => exact Or.inl h
    | strand k =>
        rcases h with ⟨x, hx, heq⟩ | h
        · exact Or.inl (Or.inl ⟨x, (mem_serviceTake hd _ x).2.2 hx, heq⟩)
        · exact Or.inl (Or.inr h)

/-- The thread of a service posts an entry that it has taken. -/
theorem servicePost {p : PoolId} {x : ServiceEntry} {rest : List ServiceEntry}
    (hd : s.due p = x :: rest) : Flows s
    ({ s with due := Function.update s.due p rest }.post
      (.strand x.strand) (.timeout x.timer x.generation)) L where
  timers := objects_setTasks
  doing := doing_setTasks
  pool := pool_setTasks
  stopped p h := by
    simp only [TimerRun.post, services_setTasks]
    exact h
  log := Or.inl log_setTasks
  booked h := by
    refine booked_setTasks ⟨h.indexed, fun q y hy => ?_⟩
    by_cases hq : q = p
    · subst hq
      simp only [Function.update_self] at hy
      exact h.home q y (hy.imp_right fun hy => hd ▸ List.mem_cons_of_mem x hy)
    · simp only [Function.update_of_ne hq] at hy
      exact h.home q y hy
  armed e a g h := by
    have h' := armed_setTasks.mp h
    cases e <;> exact h'
  taken hb e a g h := by
    rcases taken_setTasks h with h | ⟨rfl, q, hqa, hmem⟩
    · cases e with
      | loop t => exact Or.inl h
      | strand k =>
          rcases h with ⟨y, hy, hyk, hya, hyg⟩ | h
          · refine Or.inl (Or.inl ⟨y, ?_, hyk, hya, hyg⟩)
            by_cases hq : (s.strands k).pool = p
            · simp only [hq, Function.update_self] at hy
              rw [hq, hd]
              exact List.mem_cons_of_mem x hy
            · simp only [Function.update_of_ne hq] at hy
              exact hy
          · exact Or.inl (Or.inr h)
    · rcases List.mem_append.mp hmem with hmem | hmem
      · exact Or.inl (Or.inr ⟨q, hqa, hmem⟩)
      · obtain ⟨rfl, rfl⟩ := Task.timeout.inj (List.mem_singleton.mp hmem)
        have hx : x ∈ s.due p := hd ▸ List.mem_cons_self
        refine Or.inl (Or.inl ⟨x, ?_, rfl, hqa, rfl⟩)
        rw [hb.home p x (Or.inr hx)]
        exact hx
  keepsArmed _ e a g h := by
    refine Or.inl (armed_setTasks.mpr ?_)
    cases e <;> exact h
  keepsTaken hb e a g h := by
    cases e with
    | loop t =>
        rw [Taken, TimerRun.post, batches_setTasks]
        exact Or.inl h
    | strand k =>
        refine Or.inl ?_
        rcases h with ⟨y, hy, rfl, rfl, rfl⟩ | ⟨q, hqa, hmem⟩
        · by_cases hyx : y = x
          · subst hyx
            refine Or.inr ⟨y.timer, rfl, ?_⟩
            rw [TimerRun.post, tasks_setTasks, if_pos rfl]
            exact List.mem_append_right _ List.mem_cons_self
          · refine Or.inl (due_iff_setTasks.mpr ⟨y, ?_, rfl, rfl, rfl⟩)
            by_cases hq : (s.strands y.strand).pool = p
            · rw [hq, hd] at hy
              simp only [hq, Function.update_self]
              exact (List.mem_cons.mp hy).resolve_left hyx
            · simp only [Function.update_of_ne hq]
              exact hy
        · refine Or.inr ⟨q, hqa, ?_⟩
          rw [TimerRun.post, tasks_setTasks]
          split
          · rename_i hk
            exact List.mem_append_left _ (hk ▸ hmem)
          · exact hmem

/-- A service stops: the entries of its strands are gone. -/
theorem serviceStop {p : PoolId} (hlost : ∀ k a g, (s.strands k).pool = p → L (.strand k) a g) :
    Flows s { s with services := Function.update s.services p (s.services p).stop } L where
  timers := rfl
  doing := rfl
  pool _ := rfl
  stopped q h := by
    by_cases hq : q = p
    · subst hq
      simp only [Function.update_self]
      rfl
    · simp only [Function.update_of_ne hq]
      exact h
  log := Or.inl rfl
  booked h := by
    constructor
    · intro q
      by_cases hq : q = p
      · subst hq
        simp only [Function.update_self]
        exact TimerService.Indexed.stop
      · simp only [Function.update_of_ne hq]
        exact h.indexed q
    · intro q x hx
      by_cases hq : q = p
      · subst hq
        simp only [Function.update_self, TimerService.queue_stop, List.not_mem_nil,
          false_or] at hx
        exact h.home q x (Or.inr hx)
      · simp only [Function.update_of_ne hq] at hx
        exact h.home q x hx
  armed e a g h := by
    cases e with
    | loop t => exact h
    | strand k =>
        obtain ⟨x, hx, hxk, hxa, hxg⟩ := h
        refine ⟨x, ?_, hxk, hxa, hxg⟩
        simp only [service] at hx ⊢
        by_cases hq : (s.strands k).pool = p
        · rw [hq, Function.update_self, TimerService.queue_stop] at hx
          exact absurd hx List.not_mem_nil
        · rw [Function.update_of_ne hq] at hx
          exact hx
  taken _ e a g h := by
    cases e <;> exact Or.inl h
  keepsArmed _ e a g h := by
    cases e with
    | loop t => exact Or.inl h
    | strand k =>
        by_cases hq : (s.strands k).pool = p
        · exact Or.inr (Or.inr (hlost k a g hq))
        · obtain ⟨x, hx, hxk, hxa, hxg⟩ := h
          refine Or.inl ⟨x, ?_, hxk, hxa, hxg⟩
          simp only [service, Function.update_of_ne hq]
          exact hx
  keepsTaken _ e a g h := by
    cases e <;> exact Or.inl h

end Flows

/-! ### Work in progress -/

section Work

variable (s)

/-- What an executor is in the middle of agrees with the timer, and with the entries. -/
def WorkOk (e : ExecutorId) : TimerWork → Prop
  | .idle => True
  | .arm a _ g => ∃ T, s.timers a = some T ∧ T.state.active = true ∧ T.state.generation = g
  | .rearm a _ g f =>
      ∃ T, s.timers a = some T ∧ T.state.active = true ∧ T.state.generation = g ∧ f < g
  | .disarm a => ∃ T, s.timers a = some T ∧ T.state.active = false
  | .emit a f _ => ∃ T, s.timers a = some T ∧ f < T.state.generation
  | .leave a _ => (∃ T, s.timers a = some T ∧ T.owner = e) ∧ ∀ e' g, ¬ s.Armed e' a g
  | .enter a => (∃ T, s.timers a = some T) ∧ ∀ e' g, ¬ s.Armed e' a g
  | .destroy a => ∃ T, s.timers a = some T ∧ T.state.active = false

/-- Nobody but `e` is in the middle of something with the timer. -/
def Free (e : ExecutorId) (a : Addr) : Prop :=
  ∀ e', e' ≠ e → (s.doing e').timer? ≠ some a

/-- **The invariant**: no timer is worked on by two executors, work in progress agrees with its
timer, an entry that waits is with the owner of its timer, and no entry is of a generation that is
still to come. -/
structure Inv : Prop where
  booked : s.Booked
  sole : ∀ e a, (s.doing e).timer? = some a → s.Free e a
  work : ∀ e, s.WorkOk e (s.doing e)
  armed : ∀ e a g, s.Armed e a g → ∃ T, s.timers a = some T ∧ T.owner = e ∧
    g ≤ T.state.generation
  taken : ∀ e a g, s.Taken e a g → ∀ T, s.timers a = some T → g ≤ T.state.generation

end Work

/-- Work goes on to agree with its timer when neither changes. -/
theorem WorkOk.mono {k : TimerWork} (h : s.WorkOk e k)
    (ht : ∀ a, k.timer? = some a → s'.timers a = s.timers a)
    (ha : ∀ a, k.timer? = some a → ∀ e g, s'.Armed e a g → s.Armed e a g) : s'.WorkOk e k := by
  cases k with
  | idle => trivial
  | arm a d g | rearm a d g f | disarm a | emit a f b | destroy a =>
      simp only [WorkOk, ht _ rfl]
      exact h
  | leave a target | enter a =>
      simp only [WorkOk, ht _ rfl]
      exact ⟨h.1, fun e' g hx => h.2 e' g (ha _ rfl e' g hx)⟩

/-- Passing entries on keeps the invariant. -/
theorem Inv.flows {L : ExecutorId → Addr → ℕ → Prop} (hi : s.Inv) (hf : Flows s s' L) :
    s'.Inv where
  booked := hf.booked hi.booked
  sole e a h := by
    rw [Free, hf.doing]
    exact hi.sole e a (hf.doing ▸ h)
  work e := by
    rw [hf.doing]
    exact (hi.work e).mono (fun a _ => by rw [hf.timers]) fun a _ e' g => hf.armed e' a g
  armed e a g h := by
    rw [hf.timers]
    exact hi.armed e a g (hf.armed e a g h)
  taken e a g h T hT := by
    rw [hf.timers] at hT
    rcases hf.taken hi.booked e a g h with h | h
    · exact hi.taken e a g h T hT
    · obtain ⟨T', hT', -, hle⟩ := hi.armed e a g h
      obtain rfl := Option.some.inj (hT.symm.trans hT')
      exact hle

end TimerRun

end SimplyNode
