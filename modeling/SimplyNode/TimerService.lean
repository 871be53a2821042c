import SimplyNode.Lib.IndexedQueue
import SimplyNode.Executor

/-!
# The Timer Service of a Task Pool

`TimerService` keeps the deadlines of the timers that strands own: `m_queue`, a multimap in the
order of the deadlines, and `m_index`, which finds the entry of a timer. Its thread takes the
due entries out under the mutex and posts each to its strand afterwards.

## Main results

* `Serves`: the plain list of entries that a `TaskPool` carries is what a timer service has in its
  queue, and `schedule` and `cancel` do the same to both.
-/

namespace SimplyNode

/-- The data members of a `TimerService`: `m_queue` with `m_index`, and `m_stopped`. -/
structure TimerService where
  entries : IndexedQueue Addr ServiceEntry := {}
  stopped : Bool := false

/-- The key of an entry in `m_index`: `timer.get()`. -/
def ServiceEntry.name (e : ServiceEntry) : Addr := e.timer.node

namespace TimerService

variable (v : TimerService)

/-- The entries of `m_queue`, in its order. -/
def queue : List ServiceEntry := v.entries.values

/-- `TimerService::schedule`. -/
def schedule (e : ServiceEntry) : TimerService :=
  if v.stopped then v
  else { v with entries := v.entries.replace ServiceEntry.name ServiceEntry.deadline e }

/-- `TimerService::cancel`. -/
def cancel (a : Addr) : TimerService := { v with entries := v.entries.erase a }

/-- The part of `TimerService::run` under the mutex: takes every due entry out. -/
def takeDue (now : TimePoint) : List ServiceEntry × TimerService :=
  let r := v.entries.takeDue ServiceEntry.name (·.deadline ≤ now)
  (r.1, { v with entries := r.2 })

/-- The part of `TimerService::stop` under the mutex. -/
def stop : TimerService := { entries := v.entries.clear, stopped := true }

/-- `m_queue` and `m_index` are in bijection. -/
def Indexed : Prop := v.entries.Indexed ServiceEntry.name

variable {v} {e x : ServiceEntry} {a : Addr} {now : TimePoint}

/-! ### The bijection is kept -/

theorem Indexed.schedule (h : v.Indexed) : (v.schedule e).Indexed := by
  rw [TimerService.schedule]
  split
  · exact h
  · change IndexedQueue.Indexed _ (v.entries.replace _ ServiceEntry.deadline e)
    exact IndexedQueue.Indexed.replace h e

theorem Indexed.cancel (h : v.Indexed) : (v.cancel a).Indexed :=
  IndexedQueue.Indexed.erase h a

theorem Indexed.takeDue (h : v.Indexed) : (v.takeDue now).2.Indexed :=
  IndexedQueue.Indexed.takeDue h

theorem Indexed.stop : v.stop.Indexed :=
  IndexedQueue.Indexed.clear

/-! ### The entries -/

/-- A schedule replaces the entry of its timer. -/
theorem mem_queue_schedule (h : v.Indexed) (hs : v.stopped = false) :
    x ∈ (v.schedule e).queue ↔ x = e ∨ x ∈ v.queue ∧ x.name ≠ e.name := by
  rw [schedule, if_neg (by simp [hs])]
  exact IndexedQueue.mem_values_replace h

/-- A stopped service ignores a schedule. -/
theorem schedule_of_stopped (hs : v.stopped = true) : v.schedule e = v := by
  rw [schedule, if_pos hs]

/-- A schedule neither stops nor restarts the service. -/
theorem stopped_schedule : (v.schedule e).stopped = v.stopped := by
  by_cases hs : v.stopped = true
  · rw [schedule_of_stopped hs]
  · rw [schedule, if_neg hs]

/-- A cancelled timer has no entry. -/
theorem mem_queue_cancel (h : v.Indexed) :
    x ∈ (v.cancel a).queue ↔ x ∈ v.queue ∧ x.name ≠ a := by
  simp [queue, cancel, IndexedQueue.values_erase h]

/-- An entry is taken or stays. -/
theorem mem_queue_takeDue :
    x ∈ v.queue ↔ x ∈ (v.takeDue now).1 ∨ x ∈ (v.takeDue now).2.queue := by
  have hsplit := List.takeWhile_append_dropWhile (p := fun x : ServiceEntry => x.deadline ≤ now)
    (l := v.queue)
  rw [queue, takeDue, queue, IndexedQueue.takeDue_fst, IndexedQueue.values_takeDue]
  rw [← List.mem_append]
  exact iff_of_eq (congrArg (x ∈ ·) hsplit.symm)

theorem queue_stop : v.stop.queue = [] := rfl

/-! ### The list of a task pool -/

/-- The service has the entries that the pool carries. -/
structure Serves (v : TimerService) (p : TaskPool) : Prop where
  indexed : v.Indexed
  queue : v.queue = p.timers
  stopped : v.stopped = p.timersStopped

/-- **Scheduling through the index** is what the pool does to its list. -/
theorem Serves.schedule {p : TaskPool} (h : Serves v p) (e : ServiceEntry) :
    Serves (v.schedule e) (p.scheduleTimer e) where
  indexed := h.indexed.schedule
  queue := by
    rw [TimerService.schedule, TaskPool.scheduleTimer, h.stopped]
    split
    · exact h.queue
    · have hq : v.entries.values = p.timers := h.queue
      have hv : (v.entries.replace ServiceEntry.name ServiceEntry.deadline e).values = _ :=
        IndexedQueue.values_replace h.indexed e
      rw [TimerService.queue, hv, hq]
      rfl
  stopped := by
    have hs := h.stopped
    rw [TimerService.schedule, TaskPool.scheduleTimer, ← hs]
    split
    · exact hs
    · rfl

/-- **Cancelling through the index** is what the pool does to its list. -/
theorem Serves.cancel {p : TaskPool} (h : Serves v p) (a : Addr) :
    Serves (v.cancel a) (p.cancelTimer a) where
  indexed := h.indexed.cancel
  queue := by
    have hq : v.entries.values = p.timers := h.queue
    rw [TimerService.queue, TimerService.cancel, IndexedQueue.values_erase h.indexed, hq]
    rfl
  stopped := h.stopped

end TimerService

end SimplyNode
