import SimplyNode.Executor
import SimplyNode.Lib.Monitor
import SimplyNode.Lib.Transition

/-!
# The Wait of an Event Loop

`EventLoop::run` processes what there is and then waits: until the earliest deadline in `m_timers`
if there is one, and without a deadline otherwise. Both waits end when there is work to do. The
wait without a deadline ends for a timer, too; the wait with a deadline does not look at `m_timers`
again, so a timer that is added to a sleeping loop with an earlier deadline does not move the
deadline of the wait.

A step is one section of the source under `m_mutex`, or one `notify_one`. User code is not data
here: slots, `update()` and other threads make calls at any time.

## Main results

* `Punctual.step`: what a step with a timely call keeps.
* `wait_covers_timers`: as long as no timer is scheduled for a deadline before the one that a loop
  without work is waiting for, a blocked loop wakes up in time for every timer.
* `oversleeps_of_earlier`: such a timer is overslept, whatever the loop was waiting for.
* `earlier_timer_overslept`: a run in which this happens.
-/

open Transition

namespace SimplyNode

namespace EventLoop

variable (l : EventLoop)

/-- `EventLoop::popNextTask`. -/
def popNextTask : Option (Task × EventLoop) :=
  match l.tasks with
  | [] => none
  | t :: rest => some (t, { l with tasks := rest })

/-- `EventLoop::takeReadyIO`. -/
def takeReadyIO : List ℕ × EventLoop := ( l.readyIO, { l with readyIO := [] })

/-- `EventLoop::nextTimerDeadlineLocked`. -/
def nextTimerDeadline : Option TimePoint := (l.timers.map (·.deadline)).min?

/-- The predicate of the wait with a deadline. -/
def hasWork : Bool :=
  l.stop || !l.tasks.isEmpty || !l.nodesToDelete.isEmpty || ! l.readyIO.isEmpty

/-- The predicate of the wait, with or without a deadline. -/
def endsWait : Option TimePoint → Bool
  | some _ => l.hasWork
  | none => l.hasWork || !l.timers.isEmpty

/-- Work that stays until the loop itself takes it. -/
def Pressing : Prop := l.stop = true ∨ l.tasks ≠ [] ∨ l.nodesToDelete ≠ []

end EventLoop

/-- The sections of an event loop that other threads, and user code, enter. `queueIO` is the one of
the I/O thread. -/
inductive LoopCall
  | post (t : Task)
  | enqueueDelete (a : Addr)
  | addNode (a : Addr)
  | removeNode (a : Addr)
  | addRootNode (a : Addr)
  | removeRootNode (a : Addr)
  | scheduleTimer (a : Addr) (deadline : TimePoint) (generation : ℕ)
  | cancelTimer (a : Addr)
  | queueIO (fd : ℕ)
  | unregisterIO (fd : ℕ)
  | stop
  | retire
  deriving DecidableEq

namespace LoopCall

/-- What a call does under `m_mutex`. -/
def apply (l : EventLoop) : LoopCall → EventLoop
  | post t => l.post t
  | enqueueDelete a => l.enqueueDelete a
  | addNode a => l.addNode a
  | removeNode a => l.removeNode a
  | addRootNode a => l.addRootNode a
  | removeRootNode a => l.removeRootNode a
  | scheduleTimer a deadline generation => l.scheduleTimer a deadline generation
  | cancelTimer a => l.cancelTimer a
  | queueIO fd => { l with readyIO := l.readyIO ++ [fd] }
  | unregisterIO fd => { l with readyIO := l.readyIO.filter (· ≠ fd) }
  | stop => { l with stop := true }
  | retire => { l with retired := true }

/-- The call ends with `m_condition.notify_one()`. -/
def notifies (l : EventLoop) : LoopCall → Bool
  | post _ | addRootNode _ | scheduleTimer .. | cancelTimer _ | queueIO _ => true
  | enqueueDelete a => a ∉ l.nodesToDelete
  | addNode _ | removeNode _ | removeRootNode _ | unregisterIO _ | stop | retire => false

end LoopCall

/-- Where the thread of the loop is: outside of `run()`, before one of its sections, or in the
wait. -/
inductive LoopPhase
  | left
  | tasks
  | deletes
  | timers
  | io
  | roots
  | wait
  deriving DecidableEq

/-- An event loop and its thread. The waiter's parameter is the deadline it waits for. -/
structure LoopRun where
  monitor : Monitor EventLoop (Option TimePoint)
  phase : LoopPhase
  now : TimePoint

namespace LoopRun

variable (s : LoopRun)

/-- The data of the loop. -/
abbrev loop : EventLoop := s.monitor.shared

/-- The thread changes the data of the loop and goes on. -/
def goOn (l : EventLoop) (phase : LoopPhase) : LoopRun :=
  { s with monitor := s.monitor.change fun _ => l, phase := phase }

/-- A call is made. -/
def call (c : LoopCall) : LoopRun :=
  let m := s.monitor.change fun l => c.apply l
  { s with
    monitor := if c = .stop then m.wake else if c.notifies s.loop then m.signal else m }

/-- The wait is over: the loop goes on, or `run()` returns. -/
def endWait : LoopRun :=
  { s with
    monitor := (s.monitor.change fun l =>
      { l with stop := false, running := !l.stop }).resume
    phase := if s.loop.stop then .left else .tasks }

/-- The predicate of the wait is evaluated. -/
def await (deadline : Option TimePoint) : LoopRun :=
  if s.loop.endsWait deadline then s.endWait
  else { s with monitor := s.monitor.await (fun w l => l.endsWait w) deadline }

/-- The next section of `run()`. A call of `run()` outside of it begins with the first one. -/
def advance : LoopRun :=
  match s.phase with
  | .left => s.goOn { s.loop with running := true } .tasks
  | .tasks =>
      match s.loop.popNextTask with
      | some (_, l) => s.goOn l .tasks
      | none => s.goOn s.loop .deletes
  | .deletes => s.goOn s.loop.takePendingDeletes.2 .timers
  | .timers => s.goOn (s.loop.takeDueTimers s.now).2 .io
  | .io => s.goOn s.loop.takeReadyIO.2 .roots
  | .roots => s.goOn s.loop .wait
  | .wait => if s.loop.stop then s.endWait else s.await s.loop.nextTimerDeadline

end LoopRun

/-- The steps of a run. `advance` is made by the loop's thread while it does not sleep; `wake`
evaluates the predicate, after a notification or spuriously. -/
inductive LoopStep
  | advance
  | wake
  | timeout
  | call (c : LoopCall)
  | notify
  | tick (now : TimePoint)
  deriving DecidableEq

namespace LoopRun

/-- **One step of a run.** -/
inductive Step : LoopRun → LoopStep → LoopRun → Prop
  | advance {s : LoopRun} : s.monitor.waiting = none → Step s .advance s.advance
  | wake {s : LoopRun} {w : Option TimePoint} :
      s.monitor.waiting = some w → Step s .wake (s.await w)
  | timeout {s : LoopRun} {d : TimePoint} :
      s.monitor.waiting = some (some d) → d ≤ s.now → Step s .timeout s.endWait
  | call {s : LoopRun} {c : LoopCall} : Step s (.call c) (s.call c)
  | notify {s : LoopRun} :
      0 < s.monitor.signals → Step s .notify { s with monitor := s.monitor.notify }
  | tick {s : LoopRun} {now : TimePoint} :
      s.now ≤ now → Step s (.tick now) { s with now := now }

variable {s s' : LoopRun} {l : EventLoop} {w : Option TimePoint} {d : TimePoint} {c : LoopCall}
  {k : LoopStep}

/-- A wait that ends at `w` is in time for every timer. -/
def Covers (l : EventLoop) : Option TimePoint → Prop
  | some d => ∀ x ∈ l.timers, d ≤ x.deadline
  | none => l.timers = []

/-- The condition on a step: no timer is scheduled for a deadline before the one that the loop is
waiting for, except when the loop has work that ends the wait. -/
def Timely (s : LoopRun) (k : LoopStep) : Prop :=
  ∀ a d g w, k = .call (.scheduleTimer a d g) → s.monitor.waiting = some (some w) →
    w ≤ d ∨ s.loop.Pressing

/-- **The invariant**: no notification is missed, and a wait with a deadline is in time unless work
is going to end it. -/
structure Punctual (s : LoopRun) : Prop where
  alert : s.monitor.Alert fun w l => l.endsWait w
  timed : ∀ d, s.monitor.waiting = some (some d) → s.loop.Pressing ∨ Covers s.loop (some d)

/-! ### The sections -/

/-- The earliest deadline is in time for every timer. -/
theorem covers_nextTimerDeadline (l : EventLoop) : Covers l l.nextTimerDeadline := by
  cases h : l.nextTimerDeadline with
  | none => exact List.map_eq_nil_iff.mp (List.min?_eq_none_iff.mp h)
  | some d =>
      intro x hx
      exact (List.min?_eq_some_iff.mp h).2 _ (List.mem_map_of_mem hx)

/-- Pressing work ends every wait. -/
theorem endsWait_of_pressing (h : l.Pressing) : l.endsWait w = true := by
  have hwork : l.hasWork = true := by
    rcases h with h | h | h
    · simp [EventLoop.hasWork, h]
    · simp [EventLoop.hasWork, h]
    · simp [EventLoop.hasWork, h]
  cases w with
  | some d => exact hwork
  | none => simp [EventLoop.endsWait, hwork]

/-- No call takes pressing work away. -/
theorem pressing_apply (h : l.Pressing) : (c.apply l).Pressing := by
  cases c with
  | post t => exact Or.inr (Or.inl (by simp [LoopCall.apply, EventLoop.post]))
  | enqueueDelete a =>
      rw [LoopCall.apply, EventLoop.enqueueDelete]
      split
      · exact h
      · exact Or.inr (Or.inr (by simp))
  | stop => exact Or.inl rfl
  | _ => exact h

/-- A call without a notification ends no wait. -/
theorem endsWait_apply (hs : c ≠ .stop) (hn : c.notifies l = false)
    (h : (c.apply l).endsWait w = true) : l.endsWait w = true := by
  cases c with
  | post | addRootNode | scheduleTimer | cancelTimer | queueIO =>
      exact absurd hn (by simp [LoopCall.notifies])
  | stop => exact absurd rfl hs
  | enqueueDelete a =>
      have hmem : a ∈ l.nodesToDelete := by simpa [LoopCall.notifies] using hn
      rwa [LoopCall.apply, EventLoop.enqueueDelete, if_pos hmem] at h
  | unregisterIO fd =>
      have hio : l.readyIO = [] → l.readyIO.filter (· ≠ fd) = [] := by
        intro hnil
        rw [hnil]
        rfl
      cases w with
      | some d =>
          simp only [LoopCall.apply, EventLoop.endsWait, EventLoop.hasWork] at h ⊢
          grind
      | none =>
          simp only [LoopCall.apply, EventLoop.endsWait, EventLoop.hasWork] at h ⊢
          grind
  | _ =>
      cases w with
      | some d => exact h
      | none => exact h

/-- A timely call leaves a wait in time, or there is work that ends it. -/
theorem covers_apply (ht : ∀ a e g, c = .scheduleTimer a e g → d ≤ e)
    (h : Covers l (some d)) : Covers (c.apply l) (some d) := by
  cases c with
  | scheduleTimer a e g =>
      intro x hx
      rcases List.mem_append.mp hx with hx | hx
      · exact h x (List.mem_filter.mp hx).1
      · rw [List.mem_singleton.mp hx]
        exact ht a e g rfl
  | cancelTimer a =>
      intro x hx
      exact h x (List.mem_filter.mp hx).1
  | enqueueDelete a =>
      rw [LoopCall.apply, EventLoop.enqueueDelete]
      split
      · exact h
      · exact h
  | _ => exact h

/-! ### The step lemma -/

/-- Work that a waiter with a deadline is going to be woken by, or no timer before the deadline. -/
theorem Punctual.call (h : s.Punctual) (ht : s.Timely (.call c)) : (s.call c).Punctual where
  alert := by
    rw [LoopRun.call]
    by_cases hs : c = .stop
    · rw [if_pos hs]
      exact Monitor.alert_wake
    · rw [if_neg hs]
      split
      · exact Monitor.alert_signal
      · rename_i hn
        exact h.alert.change fun w _ hp => endsWait_apply hs (by simpa using hn) hp
  timed d hd := by
    have hwait : (s.call c).monitor.waiting = s.monitor.waiting := by
      rw [LoopRun.call]
      dsimp only
      split
      · rfl
      · split <;> rfl
    have hloop : (s.call c).loop = c.apply s.loop := by
      rw [LoopRun.loop, LoopRun.call]
      dsimp only
      split
      · rfl
      · split <;> rfl
    rw [hwait] at hd
    rw [hloop]
    by_cases hp : s.loop.Pressing
    · exact Or.inl (pressing_apply hp)
    · rcases h.timed d hd with hpress | hcov
      · exact absurd hpress hp
      · refine Or.inr (covers_apply (fun a e g hc => ?_) hcov)
        rcases ht a e g d (congrArg _ hc) hd with hle | hpress
        · exact hle
        · exact absurd hpress hp

/-- While the loop does not sleep there is nothing to be in time for. -/
theorem punctual_of_not_waiting (h : s.monitor.waiting = none) : s.Punctual where
  alert := Monitor.alert_of_not_waiting h
  timed d hd := absurd (h.symm.trans hd) (by simp)

theorem waiting_endWait : s.endWait.monitor.waiting = none := rfl

/-- Going to sleep, or back to sleep, with a deadline that is in time. -/
theorem punctual_await (h : ∀ d, w = some d → s.loop.endsWait w = false →
    Covers s.loop (some d)) : (s.await w).Punctual := by
  rw [await]
  split
  · exact punctual_of_not_waiting waiting_endWait
  · rename_i hfalse
    constructor
    · exact Monitor.alert_await
    · intro d hd
      rw [Monitor.waiting_await, if_neg hfalse] at hd
      obtain rfl := Option.some.inj hd
      have hloop : (s.monitor.await (fun w l => EventLoop.endsWait l w) (some d)).shared =
          s.loop := Monitor.shared_await
      rw [loop, hloop]
      exact Or.inr (h d rfl (by simpa using hfalse))

/-- **The step lemma.** -/
theorem Punctual.step (h : s.Punctual) (ht : s.Timely k) (hst : Step s k s') :
    s'.Punctual := by
  cases hst with
  | advance hw =>
      have hgo : ∀ l p, (s.goOn l p).Punctual := fun l p => punctual_of_not_waiting hw
      rw [advance]
      cases hp : s.phase with
      | tasks =>
          dsimp only
          split
          · exact hgo ..
          · exact hgo ..
      | wait =>
          dsimp only
          split
          · exact punctual_of_not_waiting waiting_endWait
          · exact punctual_await fun d hd _ => hd ▸ covers_nextTimerDeadline s.loop
      | left | deletes | timers | io | roots => exact hgo ..
  | @wake w hw =>
      refine punctual_await fun d hd hfalse => ?_
      subst hd
      rcases h.timed d hw with hpress | hcov
      · exact absurd ((endsWait_of_pressing hpress).symm.trans hfalse) (by simp)
      · exact hcov
  | timeout => exact punctual_of_not_waiting waiting_endWait
  | call => exact h.call ht
  | notify hpos => exact ⟨Monitor.alert_notify, h.timed⟩
  | tick => exact ⟨h.alert, h.timed⟩

/-! ### Runs -/

/-- A blocked loop that is punctual wakes up in time. -/
theorem Punctual.covers (h : s.Punctual) (hb : s.monitor.Blocked)
    (hw : s.monitor.waiting = some w) : Covers s.loop w := by
  have hfalse : s.loop.endsWait w = false := h.alert.not_of_blocked hb hw
  cases w with
  | none =>
      simp only [EventLoop.endsWait, Bool.or_eq_false_iff] at hfalse
      simpa [Covers] using hfalse.2
  | some d =>
      rcases h.timed d hw with hpress | hcov
      · exact absurd ((endsWait_of_pressing hpress).symm.trans hfalse) (by simp)
      · exact hcov

/-- **A blocked loop oversleeps no timer**, as long as no timer is scheduled for a deadline before
the one that a loop without work is waiting for: the deadline of its wait is not after the deadline
of any entry of `m_timers`, and if it waits without one there is no entry. -/
theorem wait_covers_timers {s s' : LoopRun} {ks : List LoopStep} {w : Option TimePoint}
    (hs : s.monitor.waiting = none) (hrun : Run Step Timely s ks s') (hb : s'.monitor.Blocked)
    (hw : s'.monitor.waiting = some w) : Covers s'.loop w := by
  have h : s'.Punctual := by
    refine Run.invariant (I := Punctual) ?_ hrun (punctual_of_not_waiting hs)
    intro s k s' h ht hst
    exact h.step ht hst
  exact h.covers hb hw

/-- A loop outside of `run()`. -/
def initial (l : EventLoop) : LoopRun := { monitor := { shared := l }, phase := .left, now := 0 }

/-- A loop without timers goes to sleep without a deadline. Another thread schedules a timer, and
the loop goes to sleep again, until the deadline of that timer. -/
theorem new_timer_shortens_wait : ∃ s' : LoopRun, s'.monitor.Blocked ∧
    s'.monitor.waiting = some (some 10) ∧ s'.loop.timers = [⟨7, 10, 1⟩] ∧
    Covers s'.loop (some 10) := by
  have hok : ∀ s : LoopRun, ∀ k, (∀ c, k ≠ .call c) → s.Timely k := by
    intro s k hk a d g w hc
    exact absurd hc (hk _)
  have hrun : ∃ s', Run Step Timely (initial {})
      (List.replicate 7 .advance ++ [.call (.scheduleTimer 7 10 1), .notify, .wake] ++
        List.replicate 6 .advance) s' ∧ s'.monitor.Blocked ∧
      s'.monitor.waiting = some (some 10) ∧ s'.loop.timers = [⟨7, 10, 1⟩] := by
    refine ⟨_, .cons (hok _ _ (by simp)) (.advance rfl) (.cons (hok _ _ (by simp)) (.advance rfl)
      (.cons (hok _ _ (by simp)) (.advance rfl) (.cons (hok _ _ (by simp)) (.advance rfl)
      (.cons (hok _ _ (by simp)) (.advance rfl) (.cons (hok _ _ (by simp)) (.advance rfl)
      (.cons (hok _ _ (by simp)) (.advance rfl) (.cons ?_ .call
      (.cons (hok _ _ (by simp)) (.notify (by decide)) (.cons (hok _ _ (by simp)) (.wake rfl)
      (.cons (hok _ _ (by simp)) (.advance rfl) (.cons (hok _ _ (by simp)) (.advance rfl)
      (.cons (hok _ _ (by simp)) (.advance rfl) (.cons (hok _ _ (by simp)) (.advance rfl)
      (.cons (hok _ _ (by simp)) (.advance rfl) (.cons (hok _ _ (by simp)) (.advance rfl)
      (.nil _)))))))))))))))), ⟨rfl, rfl, rfl⟩, rfl, rfl⟩
    intro a d g w _ hw
    exact absurd (show some none = some (some w) from hw) (by simp)
  obtain ⟨s', hrun, hb, hw, htimers⟩ := hrun
  exact ⟨s', hb, hw, htimers, wait_covers_timers rfl hrun hb hw⟩

/-- **An earlier timer is overslept** by every loop that is blocked with a deadline: it is notified,
evaluates its predicate, and sleeps on. -/
theorem oversleeps_of_earlier {e : TimePoint} (hb : s.monitor.Blocked)
    (hw : s.monitor.waiting = some (some d)) (hwork : s.loop.hasWork = false) (he : e < d)
    (a : Addr) (g : ℕ) :
    ∃ s', Reaches Step s [.call (.scheduleTimer a e g), .notify, .wake] s' ∧
      s'.monitor.Blocked ∧ s'.monitor.waiting = some (some d) ∧
      ¬ Covers s'.loop (some d) := by
  let s₂ : LoopRun := { s.call (.scheduleTimer a e g) with
    monitor := (s.call (.scheduleTimer a e g)).monitor.notify }
  have hw₂ : s₂.monitor.waiting = some (some d) := hw
  have hfalse : s₂.loop.endsWait (some d) = false := hwork
  have hsig : s₂.monitor.signals = 0 := by
    have hzero := hb.2.2
    change s.monitor.signals + 1 - 1 = 0
    omega
  have hlast : s₂.await (some d) = { s₂ with
      monitor := { s₂.monitor with waiting := some (some d), woken := false } } := by
    rw [await, if_neg (by simp [hfalse]), Monitor.await, if_neg (by simp [hfalse])]
  refine ⟨s₂.await (some d), .cons trivial .call (.cons trivial (.notify ?_)
    (.cons trivial (.wake hw₂) (.nil _))), ?_, ?_, ?_⟩
  · exact Nat.succ_pos _
  · rw [hlast]
    exact ⟨rfl, rfl, hsig⟩
  · rw [hlast]
  · intro hcov
    rw [hlast] at hcov
    have hmem : (⟨a, e, g⟩ : TimerEntry) ∈ s₂.loop.timers :=
      List.mem_append_right _ List.mem_cons_self
    exact absurd (hcov _ hmem) (by simpa using he)

/-- **A timer is overslept**: while the loop sleeps until 100, another thread schedules a timer for
50, and notifies. The loop sleeps on until 100. -/
theorem earlier_timer_overslept : ∃ s s' : LoopRun, s.monitor.waiting = none ∧
    Reaches Step s (List.replicate 7 .advance ++
      [.call (.scheduleTimer 8 50 1), .notify, .wake]) s' ∧
    s'.monitor.Blocked ∧ s'.monitor.waiting = some (some 100) ∧
    ¬ Covers s'.loop (some 100) := by
  refine ⟨initial { timers := [⟨7, 100, 1⟩] }, _, rfl, .cons trivial (.advance rfl)
    (.cons trivial (.advance rfl) (.cons trivial (.advance rfl) (.cons trivial (.advance rfl)
    (.cons trivial (.advance rfl) (.cons trivial (.advance rfl) (.cons trivial (.advance rfl)
    (.cons trivial .call (.cons trivial (.notify (by decide)) (.cons trivial (.wake rfl)
    (.nil _)))))))))), ⟨rfl, rfl, rfl⟩, rfl, ?_⟩
  intro hcov
  exact absurd (hcov ⟨8, 50, 1⟩ (List.mem_cons_of_mem _ List.mem_cons_self)) (by decide)

end LoopRun

end SimplyNode
