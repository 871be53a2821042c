import SimplyNode.Logger

/-!
# The Wake-ups of the Logger's Worker

The worker and the calls of `flush()` wait on the same condition variable, each for a predicate of
its own. A push into the queue and `stop()` make the predicate of the worker true, and notify one
waiter afterwards. A call of `flush()` that has come to wait in between may take this notification,
and goes back to sleep.

## Main results

* `alert_iff_attended`: in every state of a run the worker has no work to sleep through, iff no
  notification that the worker needed went to a call of `flush()`.
* `flush_takes_wakeup`: a run in which one did.
-/

open Transition

namespace SimplyNode

namespace Logger

variable {s s' : Logger} {main t u : ThreadId} {l : LogStep}

/-- The thread stands between its update and its notification. -/
def Notifying (s : Logger) (t : ThreadId) : Prop :=
  s.calls t = .notifying ∨ ∃ seen, s.calls t = .ending seen

/-- The worker sleeps, has something to do, and no notification has reached it. -/
def Oversleeps (s : Logger) : Prop := s.worker = .waiting false ∧ s.hasWork = true

/-- If the worker oversleeps, a notification is to come. -/
def Alert (s : Logger) : Prop := s.Oversleeps → ∃ t, s.Notifying t

/-- The condition on a step: a notification wakes the worker, unless it is awake, or has nothing
to do, or another thread is going to notify. -/
def Attended (s : Logger) (l : LogStep) : Prop :=
  ∀ t w, l = .notify t w ∨ l = .notifyStop t w → w ≠ some .worker → s.Oversleeps →
    ∃ u ≠ t, s.Notifying u

/-- At the start nobody oversleeps. -/
theorem Alert.initial {n : ℕ} : (Logger.initial n).Alert := fun h => WorkerState.noConfusion h.1

/-- The worker is not asleep. -/
theorem alert_of_awake (h : s.worker ≠ .waiting false) : s.Alert := fun hs => absurd hs.1 h

/-- A thread moves on in its call without passing its notification. -/
theorem Notifying.setCall (h : s.Notifying u) {c : CallState} (ht : ¬ s.Notifying t) :
    (s.setCall t c).Notifying u := by
  have hne : u ≠ t := by
    rintro rfl
    exact ht h
  rw [Notifying, s.calls_setCall_of_ne c hne]
  exact h

/-- A thread that moves on in its call leaves the worker, and the others, where they are. -/
theorem Alert.setCall (h : s.Alert) {c : CallState} (ht : ¬ s.Notifying t) :
    (s.setCall t c).Alert := fun hs =>
  (h hs).imp fun _ hu => hu.setCall ht

/-- A thread at another place is not about to notify. -/
theorem not_notifying_of_calls {c : CallState} (hcall : s.calls t = c) (hc : c ≠ .notifying)
    (hn : ∀ seen, c ≠ .ending seen) : ¬ s.Notifying t := by
  rintro (h | ⟨seen, h⟩)
  · exact hc (hcall.symm.trans h)
  · exact hn seen (hcall.symm.trans h)

/-- A thread that asks is not about to notify. -/
theorem not_notifying_of_asks {target : ℕ} {seen : List LogMessage} (h : s.Asks t target seen) :
    ¬ s.Notifying t := by
  rcases h with h | h
  · exact not_notifying_of_calls h (by simp) (by simp)
  · exact not_notifying_of_calls h (by simp) (by simp)

/-- The waiter that is woken does not notify anyone. -/
theorem notifying_wake {w : Waiter} (hw : s.Asleep w) :
    (s.wake w).Notifying u ↔ s.Notifying u := by
  cases w with
  | worker => exact Iff.rfl
  | caller t =>
      obtain ⟨target, seen, hcall⟩ := hw
      obtain rfl | hne := eq_or_ne u t
      · have hnext : (s.wake (.caller u)).calls u = .waiting target seen true :=
          (s.calls_setCall_self u _).trans (congrArg CallState.notified hcall)
        exact iff_of_false (not_notifying_of_calls hnext (by simp) (by simp))
          (not_notifying_of_calls hcall (by simp) (by simp))
      · rw [Notifying, Notifying, wake, s.calls_setCall_of_ne _ hne]

/-- Waking a waiter makes nobody oversleep. -/
theorem Alert.wake (h : s.Alert) {w : Waiter} (hw : s.Asleep w) : (s.wake w).Alert := by
  cases w with
  | worker => exact alert_of_awake (by simp [Logger.wake])
  | caller t => exact fun hs => (h hs).imp fun _ hu => (notifying_wake hw).mpr hu

/-- A drain makes nobody oversleep. -/
theorem alert_drain : s.drain.Alert := by
  refine alert_of_awake ?_
  rw [drain]
  split
  · simp
  · split
    · simp
    · simp

/-- **What a notification leaves behind.** Its thread does not notify any more. -/
theorem alert_notify {w : Option Waiter} {c : CallState} (hw : s.Notifies w)
    (hc : c ≠ .notifying) (hn : ∀ seen, c ≠ .ending seen) :
    ((s.notifyOne w).setCall t c).Alert ↔
      (w ≠ some .worker → s.Oversleeps → ∃ u ≠ t, s.Notifying u) := by
  have hself : ¬ ((s.notifyOne w).setCall t c).Notifying t :=
    not_notifying_of_calls (calls_setCall_self ..) hc hn
  have hother (u : ThreadId) (hne : u ≠ t) :
      ((s.notifyOne w).setCall t c).Notifying u ↔ s.Notifying u := by
    rw [Notifying, calls_setCall_of_ne _ _ hne]
    cases w with
    | none => exact Iff.rfl
    | some w => exact notifying_wake hw
  rcases w with - | - | v
  · -- no waiter is asleep, the worker neither
    have hawake : s.worker ≠ .waiting false := hw .worker
    exact iff_of_true (alert_of_awake hawake) fun _ hs => absurd hs.1 hawake
  · exact iff_of_true (alert_of_awake (by simp [notifyOne, Logger.wake, Logger.setCall]))
      fun h => absurd rfl h
  · have hs : ((s.notifyOne (some (.caller v))).setCall t c).Oversleeps ↔ s.Oversleeps := Iff.rfl
    rw [Alert, hs]
    constructor
    · intro h _ hover
      obtain ⟨u, hu⟩ := h hover
      have hne : u ≠ t := by
        rintro rfl
        exact hself hu
      exact ⟨u, hne, (hother u hne).mp hu⟩
    · intro h hover
      obtain ⟨u, hne, hu⟩ := h (by simp) hover
      exact ⟨u, (hother u hne).mpr hu⟩

/-- A step that does not notify meets the condition. -/
theorem attended_of_quiet (h : ∀ t w, l ≠ .notify t w ∧ l ≠ .notifyStop t w) : s.Attended l := by
  rintro t w (hl | hl)
  · exact absurd hl (h t w).1
  · exact absurd hl (h t w).2

/-- The step lemma: the worker stays alert iff the notification, if the step is one, reaches it or
is not needed. -/
theorem alert_step (h : s.Alert) (hst : Step main s l s') : s'.Alert ↔ s.Attended l := by
  cases hst with
  | @notify t w hcall hw =>
      refine (alert_notify hw (by simp) (by simp)).trans ⟨fun hok => ?_, fun hok => ?_⟩
      · rintro t' w' (hl | hl)
        · obtain ⟨rfl, rfl⟩ := LogStep.notify.inj hl
          exact hok
        · exact LogStep.noConfusion hl
      · exact hok t w (Or.inl rfl)
  | @notifyStop t seen w hcall hw =>
      refine (alert_notify hw (by simp) (by simp)).trans ⟨fun hok => ?_, fun hok => ?_⟩
      · rintro t' w' (hl | hl)
        · exact LogStep.noConfusion hl
        · obtain ⟨rfl, rfl⟩ := LogStep.notifyStop.inj hl
          exact hok
      · exact hok t w (Or.inr rfl)
  | setLevel => exact iff_of_true h (attended_of_quiet (by simp))
  | addSink => exact iff_of_true h (attended_of_quiet (by simp))
  | removeSink => exact iff_of_true h (attended_of_quiet (by simp))
  | clearSinks => exact iff_of_true h (attended_of_quiet (by simp))
  | log hcall =>
      exact iff_of_true (h.setCall (not_notifying_of_calls hcall (by simp) (by simp)))
        (attended_of_quiet (by simp))
  | @drawSequence t c now hcall =>
      have hnext := h.setCall (c := .drawn (c.message s.nextSequence now t))
        (not_notifying_of_calls hcall (by simp) (by simp))
      exact iff_of_true hnext (attended_of_quiet (by simp))
  | @push t m hcall =>
      refine iff_of_true ?_ (attended_of_quiet (by simp))
      rw [Logger.push]
      split
      · have hnext := h.setCall (c := .idle) (not_notifying_of_calls hcall (by simp) (by simp))
        exact hnext
      · exact fun _ => ⟨t, Or.inl (calls_setCall_self ..)⟩
  | wake hw => exact iff_of_true (h.wake hw) (attended_of_quiet (by simp))
  | flush hcall =>
      exact iff_of_true (h.setCall (not_notifying_of_calls hcall (by simp) (by simp)))
        (attended_of_quiet (by simp))
  | flushWaits hask =>
      exact iff_of_true (h.setCall (not_notifying_of_asks hask)) (attended_of_quiet (by simp))
  | flushReturns hask =>
      exact iff_of_true (h.setCall (not_notifying_of_asks hask)) (attended_of_quiet (by simp))
  | flushTimesOut hcall =>
      exact iff_of_true (h.setCall (not_notifying_of_calls hcall (by simp) (by simp)))
        (attended_of_quiet (by simp))
  | start =>
      refine iff_of_true ?_ (attended_of_quiet (by simp))
      rw [Logger.start]
      split
      · exact h
      · exact alert_of_awake (by simp)
  | stop =>
      refine iff_of_true ?_ (attended_of_quiet (by simp))
      rw [Logger.stop]
      split
      · exact fun _ => ⟨main, Or.inr ⟨_, calls_setCall_self ..⟩⟩
      · exact h
  | stopReturns => exact iff_of_true (alert_of_awake (by simp)) (attended_of_quiet (by simp))
  | await =>
      refine iff_of_true ?_ (attended_of_quiet (by simp))
      rw [Logger.await]
      split
      · exact alert_drain
      · -- the predicate has just been evaluated
        exact fun hs => absurd hs.2 ‹_›
  | drain => exact iff_of_true alert_drain (attended_of_quiet (by simp))
  | deliver =>
      exact iff_of_true (alert_of_awake (by simp [deliverToSinks])) (attended_of_quiet (by simp))
  | count => exact iff_of_true (alert_of_awake (by simp)) (attended_of_quiet (by simp))

/-- The run lemma, from any state in which the worker is alert. -/
theorem run_alert_iff {ls : List LogStep} (h : s.Alert) :
    Run (Step main) (fun u _ => u.Alert) s ls s' ∧ s'.Alert ↔
      Run (Step main) Attended s ls s' := by
  constructor
  · rintro ⟨hrun, hlast⟩
    induction hrun with
    | nil s => exact .nil s
    | @cons s v s' l ls _ hst hrest ih =>
        have hv : v.Alert := by
          cases hrest with
          | nil => exact hlast
          | cons hok _ _ => exact hok
        exact .cons ((alert_step h hst).mp hv) hst (ih hv hlast)
  · intro hrun
    induction hrun with
    | nil s => exact ⟨.nil s, h⟩
    | cons hok hst _ ih =>
        obtain ⟨hrun, hlast⟩ := ih ((alert_step h hst).mpr hok)
        exact ⟨.cons h hst hrun, hlast⟩

/-- **When the worker never misses a wake-up.** In a run of a new logger, the worker is alert in
every state iff each notification of `log()` and `stop()` that it needs wakes it. -/
theorem alert_iff_attended (n : ℕ) (ls : List LogStep) (s : Logger) :
    Run (Step main) (fun u _ => u.Alert) (initial n) ls s ∧ s.Alert ↔
      Run (Step main) Attended (initial n) ls s :=
  run_alert_iff .initial

/-- **A call of `flush()` takes the notification.** It starts between a push and its notification;
the worker goes on sleeping with a message in the queue. -/
theorem flush_takes_wakeup : ∃ ls s, Reaches (Step 0) (initial 4) ls s ∧
    s.worker = .waiting false ∧ s.queue.length = 1 ∧ ¬ s.Alert := by
  have hrun : Reaches (Step 0) (initial 4)
      [.start 0, .work, .log 1 { level := .info }, .drawSequence 1 0, .push 1, .flush 2,
        .flushWaits 2, .notify 1 (some (.caller 2))] _ :=
    .cons trivial (.start rfl) <| .cons trivial (.await (Or.inl rfl)) <|
    .cons trivial (.log rfl rfl) <| .cons trivial (.drawSequence rfl) <|
    .cons trivial (.push rfl) <| .cons trivial (.flush rfl) <|
    .cons trivial (.flushWaits (Or.inl rfl) rfl) <|
    .cons trivial (.notify rfl ⟨_, _, rfl⟩) <| .nil _
  refine ⟨_, _, hrun, rfl, rfl, fun halert => ?_⟩
  obtain ⟨t, ht⟩ := halert ⟨rfl, rfl⟩
  rcases t with - | - | - | t
  · exact not_notifying_of_calls (c := .idle) rfl (by simp) (by simp) ht
  · exact not_notifying_of_calls (c := .idle) rfl (by simp) (by simp) ht
  · exact not_notifying_of_calls (c := .waiting 1 _ true) rfl (by simp) (by simp) ht
  · exact not_notifying_of_calls (c := .idle) rfl (by simp) (by simp) ht

end Logger

end SimplyNode
