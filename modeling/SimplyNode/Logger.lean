import SimplyNode.World
import SimplyNode.Lib.Pipeline
import SimplyNode.Lib.Transition

/-!
# The Logger

`Logger::log` draws a sequence number, and enters a section under `m_queueMutex` afterwards, in
which the message goes into the bounded queue. It notifies one waiter of `m_queueCv` when the
mutex is released. The worker waits on this condition variable for a message or for `stop()`, and
so does every call of `flush()`, for the queue to be empty. `notify_one` wakes any one of them.

A section under the mutex is one step here, and so is every operation on an atomic counter
outside of it. `flush()` reads `m_enqueued` without the mutex; a push and the count of it are in
one section, and a read between the two is like one before both. The counters are 64 bits wide,
which no program exhausts. A deadline may pass at any time, and a waiter may wake up without a
notification.

## Main results

* `Step`: the steps of all threads.
* `sorted_iff_inOrder`: the messages reach the sinks in the order of their sequence numbers, and
  the queue is sorted, iff no call of `log` overtakes another one between its number and its push.
* `overtaken_message`: a run in which one does.
-/

open Transition

namespace SimplyNode

/-- `LogLevel`. -/
inductive LogLevel
  | debug
  | info
  | warning
  | error
  | critical
  deriving DecidableEq

/-- The value of a level. -/
def LogLevel.value : LogLevel → ℕ
  | debug => 0
  | info => 1
  | warning => 2
  | error => 3
  | critical => 4

/-- The arguments of `Logger::log`. -/
structure LogCall where
  level : LogLevel
  text : String := ""
  file : String := ""
  line : ℤ := 0
  function : String := ""
  deriving DecidableEq

/-- `LogMessage`. -/
structure LogMessage where
  sequence : ℕ := 0
  timestamp : ℤ := 0
  level : LogLevel := .debug
  text : String := ""
  file : String := ""
  line : ℤ := 0
  function : String := ""
  threadId : ThreadId := 0
  deriving DecidableEq

/-- The message of a call of `log`. -/
def LogCall.message (call : LogCall) (sequence : ℕ) (now : ℤ) (t : ThreadId) : LogMessage where
  sequence := sequence
  timestamp := now
  level := call.level
  text := call.text
  file := call.file
  line := call.line
  function := call.function
  threadId := t

/-- The number of a `LogSink`. -/
abbrev SinkId := ℕ

/-- Where a thread is in its call of the logger. -/
inductive CallState
  /-- In no call. -/
  | idle
  /-- `log`: the level has passed the filter. -/
  | passed (call : LogCall)
  /-- `log`: the message has its sequence number. -/
  | drawn (message : LogMessage)
  /-- `log`: the message is in the queue, `notify_one` is to come. -/
  | notifying
  /-- `flush`: `targetProcessed` is read. The messages that were enqueued until then are `seen`. -/
  | flushing (targetProcessed : ℕ) (seen : List LogMessage)
  /-- `flush`: in `wait_until`. -/
  | waiting (targetProcessed : ℕ) (seen : List LogMessage) (woken : Bool)
  /-- `stop`: `m_running` is cleared, `notify_one` is to come. The run has enqueued `seen`. -/
  | ending (seen : List LogMessage)
  /-- `stop`: in `join`. -/
  | joining (seen : List LogMessage)
  deriving DecidableEq

/-- Where the worker is. -/
inductive WorkerState
  /-- There is no thread to join. -/
  | none
  /-- Before the lock at the start of the loop. -/
  | entering
  /-- In `wait`. -/
  | waiting (woken : Bool)
  /-- Without the lock, with a message that was taken from the queue. -/
  | delivering (message : LogMessage)
  /-- The sinks have got the message, which is not counted in `m_processed`. -/
  | handed
  /-- Before the lock inside the inner loop. -/
  | counted
  | exited
  deriving DecidableEq

/-- A `Logger` with the threads that call it. -/
structure Logger where
  queueCapacity : ℕ := 8192
  levelFilter : LogLevel := .debug
  queue : List LogMessage := []
  running : Bool := false
  worker : WorkerState := .none
  nextSequence : ℕ := 1
  enqueued : ℕ := 0
  processed : ℕ := 0
  dropped : ℕ := 0
  sinks : List SinkId := []
  calls : ThreadId → CallState := fun _ => .idle
  /-- The messages that were enqueued, in order. -/
  accepted : List LogMessage := []
  /-- The messages that were delivered, with the sinks that got them. -/
  delivered : List (LogMessage × List SinkId) := []
  /-- How many calls of `log` have gone through their section. -/
  completed : ℕ := 0

/-- A thread that waits on `m_queueCv`. -/
inductive Waiter
  | worker
  | caller (thread : ThreadId)
  deriving DecidableEq

/-- A step of a thread. -/
inductive LogStep
  | setLevel (level : LogLevel)
  | addSink (sink : SinkId)
  | removeSink (sink : SinkId)
  | clearSinks
  /-- `log()` is called, and the level passes the filter. -/
  | log (thread : ThreadId) (call : LogCall)
  | drawSequence (thread : ThreadId) (now : ℤ)
  | push (thread : ThreadId)
  /-- `notify_one` of `log()` and of `stop()`, with the waiter that it wakes. -/
  | notify (thread : ThreadId) (woken : Option Waiter)
  | notifyStop (thread : ThreadId) (woken : Option Waiter)
  /-- A waiter wakes up by itself. -/
  | wake (waiter : Waiter)
  | flush (thread : ThreadId)
  | flushWaits (thread : ThreadId)
  | flushReturns (thread : ThreadId) (result : Bool)
  /-- `start()` and `stop()` of the controlling thread. -/
  | start (thread : ThreadId)
  | stop (thread : ThreadId)
  | stopReturns (thread : ThreadId)
  /-- The worker has the lock; it delivers a message; it counts it. -/
  | work
  | deliver
  | count
  deriving DecidableEq

/-- The waiter has been woken. -/
def CallState.notified : CallState → CallState
  | waiting target seen _ => waiting target seen true
  | c => c

/-- A call of `stop` that has cleared `m_running`. -/
def CallState.Stops : CallState → Prop
  | ending _ => True
  | joining _ => True
  | _ => False

/-- The message in the hand of the worker. -/
def WorkerState.hand : WorkerState → Option LogMessage
  | delivering m => some m
  | _ => Option.none

/-- How many messages were taken from the queue and not counted in `m_processed`. -/
def WorkerState.inFlight : WorkerState → ℕ
  | delivering _ => 1
  | handed => 1
  | _ => 0

/-- A caller that stops still stops when it has been woken. -/
theorem CallState.Stops.notified {c : CallState} (h : c.Stops) : c.notified.Stops := by
  cases c with
  | waiting => exact h
  | _ => exact h

namespace Logger

variable (s : Logger)

/-- Moves a thread on in its call. -/
def setCall (t : ThreadId) (c : CallState) : Logger :=
  { s with calls := Function.update s.calls t c }

/-- The call that has been changed. -/
theorem calls_setCall_self (t : ThreadId) (c : CallState) : (s.setCall t c).calls t = c :=
  Function.update_self ..

/-- The other calls stay. -/
theorem calls_setCall_of_ne {t u : ThreadId} (c : CallState) (hu : u ≠ t) :
    (s.setCall t c).calls u = s.calls u :=
  Function.update_of_ne hu ..

/-- The level is not below the filter. -/
def passes (level : LogLevel) : Bool := s.levelFilter.value ≤ level.value

/-- `Logger::log` draws the sequence number and fills in the message. -/
def drawSequence (t : ThreadId) (call : LogCall) (now : ℤ) : Logger :=
  { s.setCall t (.drawn (call.message s.nextSequence now t)) with
    nextSequence := s.nextSequence + 1 }

/-- The section of `Logger::log`. -/
def push (t : ThreadId) (m : LogMessage) : Logger :=
  if s.queueCapacity ≤ s.queue.length then
    { s.setCall t .idle with dropped := s.dropped + 1, completed := s.completed + 1 }
  else
    { s.setCall t .notifying with
      queue := s.queue ++ [m], enqueued := s.enqueued + 1, accepted := s.accepted ++ [m],
      completed := s.completed + 1 }

/-- The waiter sleeps, and no notification has reached it. -/
def Asleep : Waiter → Prop
  | .worker => s.worker = .waiting false
  | .caller t => ∃ target seen, s.calls t = .waiting target seen false

/-- The waiter wakes up. -/
def wake : Waiter → Logger
  | .worker => { s with worker := .waiting true }
  | .caller t => s.setCall t (s.calls t).notified

/-- `notify_one` may wake this waiter, or none. -/
def Notifies : Option Waiter → Prop
  | some w => s.Asleep w
  | none => ∀ w, ¬ s.Asleep w

/-- `m_queueCv.notify_one()`. -/
def notifyOne : Option Waiter → Logger
  | some w => s.wake w
  | none => s

/-- `m_queueCv.notify_all()` of the worker. -/
def notifyAll : Logger := { s with calls := fun t => (s.calls t).notified }

/-- The predicate of `flush`. -/
def flushed (targetProcessed : ℕ) : Bool :=
  s.queue.isEmpty && decide (targetProcessed ≤ s.processed)

/-- `Logger::flush` reads `targetProcessed`. -/
def flush (t : ThreadId) : Logger := s.setCall t (.flushing s.enqueued s.accepted)

/-- A call of `flush` is about to evaluate its predicate. -/
def Asks (t : ThreadId) (target : ℕ) (seen : List LogMessage) : Prop :=
  s.calls t = .flushing target seen ∨ s.calls t = .waiting target seen true

/-- `Logger::start`. -/
def start : Logger :=
  if s.running then s else { s with running := true, worker := .entering }

/-- The section of `Logger::stop`. -/
def stop (t : ThreadId) : Logger :=
  if s.running then { s.setCall t (.ending s.accepted) with running := false } else s

/-- The predicate of the worker. -/
def hasWork : Bool := !s.queue.isEmpty || !s.running

/-- The worker goes on with the lock: it takes the next message, or it is through with the queue,
notifies the calls of `flush` and goes on to the next round or exits. -/
def drain : Logger :=
  match s.queue with
  | m :: rest => { s with queue := rest, worker := .delivering m }
  | [] => { s.notifyAll with worker := if s.running then .entering else .exited }

/-- The worker evaluates its predicate. -/
def await : Logger := if s.hasWork then s.drain else { s with worker := .waiting false }

/-- `Logger::deliverToSinks`. -/
def deliverToSinks (m : LogMessage) : Logger :=
  { s with delivered := s.delivered ++ [(m, s.sinks)], worker := .handed }

/-- **One step of the program.** The thread `main` controls the logger. -/
inductive Step (main : ThreadId) : Logger → LogStep → Logger → Prop
  | setLevel {s : Logger} {lv : LogLevel} :
      Step main s (.setLevel lv) { s with levelFilter := lv }
  | addSink {s : Logger} {k : SinkId} :
      Step main s (.addSink k) { s with sinks := s.sinks ++ [k] }
  | removeSink {s : Logger} {k : SinkId} :
      Step main s (.removeSink k) { s with sinks := s.sinks.filter (· ≠ k) }
  | clearSinks {s : Logger} : Step main s .clearSinks { s with sinks := [] }
  | log {s : Logger} {t : ThreadId} {c : LogCall} :
      s.calls t = .idle → s.passes c.level = true →
      Step main s (.log t c) (s.setCall t (.passed c))
  | drawSequence {s : Logger} {t : ThreadId} {c : LogCall} {now : ℤ} :
      s.calls t = .passed c → Step main s (.drawSequence t now) (s.drawSequence t c now)
  | push {s : Logger} {t : ThreadId} {m : LogMessage} :
      s.calls t = .drawn m → Step main s (.push t) (s.push t m)
  | notify {s : Logger} {t : ThreadId} {w : Option Waiter} :
      s.calls t = .notifying → s.Notifies w →
      Step main s (.notify t w) ((s.notifyOne w).setCall t .idle)
  | notifyStop {s : Logger} {t : ThreadId} {seen : List LogMessage} {w : Option Waiter} :
      s.calls t = .ending seen → s.Notifies w →
      Step main s (.notifyStop t w) ((s.notifyOne w).setCall t (.joining seen))
  | wake {s : Logger} {w : Waiter} : s.Asleep w → Step main s (.wake w) (s.wake w)
  | flush {s : Logger} {t : ThreadId} :
      s.calls t = .idle → Step main s (.flush t) (s.flush t)
  | flushWaits {s : Logger} {t : ThreadId} {target : ℕ} {seen : List LogMessage} :
      s.Asks t target seen → s.flushed target = false →
      Step main s (.flushWaits t) (s.setCall t (.waiting target seen false))
  | flushReturns {s : Logger} {t : ThreadId} {target : ℕ} {seen : List LogMessage} :
      s.Asks t target seen → s.flushed target = true →
      Step main s (.flushReturns t true) (s.setCall t .idle)
  | flushTimesOut {s : Logger} {t : ThreadId} {target : ℕ} {seen : List LogMessage} {b : Bool} :
      s.calls t = .waiting target seen b →
      Step main s (.flushReturns t (s.flushed target)) (s.setCall t .idle)
  | start {s : Logger} : s.calls main = .idle → Step main s (.start main) s.start
  | stop {s : Logger} : s.calls main = .idle → Step main s (.stop main) (s.stop main)
  | stopReturns {s : Logger} {seen : List LogMessage} :
      s.calls main = .joining seen → s.worker = .exited →
      Step main s (.stopReturns main) { s.setCall main .idle with worker := .none }
  | await {s : Logger} : s.worker = .entering ∨ s.worker = .waiting true →
      Step main s .work s.await
  | drain {s : Logger} : s.worker = .counted → Step main s .work s.drain
  | deliver {s : Logger} {m : LogMessage} :
      s.worker = .delivering m → Step main s .deliver (s.deliverToSinks m)
  | count {s : Logger} : s.worker = .handed →
      Step main s .count { s with processed := s.processed + 1, worker := .counted }

/-- A logger is constructed. -/
def initial (queueCapacity : ℕ) : Logger := { queueCapacity := queueCapacity }

/-- From the queue through the worker to the sinks. -/
def pipeline : Pipeline LogMessage :=
  { output := s.delivered.map Prod.fst, hand := s.worker.hand, queue := s.queue }

variable {s} {s' : Logger} {main t : ThreadId} {l : LogStep}

/-! ### What a notification changes -/

/-- A waiter that wakes up stays where it is. -/
theorem calls_wake {c : CallState} {w : Waiter} (hc : s.calls t = c) :
    (s.wake w).calls t = c ∨ (s.wake w).calls t = c.notified := by
  cases w with
  | worker => exact Or.inl hc
  | caller u =>
      obtain rfl | hne := eq_or_ne t u
      · exact Or.inr ((s.calls_setCall_self t _).trans (congrArg _ hc))
      · exact Or.inl ((s.calls_setCall_of_ne _ hne).trans hc)

/-- A notification does not touch a call that does not wait. -/
theorem calls_notifyOne {c : CallState} {w : Option Waiter} (hc : s.calls t = c)
    (hn : c.notified = c) : (s.notifyOne w).calls t = c := by
  cases w with
  | none => exact hc
  | some w => exact (calls_wake hc).elim id fun h => h.trans hn

/-! ### The controlling thread -/

/-- A logger that does not run has no worker, or its controlling thread is in `stop`. -/
structure Control (main : ThreadId) (s : Logger) : Prop where
  stopped : s.running = false → s.worker = .none ∨ (s.calls main).Stops
  exited : s.worker = .exited → s.running = false

/-- At the start the controlling thread is in control. -/
theorem Control.initial {n : ℕ} : (Logger.initial n).Control main where
  stopped _ := Or.inl rfl
  exited h := WorkerState.noConfusion h

/-- A thread goes on in its call, which leaves `stop` when the worker is gone only. -/
theorem Control.setCall (h : s.Control main) {c d : CallState} (hcall : s.calls t = c)
    (hc : c.Stops → d.Stops) : (s.setCall t d).Control main where
  stopped hrunning := by
    refine (h.stopped hrunning).imp_right fun hstops => ?_
    obtain rfl | hne := eq_or_ne main t
    · rw [calls_setCall_self]
      exact hc (hcall ▸ hstops)
    · rw [s.calls_setCall_of_ne d hne]
      exact hstops
  exited := h.exited

/-- The worker goes on, and does not exit. -/
theorem Control.work (h : s.Control main) {w : WorkerState} (hs : s.worker ≠ .none)
    (hw : w ≠ .exited) : Control main { s with worker := w } where
  stopped hrunning := (h.stopped hrunning).imp_left fun hnone => absurd hnone hs
  exited hexited := absurd hexited hw

/-- To wake a waiter leaves it in control. -/
theorem Control.wake (h : s.Control main) {w : Waiter} (hw : s.Asleep w) :
    (s.wake w).Control main := by
  cases w with
  | worker =>
      have hworker : s.worker = .waiting false := hw
      exact h.work (by simp [hworker]) (by simp)
  | caller t => exact h.setCall rfl CallState.Stops.notified

/-- So does `notify_one`. -/
theorem Control.notifyOne (h : s.Control main) {w : Option Waiter} (hw : s.Notifies w) :
    (s.notifyOne w).Control main := by
  cases w with
  | none => exact h
  | some w => exact h.wake hw

/-- So does a drain. -/
theorem Control.drain (h : s.Control main) (hs : s.worker ≠ .none) : s.drain.Control main := by
  rw [Logger.drain]
  split
  · rename_i m rest _
    have hnext := h.work (w := .delivering m) hs (by simp)
    exact ⟨hnext.stopped, hnext.exited⟩
  · refine ⟨fun hrunning => (h.stopped hrunning).elim (absurd · hs) fun hstops =>
      Or.inr hstops.notified, fun hexited => ?_⟩
    cases hrunning : s.running with
    | false => exact hrunning
    | true => simp [hrunning] at hexited

/-- The step lemma of the controlling thread. -/
theorem Control.step (h : s.Control main) (hst : Step main s l s') : s'.Control main := by
  cases hst with
  | setLevel => exact ⟨h.stopped, h.exited⟩
  | addSink => exact ⟨h.stopped, h.exited⟩
  | removeSink => exact ⟨h.stopped, h.exited⟩
  | clearSinks => exact ⟨h.stopped, h.exited⟩
  | log hcall => exact h.setCall hcall False.elim
  | @drawSequence t c now hcall =>
      have hnext := h.setCall (d := .drawn (c.message s.nextSequence now t)) hcall False.elim
      exact ⟨hnext.stopped, hnext.exited⟩
  | push hcall =>
      rw [Logger.push]
      split
      · have hnext := h.setCall hcall (d := .idle) False.elim
        exact ⟨hnext.stopped, hnext.exited⟩
      · have hnext := h.setCall hcall (d := .notifying) False.elim
        exact ⟨hnext.stopped, hnext.exited⟩
  | notify hcall hw => exact (h.notifyOne hw).setCall (calls_notifyOne hcall rfl) False.elim
  | notifyStop hcall hw =>
      exact (h.notifyOne hw).setCall (calls_notifyOne hcall rfl) fun _ => trivial
  | wake hw => exact h.wake hw
  | flush hcall => exact h.setCall hcall False.elim
  | flushWaits hask =>
      rcases hask with hcall | hcall
      · exact h.setCall hcall False.elim
      · exact h.setCall hcall False.elim
  | flushReturns hask =>
      rcases hask with hcall | hcall
      · exact h.setCall hcall False.elim
      · exact h.setCall hcall False.elim
  | flushTimesOut hcall => exact h.setCall hcall False.elim
  | start =>
      rw [Logger.start]
      split
      · exact h
      · exact ⟨fun hrunning => absurd hrunning (by simp), fun hexited => absurd hexited (by simp)⟩
  | stop =>
      rw [Logger.stop]
      split
      · refine ⟨fun _ => Or.inr ?_, fun _ => rfl⟩
        have hcall : (s.setCall main (.ending s.accepted)).calls main = _ := calls_setCall_self ..
        exact (congrArg CallState.Stops hcall).mpr trivial
      · exact h
  | stopReturns hcall hw => exact ⟨fun _ => Or.inl rfl, fun hexited => absurd hexited (by simp)⟩
  | await hw =>
      have hs : s.worker ≠ .none := by
        rcases hw with hw | hw
        · simp [hw]
        · simp [hw]
      rw [await]
      split
      · exact h.drain hs
      · exact h.work hs (by simp)
  | drain hw => exact h.drain (by simp [hw])
  | deliver hw =>
      have hnext := h.work (w := .handed) (by simp [hw]) (by simp)
      exact ⟨hnext.stopped, hnext.exited⟩
  | count hw =>
      have hnext := h.work (w := .counted) (by simp [hw]) (by simp)
      exact ⟨hnext.stopped, hnext.exited⟩

/-- Between two runs there is no worker. -/
theorem Control.worker_eq_none (h : s.Control main) (hrunning : s.running = false)
    (hidle : s.calls main = .idle) : s.worker = .none :=
  (h.stopped hrunning).elim id fun hstops => by
    rw [hidle] at hstops
    exact hstops.elim

/-! ### The way of a message -/

/-- What was accepted has been delivered, is in the hand of the worker, or waits in the queue. -/
structure Ledger (s : Logger) : Prop where
  line : s.pipeline.line = s.accepted
  enqueued : s.enqueued = s.accepted.length
  processed : s.processed + s.worker.inFlight = s.delivered.length + s.worker.hand.toList.length
  completed : s.completed = s.enqueued + s.dropped

/-- At the start there is no message. -/
theorem Ledger.initial {n : ℕ} : (Logger.initial n).Ledger := ⟨rfl, rfl, rfl, rfl⟩

/-- A change of a call moves no message. -/
theorem Ledger.setCall (h : s.Ledger) {c : CallState} : (s.setCall t c).Ledger :=
  ⟨h.line, h.enqueued, h.processed, h.completed⟩

/-- A step of the worker between two messages. -/
theorem Ledger.work (h : s.Ledger) {w : WorkerState} (hhand : s.worker.hand = none)
    (hw : w.hand = none) (hflight : w.inFlight = s.worker.inFlight) :
    Ledger { s with worker := w } where
  line := by
    have hline := h.line
    rw [pipeline, hhand] at hline
    rw [pipeline, hw]
    exact hline
  enqueued := h.enqueued
  processed := by
    have hprocessed := h.processed
    rw [hhand] at hprocessed
    rw [hw, hflight]
    exact hprocessed
  completed := h.completed

/-- To wake a waiter moves no message. -/
theorem Ledger.wake (h : s.Ledger) {w : Waiter} (hw : s.Asleep w) : (s.wake w).Ledger := by
  cases w with
  | worker =>
      have hworker : s.worker = .waiting false := hw
      exact h.work (by rw [hworker]; rfl) rfl (by rw [hworker]; rfl)
  | caller t => exact h.setCall

/-- `notify_one` moves no message. -/
theorem Ledger.notifyOne (h : s.Ledger) {w : Option Waiter} (hw : s.Notifies w) :
    (s.notifyOne w).Ledger := by
  cases w with
  | none => exact h
  | some w => exact h.wake hw

/-- A message that is pushed waits in the queue. -/
theorem Ledger.push (h : s.Ledger) {m : LogMessage} : (s.push t m).Ledger := by
  have hcompleted := h.completed
  rw [Logger.push]
  split
  · refine ⟨h.line, h.enqueued, h.processed, ?_⟩
    change s.completed + 1 = s.enqueued + (s.dropped + 1)
    omega
  · refine ⟨?_, ?_, h.processed, ?_⟩
    · exact (Pipeline.line_enqueue (p := s.pipeline)).trans (congrArg (· ++ [m]) h.line)
    · simp [h.enqueued]
    · change s.completed + 1 = s.enqueued + 1 + s.dropped
      omega

/-- A drain takes the queue into the hand of the worker. -/
theorem Ledger.drain (h : s.Ledger) (hhand : s.worker.hand = none)
    (hflight : s.worker.inFlight = 0) : s.drain.Ledger := by
  rw [Logger.drain]
  split
  · rename_i m rest hqueue
    refine ⟨?_, h.enqueued, ?_, h.completed⟩
    · exact (Pipeline.line_take (p := s.pipeline) hhand hqueue).trans h.line
    · have hprocessed := h.processed
      rw [hhand, hflight] at hprocessed
      exact congrArg (· + 1) hprocessed
  · have hall : s.notifyAll.Ledger := ⟨h.line, h.enqueued, h.processed, h.completed⟩
    refine hall.work hhand ?_ ?_
    · split
      · rfl
      · rfl
    · rw [notifyAll, hflight]
      split
      · rfl
      · rfl

/-- A message that is delivered leaves the hand of the worker. -/
theorem Ledger.deliver (h : s.Ledger) {m : LogMessage} (hw : s.worker = .delivering m) :
    (s.deliverToSinks m).Ledger where
  line := by
    have hline := h.line
    rw [pipeline, hw] at hline
    refine Eq.trans ?_ (Pipeline.line_put.trans hline)
    rw [pipeline, deliverToSinks, List.map_append]
    rfl
  enqueued := h.enqueued
  processed := by
    have hprocessed := h.processed
    rw [hw] at hprocessed
    change s.processed + 1 = (s.delivered ++ [(m, s.sinks)]).length + 0
    rw [List.length_append]
    exact hprocessed
  completed := h.completed

/-- The step lemma of the ledger. -/
theorem Ledger.step (h : s.Ledger) (hc : s.Control main) (hst : Step main s l s') :
    s'.Ledger := by
  cases hst with
  | setLevel => exact ⟨h.line, h.enqueued, h.processed, h.completed⟩
  | addSink => exact ⟨h.line, h.enqueued, h.processed, h.completed⟩
  | removeSink => exact ⟨h.line, h.enqueued, h.processed, h.completed⟩
  | clearSinks => exact ⟨h.line, h.enqueued, h.processed, h.completed⟩
  | log => exact h.setCall
  | drawSequence => exact ⟨h.line, h.enqueued, h.processed, h.completed⟩
  | push => exact h.push
  | notify _ hw => exact (h.notifyOne hw).setCall
  | notifyStop _ hw => exact (h.notifyOne hw).setCall
  | wake hw => exact h.wake hw
  | flush => exact h.setCall
  | flushWaits => exact h.setCall
  | flushReturns => exact h.setCall
  | flushTimesOut => exact h.setCall
  | start hidle =>
      rw [Logger.start]
      split
      · exact h
      · rename_i hrunning
        have hworker := hc.worker_eq_none (Bool.eq_false_iff.mpr hrunning) hidle
        have hnext := h.work (w := .entering) (by rw [hworker]; rfl) rfl (by rw [hworker]; rfl)
        exact ⟨hnext.line, hnext.enqueued, hnext.processed, hnext.completed⟩
  | stop =>
      rw [Logger.stop]
      split
      · exact ⟨h.line, h.enqueued, h.processed, h.completed⟩
      · exact h
  | stopReturns _ hw =>
      exact (h.work (w := .none) (by rw [hw]; rfl) rfl (by rw [hw]; rfl)).setCall
  | await hw =>
      have hidle : s.worker.hand = none ∧ s.worker.inFlight = 0 := by
        rcases hw with hw | hw
        · rw [hw]
          exact ⟨rfl, rfl⟩
        · rw [hw]
          exact ⟨rfl, rfl⟩
      rw [await]
      split
      · exact h.drain hidle.1 hidle.2
      · exact h.work hidle.1 rfl hidle.2.symm
  | drain hw => exact h.drain (by rw [hw]; rfl) (by rw [hw]; rfl)
  | deliver hw => exact h.deliver hw
  | count hw =>
      refine ⟨?_, h.enqueued, ?_, h.completed⟩
      · have hline := h.line
        rw [pipeline, hw] at hline
        exact hline
      · have hprocessed := h.processed
        rw [hw] at hprocessed
        exact hprocessed

/-! ### Sequence numbers -/

/-- The sequence numbers that have been drawn are below the next one, and no two messages that
are accepted, or on their way to the queue, have the same one. -/
structure Numbered (s : Logger) : Prop where
  accepted : ∀ m ∈ s.accepted, m.sequence < s.nextSequence
  nodup : (s.accepted.map LogMessage.sequence).Nodup
  drawn : ∀ t m, s.calls t = .drawn m → m.sequence < s.nextSequence ∧
    ∀ m' ∈ s.accepted, m'.sequence ≠ m.sequence
  distinct : ∀ t t' m m', s.calls t = .drawn m → s.calls t' = .drawn m' →
    m.sequence = m'.sequence → t = t'

/-- At the start no number has been drawn. -/
theorem Numbered.initial {n : ℕ} : (Logger.initial n).Numbered where
  accepted _ hm := absurd hm List.not_mem_nil
  nodup := List.nodup_nil
  drawn _ _ hm := CallState.noConfusion hm
  distinct _ _ _ _ hm := CallState.noConfusion hm

/-- No call gets a sequence number. -/
theorem Numbered.quiet (h : s.Numbered) (haccepted : s'.accepted = s.accepted)
    (hnext : s'.nextSequence = s.nextSequence)
    (hcalls : ∀ t m, s'.calls t = .drawn m → s.calls t = .drawn m) : s'.Numbered where
  accepted := by
    rw [haccepted, hnext]
    exact h.accepted
  nodup := by
    rw [haccepted]
    exact h.nodup
  drawn t m hm := by
    rw [haccepted, hnext]
    exact h.drawn t m (hcalls t m hm)
  distinct t t' m m' hm hm' := h.distinct t t' m m' (hcalls t m hm) (hcalls t' m' hm')

/-- A call goes on without a sequence number. -/
theorem drawn_of_setCall {c : CallState} (hc : ∀ m, c ≠ .drawn m) {u : ThreadId} {m : LogMessage}
    (h : (s.setCall t c).calls u = .drawn m) : s.calls u = .drawn m ∧ u ≠ t := by
  obtain rfl | hne := eq_or_ne u t
  · exact absurd ((s.calls_setCall_self u c).symm.trans h) (hc m)
  · exact ⟨(s.calls_setCall_of_ne c hne).symm.trans h, hne⟩

/-- To be woken draws no number. -/
theorem drawn_of_notified {c : CallState} {m : LogMessage} (h : c.notified = .drawn m) :
    c = .drawn m := by
  cases c with
  | waiting => cases h
  | _ => exact h

/-- A change of a call that draws no number. -/
theorem Numbered.setCall (h : s.Numbered) {c : CallState} (hc : ∀ m, c ≠ .drawn m) :
    (s.setCall t c).Numbered :=
  h.quiet rfl rfl fun _ _ hm => (drawn_of_setCall hc hm).1

/-- To wake a waiter draws no number. -/
theorem Numbered.wake (h : s.Numbered) {w : Waiter} : (s.wake w).Numbered := by
  have hcalls : ∀ u m, (s.wake w).calls u = .drawn m → s.calls u = .drawn m := by
    intro u m hm
    rcases calls_wake (w := w) (t := u) (s := s) rfl with hu | hu
    · exact hu.symm.trans hm
    · exact drawn_of_notified (hu.symm.trans hm)
  cases w with
  | worker => exact h.quiet rfl rfl hcalls
  | caller t => exact h.quiet rfl rfl hcalls

/-- `notify_one` draws no number. -/
theorem Numbered.notifyOne (h : s.Numbered) {w : Option Waiter} : (s.notifyOne w).Numbered := by
  cases w with
  | none => exact h
  | some w => exact h.wake

/-- A drain draws no number. -/
theorem Numbered.drain (h : s.Numbered) : s.drain.Numbered := by
  rw [Logger.drain]
  split
  · exact h.quiet rfl rfl fun _ _ => id
  · exact h.quiet rfl rfl fun _ _ => drawn_of_notified

/-- A number is drawn. -/
theorem Numbered.draw (h : s.Numbered) {c : LogCall} {now : ℤ} :
    (s.drawSequence t c now).Numbered := by
  have hcases : ∀ u m, (s.drawSequence t c now).calls u = .drawn m →
      (u = t ∧ m.sequence = s.nextSequence) ∨ s.calls u = .drawn m := by
    intro u m hm
    obtain rfl | hne := eq_or_ne u t
    · obtain rfl := CallState.drawn.inj ((s.calls_setCall_self u _).symm.trans hm)
      exact Or.inl ⟨rfl, rfl⟩
    · exact Or.inr ((s.calls_setCall_of_ne _ hne).symm.trans hm)
  refine ⟨fun m hm => Nat.lt_succ_of_lt (h.accepted m hm), h.nodup, fun u m hm => ?_,
    fun u u' m m' hm hm' heq => ?_⟩
  · rcases hcases u m hm with ⟨-, hnew⟩ | hm
    · exact ⟨hnew ▸ Nat.lt_succ_self _, fun m' hm' => hnew ▸ Nat.ne_of_lt (h.accepted m' hm')⟩
    · exact ⟨Nat.lt_succ_of_lt (h.drawn u m hm).1, (h.drawn u m hm).2⟩
  · rcases hcases u m hm with ⟨rfl, hnew⟩ | hm
    · rcases hcases u' m' hm' with ⟨rfl, -⟩ | hm'
      · rfl
      · exact absurd (heq.symm.trans hnew) (Nat.ne_of_lt (h.drawn u' m' hm').1)
    · rcases hcases u' m' hm' with ⟨-, hnew⟩ | hm'
      · exact absurd (heq.trans hnew) (Nat.ne_of_lt (h.drawn u m hm).1)
      · exact h.distinct u u' m m' hm hm' heq

/-- A message goes into the queue. -/
theorem Numbered.push (h : s.Numbered) {m : LogMessage} (hcall : s.calls t = .drawn m) :
    (s.push t m).Numbered := by
  obtain ⟨hlt, hnew⟩ := h.drawn t m hcall
  rw [Logger.push]
  split
  · exact h.quiet rfl rfl fun _ _ hm => (drawn_of_setCall (by simp) hm).1
  · refine ⟨fun m' hm' => ?_, ?_, fun u m' hm' => ?_, fun u u' k k' hk hk' => ?_⟩
    · rcases List.mem_append.mp hm' with hm' | hm'
      · exact h.accepted m' hm'
      · rwa [List.mem_singleton.mp hm']
    · rw [List.map_append]
      refine List.nodup_append.mpr ⟨h.nodup, List.nodup_singleton _, fun n hn n' hn' heq => ?_⟩
      obtain ⟨m', hm', rfl⟩ := List.mem_map.mp hn
      exact hnew m' hm' (heq.trans (List.mem_singleton.mp hn'))
    · obtain ⟨hm', hne⟩ := drawn_of_setCall (by simp) hm'
      refine ⟨(h.drawn u m' hm').1, fun k hk => ?_⟩
      rcases List.mem_append.mp hk with hk | hk
      · exact (h.drawn u m' hm').2 k hk
      · intro heq
        rw [List.mem_singleton.mp hk] at heq
        exact hne (h.distinct u t m' m hm' hcall heq.symm)
    · have hu := (drawn_of_setCall (by simp) hk).1
      exact h.distinct u u' k k' hu (drawn_of_setCall (by simp) hk').1

/-- The step lemma of the sequence numbers. -/
theorem Numbered.step (h : s.Numbered) (hst : Step main s l s') : s'.Numbered := by
  cases hst with
  | setLevel => exact h.quiet rfl rfl fun _ _ => id
  | addSink => exact h.quiet rfl rfl fun _ _ => id
  | removeSink => exact h.quiet rfl rfl fun _ _ => id
  | clearSinks => exact h.quiet rfl rfl fun _ _ => id
  | log => exact h.setCall (by simp)
  | drawSequence => exact h.draw
  | push hcall => exact h.push hcall
  | notify => exact h.notifyOne.setCall (by simp)
  | notifyStop => exact h.notifyOne.setCall (by simp)
  | wake => exact h.wake
  | flush => exact h.setCall (by simp)
  | flushWaits => exact h.setCall (by simp)
  | flushReturns => exact h.setCall (by simp)
  | flushTimesOut => exact h.setCall (by simp)
  | start =>
      rw [Logger.start]
      split
      · exact h
      · exact h.quiet rfl rfl fun _ _ => id
  | stop =>
      rw [Logger.stop]
      split
      · exact h.quiet rfl rfl fun _ _ hm => (drawn_of_setCall (by simp) hm).1
      · exact h
  | stopReturns => exact h.quiet rfl rfl fun _ _ hm => (drawn_of_setCall (by simp) hm).1
  | await =>
      rw [await]
      split
      · exact h.drain
      · exact h.quiet rfl rfl fun _ _ => id
  | drain => exact h.drain
  | deliver => exact h.quiet rfl rfl fun _ _ => id
  | count => exact h.quiet rfl rfl fun _ _ => id

/-! ### The order of the messages -/

/-- **The invariant** of a logger. -/
structure Inv (main : ThreadId) (s : Logger) : Prop where
  control : s.Control main
  ledger : s.Ledger
  numbered : s.Numbered

/-- The invariant holds at the start. -/
theorem Inv.initial {n : ℕ} : (Logger.initial n).Inv main := ⟨.initial, .initial, .initial⟩

/-- Every step keeps the invariant. -/
theorem Inv.step (h : s.Inv main) (hst : Step main s l s') : s'.Inv main :=
  ⟨h.control.step hst, h.ledger.step h.control hst, h.numbered.step hst⟩

/-- The messages with the order of their sequence numbers. -/
def Before (m m' : LogMessage) : Prop := m.sequence < m'.sequence

/-- The messages have reached the sinks in the order of their sequence numbers, and those in the
queue are in this order. -/
def Sorted (s : Logger) : Prop :=
  (s.delivered.map Prod.fst).Pairwise Before ∧ s.queue.Pairwise Before

/-- The condition on a step: a message that goes into the queue has not been overtaken by one
whose number was drawn later. -/
def InOrder (s : Logger) (l : LogStep) : Prop :=
  ∀ t m, l = .push t → s.calls t = .drawn m → s.queue.length < s.queueCapacity →
    ∀ m' ∈ s.accepted, ¬ m.sequence < m'.sequence

/-- `notify_one` accepts nothing. -/
theorem accepted_notifyOne {w : Option Waiter} : (s.notifyOne w).accepted = s.accepted := by
  rcases w with - | - | t
  · rfl
  · rfl
  · rfl

/-- A drain accepts nothing. -/
theorem accepted_drain : s.drain.accepted = s.accepted := by
  rw [drain]
  split
  · rfl
  · rfl

/-- Only a push into a queue that has room changes the line of messages. -/
theorem Step.accepted (hst : Step main s l s') :
    (s'.accepted = s.accepted ∧ ∀ t m, l = .push t → s.calls t = .drawn m →
      s.queueCapacity ≤ s.queue.length) ∨
    ∃ t m, l = .push t ∧ s.calls t = .drawn m ∧ s.queue.length < s.queueCapacity ∧
      s'.accepted = s.accepted ++ [m] := by
  cases hst with
  | @push t m hcall =>
      rw [Logger.push]
      split
      · exact Or.inl ⟨rfl, fun _ _ _ _ => ‹_›⟩
      · exact Or.inr ⟨t, m, rfl, hcall, Nat.not_le.mp ‹_›, rfl⟩
  | notify => exact Or.inl ⟨accepted_notifyOne, fun _ _ hl => LogStep.noConfusion hl⟩
  | notifyStop => exact Or.inl ⟨accepted_notifyOne, fun _ _ hl => LogStep.noConfusion hl⟩
  | @wake w =>
      exact Or.inl ⟨accepted_notifyOne (w := some w), fun _ _ hl => LogStep.noConfusion hl⟩
  | start =>
      rw [Logger.start]
      split
      · exact Or.inl ⟨rfl, fun _ _ hl => LogStep.noConfusion hl⟩
      · exact Or.inl ⟨rfl, fun _ _ hl => LogStep.noConfusion hl⟩
  | stop =>
      rw [Logger.stop]
      split
      · exact Or.inl ⟨rfl, fun _ _ hl => LogStep.noConfusion hl⟩
      · exact Or.inl ⟨rfl, fun _ _ hl => LogStep.noConfusion hl⟩
  | await =>
      rw [Logger.await]
      split
      · exact Or.inl ⟨accepted_drain, fun _ _ hl => LogStep.noConfusion hl⟩
      · exact Or.inl ⟨rfl, fun _ _ hl => LogStep.noConfusion hl⟩
  | drain => exact Or.inl ⟨accepted_drain, fun _ _ hl => LogStep.noConfusion hl⟩
  | _ => exact Or.inl ⟨rfl, fun _ _ hl => LogStep.noConfusion hl⟩

/-- A step keeps the line of messages in order iff it meets the condition. -/
theorem pairwise_accepted_step (hi : s.Numbered) (hst : Step main s l s') :
    s'.accepted.Pairwise Before ↔ s.accepted.Pairwise Before ∧ s.InOrder l := by
  rcases hst.accepted with ⟨heq, hfull⟩ | ⟨t, m, rfl, hcall, hroom, heq⟩
  · rw [heq]
    refine (and_iff_left fun t m hl hcall hroom => ?_).symm
    exact absurd hroom (Nat.not_lt.mpr (hfull t m hl hcall))
  · rw [heq, List.pairwise_append]
    constructor
    · rintro ⟨hsorted, -, hbehind⟩
      refine ⟨hsorted, fun t' m' hl hcall' _ k hk hlt => ?_⟩
      obtain rfl := LogStep.push.inj hl
      obtain rfl := CallState.drawn.inj (hcall.symm.trans hcall')
      exact Nat.lt_asymm hlt (hbehind k hk m (List.mem_singleton_self m))
    · rintro ⟨hsorted, hok⟩
      refine ⟨hsorted, List.pairwise_singleton .., fun k hk m' hm' => ?_⟩
      rw [List.mem_singleton.mp hm']
      have hle := Nat.not_lt.mp (hok t m rfl hcall hroom k hk)
      exact Nat.lt_of_le_of_ne hle ((hi.drawn t m hcall).2 k hk)

/-- A run whose steps meet the condition keeps the line of messages in order. -/
theorem run_pairwise_accepted {ls : List LogStep} (hi : s.Inv main)
    (hs : s.accepted.Pairwise Before) (hrun : Run (Step main) InOrder s ls s') :
    s'.Inv main ∧ s'.accepted.Pairwise Before := by
  refine Run.invariant (I := fun u => u.Inv main ∧ u.accepted.Pairwise Before) ?_ hrun ⟨hi, hs⟩
  intro u l v h hok hst
  exact ⟨h.1.step hst, (pairwise_accepted_step h.1.numbered hst).mpr ⟨h.2, hok⟩⟩

/-- A run that has kept the line of messages in order meets the condition. -/
theorem run_inOrder {ls : List LogStep} (hi : s.Inv main) (hrun : Reaches (Step main) s ls s')
    (hs : s'.accepted.Pairwise Before) :
    Run (Step main) InOrder s ls s' ∧ s.accepted.Pairwise Before := by
  induction hrun with
  | nil s => exact ⟨.nil s, hs⟩
  | cons _ hst _ ih =>
      obtain ⟨hrun, hu⟩ := ih (hi.step hst) hs
      obtain ⟨hs, hok⟩ := (pairwise_accepted_step hi.numbered hst).mp hu
      exact ⟨.cons hok hst hrun, hs⟩

/-- The line of the pipeline is what has been accepted. -/
theorem Inv.line (h : s.Inv main) : s.pipeline.line = s.accepted := h.ledger.line

/-- **When the messages come in the order of their numbers.** In a run in which no message is
overtaken between its number and its push, they reach the sinks in order, and the queue is sorted.
In a run that has delivered everything it accepted, they do only then. -/
theorem sorted_iff_inOrder (n : ℕ) (ls : List LogStep) (s : Logger)
    (hrun : Reaches (Step main) (initial n) ls s) :
    (Run (Step main) InOrder (initial n) ls s → s.Sorted) ∧
      (s.accepted = s.delivered.map Prod.fst →
        (s.Sorted ↔ Run (Step main) InOrder (initial n) ls s)) := by
  have hguarded (h : Run (Step main) InOrder (initial n) ls s) : s.Sorted := by
    obtain ⟨hi, hs⟩ := run_pairwise_accepted .initial List.Pairwise.nil h
    exact Pipeline.pairwise_parts (hi.line.symm ▸ hs)
  refine ⟨hguarded, fun hall => ⟨fun hs => ?_, hguarded⟩⟩
  exact (run_inOrder .initial hrun (hall ▸ hs.1)).1

/-- Thread 1 draws a number, and thread 2 the next one. They push their messages in this order. -/
def inTurn : List LogStep :=
  [.start 0, .log 1 { level := .info }, .log 2 { level := .info }, .drawSequence 1 0,
    .drawSequence 2 0, .push 1, .push 2, .work, .deliver, .count, .work, .deliver]

/-- The messages of two threads come in order. -/
theorem two_threads_sorted : ∃ s, Reaches (Step 0) (initial 4) inTurn s ∧
    s.delivered.map (fun d => d.1.sequence) = [1, 2] ∧ s.Sorted ∧
    (s.Sorted ↔ Run (Step 0) InOrder (initial 4) inTurn s) := by
  have hother : ∀ {s : Logger} {l : LogStep}, (∀ t, l ≠ .push t) → s.InOrder l :=
    fun hl t m heq => absurd heq (hl t)
  have hrun : Run (Step 0) InOrder (initial 4) inTurn _ :=
    .cons (hother (by simp)) (.start rfl) <| .cons (hother (by simp)) (.log rfl rfl) <|
    .cons (hother (by simp)) (.log rfl rfl) <| .cons (hother (by simp)) (.drawSequence rfl) <|
    .cons (hother (by simp)) (.drawSequence rfl) <|
    .cons (fun t m heq hcall _ m' hm' => absurd hm' List.not_mem_nil) (.push rfl) <|
    .cons (fun t m heq hcall _ m' hm' => by
      obtain rfl := LogStep.push.inj heq
      obtain rfl := CallState.drawn.inj hcall
      obtain rfl := List.mem_singleton.mp hm'
      exact Nat.not_lt.mpr (by decide)) (.push rfl) <|
    .cons (hother (by simp)) (.await (Or.inl rfl)) <|
    .cons (hother (by simp)) (.deliver rfl) <| .cons (hother (by simp)) (.count rfl) <|
    .cons (hother (by simp)) (.drain rfl) <| .cons (hother (by simp)) (.deliver rfl) <| .nil _
  obtain ⟨hsorted, hiff⟩ := sorted_iff_inOrder _ _ _ hrun.forget
  exact ⟨_, hrun.forget, rfl, hsorted hrun, hiff rfl⟩

/-- **A message is overtaken.** Thread 1 draws a sequence number, thread 2 draws the next one, and
pushes its message first. -/
theorem overtaken_message : ∃ ls s, Reaches (Step 0) (initial 4) ls s ∧
    s.delivered.map (fun d => d.1.sequence) = [2, 1] ∧ ¬ s.Sorted := by
  have hrun : Reaches (Step 0) (initial 4)
      [.start 0, .log 1 { level := .info }, .log 2 { level := .info }, .drawSequence 1 0,
        .drawSequence 2 0, .push 2, .push 1, .work, .deliver, .count, .work, .deliver] _ :=
    .cons trivial (.start rfl) <| .cons trivial (.log rfl rfl) <| .cons trivial (.log rfl rfl) <|
    .cons trivial (.drawSequence rfl) <| .cons trivial (.drawSequence rfl) <|
    .cons trivial (.push rfl) <| .cons trivial (.push rfl) <|
    .cons trivial (.await (Or.inl rfl)) <| .cons trivial (.deliver rfl) <|
    .cons trivial (.count rfl) <| .cons trivial (.drain rfl) <| .cons trivial (.deliver rfl) <|
    .nil _
  refine ⟨_, _, hrun, rfl, fun hsorted => ?_⟩
  have hlt := List.rel_of_pairwise_cons hsorted.1 (List.mem_singleton_self _)
  have hfalse : 2 < 1 := hlt
  omega

end Logger

end SimplyNode
