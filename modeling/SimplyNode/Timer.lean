import SimplyNode.Node

/-!
# Timers

The member functions of `Timer`: `start`, `stop`, `setInterval` and `setSingleShot`, which
run inside the timer's owner and are posted there from elsewhere, and `dispatchTimeout`,
which the owner calls when the deadline of an entry has passed. An entry that was armed
before the last `start` or `stop` carries an older generation and is ignored.

`timeout.emit()` runs user code. `dispatchTimeout` ends before it and returns whether it is
to be emitted.
-/

namespace SimplyNode

/-- `sanitizeInterval`: no negative intervals. -/
def sanitizeInterval (interval : ℤ) : ℤ := if interval < 0 then 0 else interval

/-- The deadline of an interval of milliseconds that begins at `now`. -/
def deadlineAfter (now : TimePoint) (interval : ℤ) : TimePoint := now + interval * 1000000

namespace TimerState

variable (t : TimerState)

/-- The timer runs from now on, for a new generation. -/
def started (now : TimePoint) (interval : ℤ) : TimerState :=
  { t with
    interval := sanitizeInterval interval
    active := true
    generation := t.generation + 1
    deadline := deadlineAfter now (sanitizeInterval interval) }

/-- The timer does not run any more. -/
def stopped : TimerState := { t with active := false, generation := t.generation + 1 }

/-- The interval is changed; a timer that runs begins anew. -/
def withInterval (now : TimePoint) (interval : ℤ) : TimerState :=
  if t.active then t.started now interval
  else { t with interval := sanitizeInterval interval }

end TimerState

namespace World

variable (w : World)

/-- The timer at an address has the given state. -/
def setTimer (a : Addr) (t : TimerState) : World :=
  w.modifyNode a fun n => { n with cls := .timer t }

/-- The owner arms the timer with its own deadline and generation. -/
def armTimer (owner : Option ExecutorId) (a : Addr) (t : TimerState) : World :=
  w.withExecs (w.execs.scheduleTimerWith owner (w.heap.nodePtr a) t.deadline t.generation)

/-- What the member functions of `Timer` do inside the owner of the timer. -/
def applyTimerCall (owner : Option ExecutorId) (a : Addr) (t : TimerState) :
    TimerCall → World
  | .start => (w.setTimer a (t.started w.now t.interval)).armTimer owner a
      (t.started w.now t.interval)
  | .startWith interval => (w.setTimer a (t.started w.now interval)).armTimer owner a
      (t.started w.now interval)
  | .stop => (w.setTimer a t.stopped).withExecs (w.execs.cancelTimerWith owner a)
  | .setInterval interval =>
      let w' := w.setTimer a (t.withInterval w.now interval)
      if t.active then w'.armTimer owner a (t.withInterval w.now interval) else w'
  | .setSingleShot singleShot => w.setTimer a { t with singleShot := singleShot }

/-- A call of a member function of `Timer` from the context `ctx`. -/
def timerCall (ctx : CallContext) (a : Addr) (call : TimerCall) : Outcome World := do
  let n ← w.heap.node a
  match n.cls with
  | .timer t =>
      let owner := w.heap.ownerExecutor n
      match owner with
      | some e =>
          if ctx.isCurrent e then pure (w.applyTimerCall owner a t call)
          else pure (w.withExecs (w.execs.post e (.timer (w.heap.nodePtr a) call)))
      | none => pure (w.applyTimerCall owner a t call)
  | _ => pure w

/-- `Timer::dispatchTimeout`, up to the emission of `timeout`. -/
def dispatchTimeout (a : Addr) (generation : ℕ) : Outcome (Bool × World) := do
  let n ← w.heap.node a
  match n.cls with
  | .timer t =>
      if !t.active || generation != t.generation then pure (false, w)
      else if t.singleShot then pure (true, w.setTimer a t.stopped)
      else
        let t' := t.started w.now t.interval
        pure (true, (w.setTimer a { t' with interval := t.interval }).armTimer
          (w.heap.ownerExecutor n) a t')
  | _ => pure (false, w)

end World

end SimplyNode
