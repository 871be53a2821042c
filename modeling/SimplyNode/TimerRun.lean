import SimplyNode.Lib.Transition
import SimplyNode.TimerService
import SimplyNode.Timer

/-!
# Timers in Running Executors

`Timer` objects, the executors that own them, and the thread of each pool's timer service, taking
turns. The calls of `Timer` are cut where the source gives up a mutex: `start` is done with
`m_mutex` before it asks the owner to schedule, `dispatchTimeout` before it schedules and emits,
and `applyMoveTo` cancels the entry, names the new owner and reads the timer back one after
another. Between two such steps of one executor any other executor can make steps of its own.

What an executor is in the middle of is its `TimerWork`. Slots, tasks and `update()` of user code
are not data here: they are the calls an executor makes while it is idle, in any order.

An event loop dispatches the entries it has taken from `m_timers`, which carry a raw pointer; a
strand runs the tasks that the timer service posts, which carry a `NodePtr` and look at the owner
first. No address is used for a second timer, so the address also serves as the name of the
lifetime block.

The children of a node are moved like the node itself, one after another, so a migration of a
tree is one `move` for each timer in it.

The results about these runs are in the modules that import this one.

## Main results

* `World.applyTimerCall_eq`, `World.dispatchTimeout_eq`: a call is its part under the mutex and
  then what is left to do.
-/

open Transition

namespace SimplyNode

/-- A `Timer` object, and its `ownerExecutor()`. -/
structure OwnedTimer where
  state : TimerState := {}
  owner : ExecutorId
  deriving DecidableEq

/-- What an executor is in the middle of.

* `arm`: `start` or `setInterval` has changed the timer; the owner is to schedule it.
* `rearm`: the same in `dispatchTimeout`, which emits for the generation `fired` afterwards.
* `disarm`: `stop` has changed the timer; the owner is to cancel it.
* `emit`: `dispatchTimeout` is about to emit.
* `leave`: `applyMoveTo` has run the first hook; the owner is to be changed.
* `enter`: `applyMoveTo` has changed the owner; the second hook is to be run.
* `destroy`: `~Timer` has changed the timer; the owner is to cancel it. -/
inductive TimerWork
  | idle
  | arm (timer : Addr) (deadline : TimePoint) (generation : ℕ)
  | rearm (timer : Addr) (deadline : TimePoint) (generation fired : ℕ)
  | disarm (timer : Addr)
  | emit (timer : Addr) (fired : ℕ) (singleShot : Bool)
  | leave (timer : Addr) (target : ExecutorId)
  | enter (timer : Addr)
  | destroy (timer : Addr)
  deriving DecidableEq

/-- The timer that is being worked on. -/
def TimerWork.timer? : TimerWork → Option Addr
  | .idle => none
  | .arm a _ _ | .rearm a _ _ _ | .disarm a | .emit a _ _ | .leave a _ | .enter a
  | .destroy a => some a

/-- What is observed of a run.

* `called`: a member function was called from outside of the owner.
* `applied`: it took effect.
* `emitted`: `timeout` began to be emitted for a generation, and whether the timer was then a
  single-shot timer, and active. -/
inductive TimerEvent
  | called (timer : Addr) (call : TimerCall)
  | applied (timer : Addr) (call : TimerCall)
  | emitted (timer : Addr) (fired : ℕ) (singleShot active : Bool)
  deriving DecidableEq

/-- The timers, the executors as far as timers see them, and the timer services of the pools:
`batches` has the entries that a loop has taken and not dispatched yet, and `due` the ones that a
service has taken and not posted yet. `joined` says that `TimerService::stop()` has returned. The
log has the latest event first. -/
structure TimerRun where
  timers : Addr → Option OwnedTimer
  loops : ThreadId → EventLoop
  strands : StrandId → Strand
  services : PoolId → TimerService
  batches : ThreadId → List TimerEntry
  due : PoolId → List ServiceEntry
  doing : ExecutorId → TimerWork
  joined : PoolId → Bool
  now : TimePoint
  log : List TimerEvent

/-! ### The sections of `Timer` under its mutex -/

namespace TimerState

variable (t : TimerState)

/-- What a control call makes of the timer. -/
def after (now : TimePoint) : TimerCall → TimerState
  | .start => t.started now t.interval
  | .startWith interval => t.started now interval
  | .stop => t.stopped
  | .setInterval interval => t.withInterval now interval
  | .setSingleShot singleShot => { t with singleShot := singleShot }

/-- What `dispatchTimeout` makes of the timer when it is going to emit. -/
def fired (now : TimePoint) : TimerState :=
  if t.singleShot then t.stopped
  else { t.started now t.interval with interval := t.interval }

end TimerState

/-- What is left to do after the timer was changed by a control call, from `t` to `t'`. -/
def TimerCall.work (a : Addr) (t t' : TimerState) : TimerCall → TimerWork
  | .start | .startWith _ => .arm a t'.deadline t'.generation
  | .stop => .disarm a
  | .setInterval _ => if t.active then .arm a t'.deadline t'.generation else .idle
  | .setSingleShot _ => .idle

/-- What is left to do after `dispatchTimeout` has decided to emit. -/
def TimerState.firing (t : TimerState) (a : Addr) (now : TimePoint) : TimerWork :=
  if t.singleShot then .emit a t.generation true
  else .rearm a (t.fired now).deadline (t.fired now).generation t.generation

/-! ### The parts make the calls -/

namespace World

/-- The owner of a timer does what is left to do, up to an emission. -/
def perform (w : World) (owner : Option ExecutorId) : TimerWork → World
  | .arm a deadline generation | .rearm a deadline generation _ =>
      w.withExecs (w.execs.scheduleTimerWith owner (w.heap.nodePtr a) deadline generation)
  | .disarm a => w.withExecs (w.execs.cancelTimerWith owner a)
  | _ => w

/-- **A control call** changes the timer, and then does what is left to do. -/
theorem applyTimerCall_eq (w : World) (owner : Option ExecutorId) (a : Addr) (t : TimerState)
    (call : TimerCall) :
    w.applyTimerCall owner a t call = (w.setTimer a (t.after w.now call)).perform owner
      (call.work a t (t.after w.now call)) := by
  cases call with
  | start | startWith | stop | setSingleShot => rfl
  | setInterval interval =>
      by_cases hact : t.active = true
      · simp only [applyTimerCall, TimerCall.work, if_pos hact]
        rfl
      · simp only [applyTimerCall, TimerCall.work, if_neg hact]
        rfl

/-- **`dispatchTimeout`** ignores a stale entry, or changes the timer, and then does what is left to
do before it emits. -/
theorem dispatchTimeout_eq (w : World) {a : Addr} {n : Node} {t : TimerState} (generation : ℕ)
    (hn : w.heap.node a = .ok n) (ht : n.cls = .timer t) :
    w.dispatchTimeout a generation =
      if t.active && generation == t.generation then
        .ok (true, (w.setTimer a (t.fired w.now)).perform (w.heap.ownerExecutor n)
          (t.firing a w.now))
      else .ok (false, w) := by
  have hstart : w.dispatchTimeout a generation =
      if !t.active || generation != t.generation then .ok (false, w)
      else if t.singleShot then .ok (true, w.setTimer a t.stopped)
      else .ok (true, (w.setTimer a { t.started w.now t.interval with
        interval := t.interval }).armTimer (w.heap.ownerExecutor n) a
          (t.started w.now t.interval)) := by
    simp only [dispatchTimeout, hn, Outcome.ok_bind, ht, Outcome.pure_eq]
  rw [hstart]
  by_cases hcur : (t.active && generation == t.generation) = true
  · have hstale : ¬ (!t.active || generation != t.generation) = true := by
      simpa using hcur
    rw [if_pos hcur, if_neg hstale]
    by_cases hsingle : t.singleShot = true
    · rw [if_pos hsingle, TimerState.fired, TimerState.firing, if_pos hsingle, if_pos hsingle]
      rfl
    · rw [if_neg hsingle, TimerState.fired, TimerState.firing, TimerState.fired, if_neg hsingle,
        if_neg hsingle]
      rfl
  · have hstale : (!t.active || generation != t.generation) = true := by
      simp only [Bool.and_eq_true, beq_iff_eq, not_and] at hcur
      by_cases hact : t.active = true
      · simp [hcur hact]
      · simp [hact]
    rw [if_neg hcur, if_pos hstale]

end World

/-- The `NodePtr` of a timer. -/
def timerPtr (a : Addr) : NodePtr := { node := a, block := some a }

namespace TimerRun

variable (s : TimerRun)

/-! ### Single changes -/

/-- The tasks that wait at an executor. -/
def tasks : ExecutorId → List Task
  | .loop t => (s.loops t).tasks
  | .strand k => (s.strands k).queue

/-- The queue of an executor is replaced. -/
def setTasks (e : ExecutorId) (l : List Task) : TimerRun :=
  match e with
  | .loop t => { s with loops := Function.update s.loops t { s.loops t with tasks := l } }
  | .strand k => { s with strands := Function.update s.strands k { s.strands k with queue := l } }

/-- `post`. -/
def post (e : ExecutorId) (t : Task) : TimerRun := s.setTasks e (s.tasks e ++ [t])

/-- The service of a strand's pool. -/
def service (k : StrandId) : TimerService := s.services (s.strands k).pool

/-- The service of a strand's pool is replaced. -/
def setService (k : StrandId) (v : TimerService) : TimerRun :=
  { s with services := Function.update s.services (s.strands k).pool v }

/-- `scheduleTimer` of an executor. -/
def scheduleTimer (e : ExecutorId) (a : Addr) (deadline : TimePoint) (generation : ℕ) :
    TimerRun :=
  match e with
  | .loop t =>
      { s with
        loops := Function.update s.loops t ((s.loops t).scheduleTimer a deadline generation) }
  | .strand k =>
      s.setService k ((s.service k).schedule ⟨deadline, k, timerPtr a, generation⟩)

/-- `cancelTimer` of an executor. -/
def cancelTimer (e : ExecutorId) (a : Addr) : TimerRun :=
  match e with
  | .loop t => { s with loops := Function.update s.loops t ((s.loops t).cancelTimer a) }
  | .strand k => s.setService k ((s.service k).cancel a)

/-- An executor goes on to the next part of its work. -/
def goOn (e : ExecutorId) (k : TimerWork) : TimerRun :=
  { s with doing := Function.update s.doing e k }

/-- Something is observed. -/
def record (v : TimerEvent) : TimerRun := { s with log := v :: s.log }

/-- A timer is changed by an executor, which goes on to the given work. -/
def change (e : ExecutorId) (a : Addr) (T : OwnedTimer) (k : TimerWork) : TimerRun :=
  { s with
    timers := Function.update s.timers a (some T)
    doing := Function.update s.doing e k }

/-! ### What executors run -/

/-- A control call inside the owner `e`. -/
def apply (e : ExecutorId) (a : Addr) (T : OwnedTimer) (c : TimerCall) : TimerRun :=
  (s.change e a { T with state := T.state.after s.now c }
    (c.work a T.state (T.state.after s.now c))).record (.applied a c)

/-- `dispatchTimeout`, called by the executor `e`. -/
def dispatch (e : ExecutorId) (a : Addr) (generation : ℕ) (T : OwnedTimer) : TimerRun :=
  if T.state.active && generation == T.state.generation then
    s.change e a { T with state := T.state.fired s.now } (T.state.firing a s.now)
  else s

/-- The tasks that concern timers, run by the executor `e`. -/
def runTask (e : ExecutorId) : Task → TimerRun
  | .timer p c =>
      match s.timers p.node with
      | none => s
      | some T => if T.owner = e then s.apply e p.node T c else s.post T.owner (.timer p c)
  | .timeout p generation =>
      match s.timers p.node with
      | none => s
      | some T => if T.owner = e then s.dispatch e p.node generation T else s
  | _ => s

/-- The next part of the work of the executor `e`. -/
def advance (e : ExecutorId) : Option TimerRun :=
  match s.doing e with
  | .idle => none
  | .arm a deadline generation => (s.timers a).map fun T =>
      (s.scheduleTimer T.owner a deadline generation).goOn e .idle
  | .rearm a deadline generation fired => (s.timers a).map fun T =>
      (s.scheduleTimer T.owner a deadline generation).goOn e (.emit a fired false)
  | .disarm a => (s.timers a).map fun T => (s.cancelTimer T.owner a).goOn e .idle
  | .emit a fired singleShot => (s.timers a).map fun T =>
      (s.goOn e .idle).record (.emitted a fired singleShot T.state.active)
  | .leave a target => (s.timers a).map fun T =>
      s.change e a { T with owner := target } (.enter a)
  | .enter a => (s.timers a).map fun T =>
      s.goOn e (if T.state.active then .arm a T.state.deadline T.state.generation else .idle)
  | .destroy a => (s.timers a).map fun T =>
      { (s.cancelTimer T.owner a).goOn e .idle with timers := Function.update s.timers a none }

end TimerRun

/-! ### The steps -/

/-- The steps of a run. `post` is a control call from outside of the owner, `call` one inside.
An executor takes tasks from its queue, and moves or destroys timers that it owns; a loop takes due
entries and dispatches them, and the thread of a service takes due entries and posts them.
`serviceStop` and `serviceJoin` are the two halves of `TimerService::stop`. -/
inductive TimerStep
  | post (a : Addr) (c : TimerCall)
  | call (e : ExecutorId) (a : Addr) (c : TimerCall)
  | runTask (e : ExecutorId)
  | take (t : ThreadId)
  | dispatch (t : ThreadId)
  | move (e : ExecutorId) (a : Addr) (target : ExecutorId)
  | destroy (e : ExecutorId) (a : Addr)
  | work (e : ExecutorId)
  | serviceTake (p : PoolId)
  | servicePost (p : PoolId)
  | serviceStop (p : PoolId)
  | serviceJoin (p : PoolId)
  | tick (now : TimePoint)
  deriving DecidableEq

namespace TimerRun

/-- **One step of a run.** -/
inductive Step : TimerRun → TimerStep → TimerRun → Prop
  | post {s : TimerRun} {a : Addr} {c : TimerCall} {T : OwnedTimer} :
      s.timers a = some T →
      Step s (.post a c) ((s.post T.owner (.timer (timerPtr a) c)).record (.called a c))
  | call {s : TimerRun} {e : ExecutorId} {a : Addr} {c : TimerCall} {T : OwnedTimer} :
      s.doing e = .idle → s.timers a = some T → T.owner = e →
      Step s (.call e a c) (s.apply e a T c)
  | runTask {s : TimerRun} {e : ExecutorId} {k : Task} {rest : List Task} :
      s.doing e = .idle → s.tasks e = k :: rest →
      Step s (.runTask e) ((s.setTasks e rest).runTask e k)
  | take {s : TimerRun} {t : ThreadId} :
      s.doing (.loop t) = .idle →
      Step s (.take t)
        { s with
          loops := Function.update s.loops t ((s.loops t).takeDueTimers s.now).2
          batches := Function.update s.batches t
            (((s.loops t).takeDueTimers s.now).1 ++ s.batches t) }
  | dispatch {s : TimerRun} {t : ThreadId} {x : TimerEntry} {rest : List TimerEntry}
      {T : OwnedTimer} :
      s.doing (.loop t) = .idle → s.batches t = x :: rest → s.timers x.timer = some T →
      Step s (.dispatch t) ({ s with batches := Function.update s.batches t rest }.dispatch
        (.loop t) x.timer x.generation T)
  | move {s : TimerRun} {e target : ExecutorId} {a : Addr} {T : OwnedTimer} :
      s.doing e = .idle → s.timers a = some T → T.owner = e → target ≠ e →
      Step s (.move e a target) ((s.cancelTimer e a).goOn e (.leave a target))
  | destroy {s : TimerRun} {e : ExecutorId} {a : Addr} {T : OwnedTimer} :
      s.doing e = .idle → s.timers a = some T → T.owner = e →
      Step s (.destroy e a) (s.change e a { T with state := T.state.stopped } (.destroy a))
  | work {s s' : TimerRun} {e : ExecutorId} :
      s.advance e = some s' → Step s (.work e) s'
  | serviceTake {s : TimerRun} {p : PoolId} :
      (s.services p).stopped = false → s.due p = [] →
      Step s (.serviceTake p)
        { s with
          services := Function.update s.services p ((s.services p).takeDue s.now).2
          due := Function.update s.due p ((s.services p).takeDue s.now).1 }
  | servicePost {s : TimerRun} {p : PoolId} {x : ServiceEntry} {rest : List ServiceEntry} :
      s.due p = x :: rest →
      Step s (.servicePost p) ({ s with due := Function.update s.due p rest }.post
        (.strand x.strand) (.timeout x.timer x.generation))
  | serviceStop {s : TimerRun} {p : PoolId} :
      Step s (.serviceStop p)
        { s with services := Function.update s.services p (s.services p).stop }
  | serviceJoin {s : TimerRun} {p : PoolId} :
      (s.services p).stopped = true → s.due p = [] →
      Step s (.serviceJoin p) { s with joined := Function.update s.joined p true }
  | tick {s : TimerRun} {now : TimePoint} :
      s.now ≤ now → Step s (.tick now) { s with now := now }

end TimerRun

end SimplyNode
