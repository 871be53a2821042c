import SimplyNode.World

/-!
# Executors

The operations of `EventLoop`, `Strand`, `TimerService` and `TaskPool` that the node tree
calls, each on the data of its own class, and the virtual functions of `Executor`, which
dispatch on the kind of executor. None of them reads or writes a node object.

A mutex section of the source is one function here. The wake-ups of condition variables are
left to the module on the event loop's wait.
-/

namespace SimplyNode

/-! ### Event loops -/

namespace EventLoop

variable (l : EventLoop)

/-- `EventLoop::post`. -/
def post (t : Task) : EventLoop := { l with tasks := l.tasks ++ [t] }

/-- `EventLoop::enqueueDelete`: a node already queued is not queued again. -/
def enqueueDelete (a : Addr) : EventLoop :=
  if a ∈ l.nodesToDelete then l else { l with nodesToDelete := l.nodesToDelete ++ [a] }

/-- `EventLoop::addNode`. -/
def addNode (a : Addr) : EventLoop := { l with nodes := l.nodes ++ [a] }

/-- `EventLoop::removeNode`. -/
def removeNode (a : Addr) : EventLoop := { l with nodes := l.nodes.filter (· ≠ a) }

/-- `EventLoop::addRootNode`. -/
def addRootNode (a : Addr) : EventLoop := { l with rootNodes := l.rootNodes ++ [a] }

/-- `EventLoop::removeRootNode`. -/
def removeRootNode (a : Addr) : EventLoop :=
  { l with rootNodes := l.rootNodes.filter (· ≠ a) }

/-- `EventLoop::cancelTimer`. -/
def cancelTimer (a : Addr) : EventLoop :=
  { l with timers := l.timers.filter (·.timer ≠ a) }

/-- `EventLoop::scheduleTimer`: replaces the entry of the timer. -/
def scheduleTimer (a : Addr) (deadline : TimePoint) (generation : ℕ) : EventLoop :=
  { l with timers := l.timers.filter (·.timer ≠ a) ++ [⟨a, deadline, generation⟩] }

/-- `EventLoop::takeDueTimers`: the entries whose deadline has been reached, and the loop
without them. -/
def takeDueTimers (now : TimePoint) : List TimerEntry × EventLoop :=
  (l.timers.filter (·.deadline ≤ now),
    { l with timers := l.timers.filter (¬ ·.deadline ≤ now) })

/-- `EventLoop::takePendingDeletes`. -/
def takePendingDeletes : List Addr × EventLoop :=
  (l.nodesToDelete, { l with nodesToDelete := [] })

end EventLoop

/-! ### Strands -/

namespace Strand

variable (s : Strand)

/-- `Strand::enqueueDelete`. -/
def enqueueDelete (a : Addr) : Strand := { s with pendingDeletes := s.pendingDeletes ++ [a] }

/-- `Strand::addNode`: only counts. -/
def addNode : Strand := { s with nodeCount := s.nodeCount + 1 }

/-- `Strand::removeNode`. -/
def removeNode : Strand := { s with nodeCount := s.nodeCount - 1 }

/-- `Strand::addRootNode`. -/
def addRootNode (a : Addr) : Strand := { s with rootNodes := s.rootNodes ++ [a] }

/-- `Strand::removeRootNode`. -/
def removeRootNode (a : Addr) : Strand := { s with rootNodes := s.rootNodes.filter (· ≠ a) }

/-- `Strand::isRecyclable`. -/
def isRecyclable : Bool :=
  !s.free && !s.reserved && s.nodeCount == 0 && !s.scheduled && s.queue.isEmpty

end Strand

/-! ### Task pools -/

namespace TaskPool

variable (p : TaskPool)

/-- `TimerService::cancel`. -/
def cancelTimer (a : Addr) : TaskPool :=
  { p with timers := p.timers.filter (·.timer.node ≠ a) }

/-- `TimerService::schedule`: replaces the entry of the timer; the queue is ordered by
deadline, an entry going behind the ones with the same deadline. Ignored once stopped. -/
def scheduleTimer (e : ServiceEntry) : TaskPool :=
  if p.timersStopped then p
  else
    let others := p.timers.filter (·.timer.node ≠ e.timer.node)
    { p with timers := others.takeWhile (·.deadline ≤ e.deadline) ++ e ::
        others.dropWhile (·.deadline ≤ e.deadline) }

/-- `TaskPool::enqueueStrandDrain`: refused once the workers are gone. -/
def enqueueStrandDrain (s : StrandId) : Option TaskPool :=
  if p.joined || (p.workers == 0 && !p.stopping) then none
  else some { p with queue := p.queue ++ [.drain s] }

end TaskPool

namespace Executors

variable (x : Executors)

/-- Changes the event loop of a thread. -/
def modifyLoop (t : ThreadId) (f : EventLoop → EventLoop) : Executors :=
  { x with loops := Function.update x.loops t (f (x.loops t)) }

/-- Changes a strand. -/
def modifyStrand (s : StrandId) (f : Strand → Strand) : Executors :=
  { x with strands := Function.update x.strands s (f (x.strands s)) }

/-- Changes a task pool. -/
def modifyPool (p : PoolId) (f : TaskPool → TaskPool) : Executors :=
  { x with pools := Function.update x.pools p (f (x.pools p)) }

/-! ### The virtual functions of `Executor` -/

/-- `addNode`. -/
def addNode (e : ExecutorId) (a : Addr) : Executors :=
  match e with
  | .loop t => x.modifyLoop t (·.addNode a)
  | .strand s => x.modifyStrand s (·.addNode)

/-- `removeNode`. -/
def removeNode (e : ExecutorId) (a : Addr) : Executors :=
  match e with
  | .loop t => x.modifyLoop t (·.removeNode a)
  | .strand s => x.modifyStrand s (·.removeNode)

/-- `addRootNode`. -/
def addRootNode (e : ExecutorId) (a : Addr) : Executors :=
  match e with
  | .loop t => x.modifyLoop t (·.addRootNode a)
  | .strand s => x.modifyStrand s (·.addRootNode a)

/-- `removeRootNode`. -/
def removeRootNode (e : ExecutorId) (a : Addr) : Executors :=
  match e with
  | .loop t => x.modifyLoop t (·.removeRootNode a)
  | .strand s => x.modifyStrand s (·.removeRootNode a)

/-- `enqueueDelete`. -/
def enqueueDelete (e : ExecutorId) (a : Addr) : Executors :=
  match e with
  | .loop t => x.modifyLoop t (·.enqueueDelete a)
  | .strand s => x.modifyStrand s (·.enqueueDelete a)

/-- `scheduleTimer`, for the timer that `p` points to: a strand arms its pool's timer
service, which keeps the `NodePtr`. -/
def scheduleTimer (e : ExecutorId) (p : NodePtr) (deadline : TimePoint) (generation : ℕ) :
    Executors :=
  match e with
  | .loop t => x.modifyLoop t (·.scheduleTimer p.node deadline generation)
  | .strand s => x.modifyPool (x.strands s).pool (·.scheduleTimer ⟨deadline, s, p, generation⟩)

/-- `cancelTimer`. -/
def cancelTimer (e : ExecutorId) (a : Addr) : Executors :=
  match e with
  | .loop t => x.modifyLoop t (·.cancelTimer a)
  | .strand s => x.modifyPool (x.strands s).pool (·.cancelTimer a)

/-- `Strand::schedule`: offers a drain to the pool; if it is refused nothing will run the
strand any more. -/
def scheduleStrand (s : StrandId) : Executors :=
  match (x.pools (x.strands s).pool).enqueueStrandDrain s with
  | some p => x.modifyPool (x.strands s).pool fun _ => p
  | none => x.modifyStrand s fun st => { st with scheduled := false }

/-- `Strand::post`: dropped once the strand is retired. -/
def postStrand (s : StrandId) (t : Task) : Executors :=
  if (x.strands s).retired then x
  else
    let y := x.modifyStrand s fun st => { st with queue := st.queue ++ [t], scheduled := true }
    if (x.strands s).scheduled then y else y.scheduleStrand s

/-- `post`. -/
def post (e : ExecutorId) (t : Task) : Executors :=
  match e with
  | .loop th => x.modifyLoop th (·.post t)
  | .strand s => x.postStrand s t

/-- `isRetired`. -/
def isRetired : ExecutorId → Bool
  | .loop t => (x.loops t).retired
  | .strand s => (x.strands s).retired

/-- The root list of an executor. -/
def rootNodes : ExecutorId → List Addr
  | .loop t => (x.loops t).rootNodes
  | .strand s => (x.strands s).rootNodes

/-- The pending deferred deletes of an executor. -/
def pendingDeletes : ExecutorId → List Addr
  | .loop t => (x.loops t).nodesToDelete
  | .strand s => (x.strands s).pendingDeletes

/-- The queued tasks of an executor. -/
def tasks : ExecutorId → List Task
  | .loop t => (x.loops t).tasks
  | .strand s => (x.strands s).queue

/-! ### Strands of a pool -/

/-- `TaskPool::acquireStrand`: a free strand or a new one, reserved for the caller. -/
def acquireStrand (p : PoolId) : Option (StrandId × Executors) :=
  if (x.pools p).stopping || (x.pools p).workers == 0 then none
  else
    match (x.pools p).freeStrands.getLast? with
    | some s =>
        let y := x.modifyPool p fun q => { q with freeStrands := q.freeStrands.dropLast }
        some (s, y.modifyStrand s fun st => { st with free := false, reserved := true })
    | none =>
        let s := x.nextStrand
        let y := x.modifyPool p fun q => { q with strands := q.strands ++ [s] }
        some (s, { y.modifyStrand s fun _ => { pool := p, reserved := true } with
          nextStrand := s + 1 })

/-- `TaskPool::recycleStrandIfIdle`. -/
def recycleStrandIfIdle (s : StrandId) : Executors :=
  if (x.strands s).isRecyclable then
    let y := x.modifyStrand s fun st => { st with free := true }
    y.modifyPool (x.strands s).pool fun q => { q with freeStrands := q.freeStrands ++ [s] }
  else x

/-- `TaskPool::releaseStrandReservation`. -/
def releaseStrandReservation (s : StrandId) : Executors :=
  (x.modifyStrand s fun st => { st with reserved := false }).recycleStrandIfIdle s

end Executors

/-! ### The calling thread -/

/-- Where a call comes from: the calling thread, the strand whose work it runs, and whether
it is a worker of a task pool. -/
structure CallContext where
  thread : ThreadId
  strand : Option StrandId := none
  worker : Bool := false
  deriving DecidableEq

/-- `isCurrent()` of an executor, for a call from the given context. -/
def CallContext.isCurrent (ctx : CallContext) : ExecutorId → Bool
  | .loop t => ctx.thread == t
  | .strand s => ctx.strand == some s

/-- A call from inside the event loop of a thread. -/
def CallContext.onLoop (t : ThreadId) : CallContext := { thread := t }

/-- A call from inside a strand, on the worker thread that drains it. -/
def CallContext.onStrand (t : ThreadId) (s : StrandId) : CallContext :=
  { thread := t, strand := some s, worker := true }

/-- The context of code inside an executor; the work of a strand is run by a pool worker. -/
def CallContext.inside (thread : ThreadId) : ExecutorId → CallContext
  | .loop t => .onLoop t
  | .strand s => .onStrand thread s

end SimplyNode
