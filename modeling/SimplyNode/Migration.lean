import SimplyNode.Registration
import SimplyNode.Timer

/-!
# Migration to Another Executor

`Node::applyMoveTo` moves a subtree: each node lets go of what it has with its old owner,
changes the registrations and the root lists, names the new owner in its lifetime block,
takes up again what it had, and then its children follow. `moveToThread` and
`moveToTaskPool` check the request and apply it at once inside the owner; from elsewhere
they post it to the owner, and the posted task checks again, or forwards the request if the
node has migrated in the meantime.

Of the framework's own classes `Timer` is the one whose hooks touch the executors: its entry
moves with it, with the same deadline and generation.
-/

namespace SimplyNode

namespace World

variable (w : World)

/-! ### One node -/

/-- `onAboutToMoveToThread`: a timer cancels its entry with the old owner. -/
def onAboutToMoveToThread (a : Addr) (n : Node) : World :=
  match n.cls with
  | .timer _ => w.withExecs (w.execs.cancelTimerWith (w.heap.ownerExecutor n) a)
  | _ => w

/-- The old owner forgets the node. -/
def leaveExecutor (a : Addr) (n : Node) : World :=
  let old := w.heap.ownerExecutor n
  let x := w.execs.removeNodeFrom old a
  w.withExecs (if n.isRoot then x.removeRootFrom old a else x)

/-- The lifetime block names the new owner, and the new owner registers the node. -/
def enterExecutor (a : Addr) (n : Node) (target : ExecutorId) : World :=
  let w := w.withHeap (w.heap.setOwnerExecutor n.generation (some target))
  let x := w.execs.addNodeTo (some target) a
  w.withExecs (if n.isRoot then x.addRootTo (some target) a else x)

/-- `onMovedToThread`: an active timer is armed with the new owner. -/
def onMovedToThread (a : Addr) (n : Node) : World :=
  match n.cls with
  | .timer t =>
      if t.active then
        w.withExecs (w.execs.scheduleTimerWith (w.heap.ownerExecutor n) (w.heap.nodePtr a)
          t.deadline t.generation)
      else w
  | _ => w

/-- `Node::applyMoveTo`, to a depth of at most the given number of nodes. -/
def applyMoveTo : ℕ → World → Addr → ExecutorId → Outcome World
  | 0, _, _, _ => throw .outOfFuel
  | fuel + 1, w, a, target => do
      let n ← w.heap.node a
      if w.heap.ownerExecutor n = some target then pure w
      else
        let w := w.onAboutToMoveToThread a n
        let w := w.leaveExecutor a n
        let w := w.enterExecutor a n target
        let w := w.onMovedToThread a n
        (w.heap.childrenOf a).foldlM (fun w c => applyMoveTo fuel w c target) w

/-- `applyMoveTo` with a bound that exceeds the number of nodes. -/
def moveSubtree (a : Addr) (target : ExecutorId) : Outcome World :=
  applyMoveTo w.heap.nextGeneration w a target

/-! ### Moving to a thread -/

/-- `Node::ownerThreadId()`: a strand has no thread. -/
def ownerThreadId (n : Node) : Option ThreadId :=
  match w.heap.ownerExecutor n with
  | some (.loop t) => some t
  | _ => none

/-- The parent, if there is one, lives on the given thread. -/
def parentOnThread (n : Node) (target : ThreadId) : Outcome Bool :=
  match n.parent with
  | some p => do
      let m ← w.heap.node p
      pure (w.ownerThreadId m == some target)
  | none => pure true

/-- `Node::moveToThread`, called from the context `ctx`. -/
def moveToThread (ctx : CallContext) (a : Addr) (target : ThreadId) : Outcome (Bool × World) :=
  if !(w.execs.loops target).created || (w.execs.loops target).retired then pure (false, w)
  else do
    let n ← w.heap.node a
    match w.heap.ownerExecutor n with
    | none => pure (false, w)
    | some owner =>
        if !(← w.parentOnThread n target) then pure (false, w)
        else if ctx.isCurrent owner then do
          let w ← w.moveSubtree a (.loop target)
          pure (true, w)
        else
          pure (true, w.withExecs (w.execs.post owner (.moveToThread a n.generation target)))

/-- What the task posted by `moveToThread` applies on the owner. -/
def applyMoveToThread (a : Addr) (target : ThreadId) : Outcome World := do
  let n ← w.heap.node a
  if !(← w.parentOnThread n target) || (w.execs.loops target).retired then pure w
  else w.moveSubtree a (.loop target)

/-! ### Moving to a task pool -/

/-- `Node::subtreeRequiresEventLoop`, to a depth of at most the given number of nodes. -/
def subtreeRequiresEventLoop : ℕ → Heap → Addr → Outcome Bool
  | 0, _, _ => throw .outOfFuel
  | fuel + 1, h, a => do
      let n ← h.node a
      if n.cls.requiresEventLoop then pure true
      else n.children.live.anyM (subtreeRequiresEventLoop fuel h)

/-- The node has a strand of the pool for itself. -/
def hasOwnStrandOf (n : Node) (pool : PoolId) : Bool :=
  match w.heap.ownerExecutor n with
  | some (.strand s) =>
      (w.execs.strands s).pool == pool && (w.execs.strands s).rootNodes.length == 1
  | _ => false

/-- `PooledNode::applyMoveToTaskPool`. -/
def applyMoveToTaskPool (a : Addr) (pool : PoolId) : Outcome (Bool × World) := do
  let n ← w.heap.node a
  if n.parent.isSome then pure (false, w)
  else if ← subtreeRequiresEventLoop w.heap.nextGeneration w.heap a then pure (false, w)
  else if w.hasOwnStrandOf n pool then pure (true, w)
  else
    match w.execs.acquireStrand pool with
    | none => pure (false, w)
    | some (s, x) => do
        let w ← (w.withExecs x).moveSubtree a (.strand s)
        pure (true, w.withExecs (w.execs.releaseStrandReservation s))

/-- `PooledNode::moveToTaskPool`, called from the context `ctx`. -/
def moveToTaskPool (ctx : CallContext) (a : Addr) (pool : PoolId) : Outcome (Bool × World) :=
  if (w.execs.pools pool).workers == 0 then pure (false, w)
  else do
    let n ← w.heap.node a
    match w.heap.ownerExecutor n with
    | none => throw .nullPointer
    | some owner =>
        if ctx.isCurrent owner then w.applyMoveToTaskPool a pool
        else
          pure (true, w.withExecs (w.execs.post owner (.moveToTaskPool a n.generation pool)))

/-! ### The posted tasks -/

/-- The task of `Node::postMoveToOwner`, run by the executor `e`: dropped if the node is
dead, forwarded if it has migrated, and otherwise applied. -/
def runMoveTask (e : ExecutorId) (block : Generation) (task : Task)
    (apply : World → Outcome World) : Outcome World :=
  if !(w.heap.blocks block).alive then pure w
  else
    match (w.heap.blocks block).owner with
    | some o => if o ≠ e then pure (w.withExecs (w.execs.post o task)) else apply w
    | none => apply w

/-- The task of `detail::postToReceiverOwner`, run by the executor `e`: dropped if the
receiver is dead or to be deleted, and forwarded if it has migrated. The slot itself is user
code, which does nothing here. -/
def runSlotTask (e : ExecutorId) (block : Generation) (task : Task) : World :=
  if !(w.heap.blocks block).alive || (w.heap.blocks block).markedForDelete then w
  else
    match (w.heap.blocks block).owner with
    | some o => if o ≠ e then w.withExecs (w.execs.post o task) else w
    | none => w

/-- The task of a member function of `Timer`, run by the executor `e`: dropped if the timer
is dead, and posted again by the member function if it has migrated. -/
def runTimerTask (e : ExecutorId) (timer : NodePtr) (call : TimerCall) : Outcome World :=
  if !w.heap.isAlive timer then pure w
  else
    match w.heap.ownerOf timer.node with
    | some o =>
        if o ≠ e then
          pure (w.withExecs (w.execs.post o (.timer (w.heap.nodePtr timer.node) call)))
        -- the owner is current in its own task, on whatever thread that runs
        else w.timerCall (.inside 0 e) timer.node call
    | none => w.timerCall (.inside 0 e) timer.node call

/-- The task of `TimerService::run`, run by the strand or loop `e`: dropped if the timer is
dead or has another owner. The emission is user code, which does nothing here. -/
def runTimeoutTask (e : ExecutorId) (timer : NodePtr) (generation : ℕ) : Outcome World :=
  if w.heap.isAlive timer && w.heap.ownerOfPtr timer == some e then do
    let (_, w) ← w.dispatchTimeout timer.node generation
    pure w
  else pure w

/-- The functions that the framework posts, run by the executor `e`. Any other posted
function is user code, which does nothing here. -/
def runTask (e : ExecutorId) (task : Task) : Outcome World :=
  match task with
  | .deleteNode a g => pure (w.runDeleteTask e a g)
  | .moveToThread a g t => w.runMoveTask e g task fun w => w.applyMoveToThread a t
  | .moveToTaskPool a g p => w.runMoveTask e g task fun w => do
      let (_, w) ← w.applyMoveToTaskPool a p
      pure w
  | .slot _ g _ => pure (w.runSlotTask e g task)
  | .timer p c => w.runTimerTask e p c
  | .timeout p g => w.runTimeoutTask e p g
  | .call _ => pure w

end World

end SimplyNode
