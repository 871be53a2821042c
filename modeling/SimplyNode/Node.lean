import SimplyNode.Executor

/-!
# The Operations of a Node

The member functions of `Node` that build, change and take down the tree: the constructor,
`addChild`, `setParent`, the destructor with the recursion into the children, and
`deleteLater` with the task it posts. Each is the source's function statement by statement,
with the same order of effects.

The destructor recurses through the objects it deletes. `destroy` takes a bound on the depth
of that recursion, and `delete` supplies the generation counter, which exceeds the number of
nodes there are; that the bound is never reached is part of `delete_eq`.
-/

namespace SimplyNode

/-! ### Parts that only concern the heap -/

namespace Heap

variable (h : Heap)

/-- The new object with its block, in the registry. The counter gives the generation. -/
def allocate (a : Addr) (cls : NodeClass) (parent : Option Addr) : Heap :=
  { h with
    mem := Function.update h.mem a
      (some { parent := parent, generation := h.nextGeneration, cls := cls })
    blocks := Function.update h.blocks h.nextGeneration {}
    registry := Function.update h.registry a (some h.nextGeneration)
    nextGeneration := h.nextGeneration + 1 }

/-- `Application::registerAliveNode`. -/
def registerAliveNode (a : Addr) (g : Generation) : Heap :=
  { h with aliveNodes := Function.update h.aliveNodes a (some { generation := g }) }

/-- `Application::unregisterAliveNode`. -/
def unregisterAliveNode (a : Addr) : Outcome Heap :=
  match h.aliveNodes a with
  | some _ => pure { h with aliveNodes := Function.update h.aliveNodes a none }
  | none => throw (.runtimeError "Node not found in the alive nodes")

/-- `Application::markToDelete`. -/
def markToDelete (a : Addr) : Outcome Heap :=
  match h.aliveNodes a with
  | some e =>
      pure { h with
        aliveNodes := Function.update h.aliveNodes a (some { e with markedForDelete := true }) }
  | none => throw (.runtimeError "Node not found in the alive nodes")

/-- The start of `Node::~Node`: the block says dead, and the registry forgets the address. -/
def expire (a : Addr) (n : Node) : Heap :=
  { h.modifyBlock n.generation fun b => { b with alive := false } with
    registry := Function.update h.registry a none }

@[simp] theorem mem_expire (a : Addr) (n : Node) : (h.expire a n).mem = h.mem := rfl

/-- The object's memory goes back to the allocator. -/
def free (a : Addr) : Heap := { h with mem := Function.update h.mem a none }

/-- `Node::pushDeleteChild`: only a child is queued; a child can be queued again. -/
def pushDeleteChild (p c : Addr) : Outcome Heap := do
  let n ← h.node p
  if c ∈ n.children.live then
    pure (h.modifyNode p fun m =>
      { m with childrenToDelete := m.childrenToDelete.pushBack c })
  else pure h

end Heap

namespace Executors

variable (x : Executors)

/-- The owner takes the node out of its root list; without an owner nothing happens. -/
def removeRootFrom (e : Option ExecutorId) (a : Addr) : Executors :=
  match e with
  | some e => x.removeRootNode e a
  | none => x

/-- The owner takes the node into its root list; without an owner nothing happens. -/
def addRootTo (e : Option ExecutorId) (a : Addr) : Executors :=
  match e with
  | some e => x.addRootNode e a
  | none => x

/-- The owner registers the node; without an owner nothing happens. -/
def addNodeTo (e : Option ExecutorId) (a : Addr) : Executors :=
  match e with
  | some e => x.addNode e a
  | none => x

/-- The owner unregisters the node; without an owner nothing happens. -/
def removeNodeFrom (e : Option ExecutorId) (a : Addr) : Executors :=
  match e with
  | some e => x.removeNode e a
  | none => x

/-- The owner cancels the timer; without an owner nothing happens. -/
def cancelTimerWith (e : Option ExecutorId) (a : Addr) : Executors :=
  match e with
  | some e => x.cancelTimer e a
  | none => x

/-- The owner arms the timer; without an owner nothing happens. -/
def scheduleTimerWith (e : Option ExecutorId) (p : NodePtr) (deadline : TimePoint)
    (generation : ℕ) : Executors :=
  match e with
  | some e => x.scheduleTimer e p deadline generation
  | none => x

/-- `Application::getOrCreateCurrentThreadEventLoop`. -/
def createLoop (t : ThreadId) : Executors := x.modifyLoop t fun l => { l with created := true }

end Executors

namespace World

variable (w : World)

/-- Replaces the heap. -/
def withHeap (h : Heap) : World := { w with heap := h }

/-- Replaces the executors. -/
def withExecs (x : Executors) : World := { w with execs := x }

/-- Changes the object at an address, if there is one. -/
def modifyNode (a : Addr) (f : Node → Node) : World := w.withHeap (w.heap.modifyNode a f)

@[simp] theorem heap_withHeap (h : Heap) : (w.withHeap h).heap = h := rfl
@[simp] theorem execs_withHeap (h : Heap) : (w.withHeap h).execs = w.execs := rfl
@[simp] theorem heap_withExecs (x : Executors) : (w.withExecs x).heap = w.heap := rfl
@[simp] theorem execs_withExecs (x : Executors) : (w.withExecs x).execs = x := rfl
@[simp] theorem heap_modifyNode (a : Addr) (f : Node → Node) :
    (w.modifyNode a f).heap = w.heap.modifyNode a f := rfl
@[simp] theorem execs_modifyNode (a : Addr) (f : Node → Node) :
    (w.modifyNode a f).execs = w.execs := rfl

/-! ### Building and changing the tree -/

/-- `Node::addChild`, for a child that is not null. -/
def addChild (p c : Addr) : Outcome World := do
  let child ← w.heap.node c
  let w := if child.isRoot then
      (w.modifyNode c fun n => { n with isRoot := false }).withExecs
        (w.execs.removeRootFrom (w.heap.ownerExecutor child) c)
    else w
  let _ ← w.heap.node p
  let w := w.modifyNode c fun n => { n with parent := some p }
  pure (w.modifyNode p fun n => { n with children := n.children.pushBack c })

/-- The first half of `Node::setParent`: the node leaves its parent's vector, or its owner's
root list when it has no parent. -/
def leaveParent (a : Addr) (n : Node) : Outcome World :=
  match n.parent with
  | some q => do
      let _ ← w.heap.node q
      pure (w.modifyNode q fun m => { m with children := m.children.eraseFirst a })
  | none => pure (w.withExecs (w.execs.removeRootFrom (w.heap.ownerExecutor n) a))

/-- `Node::setParent`. -/
def setParent (a : Addr) (parent : Option Addr) : Outcome World := do
  let n ← w.heap.node a
  let owner := w.heap.ownerExecutor n
  let w ← w.leaveParent a n
  match parent with
  | none =>
      let w := w.modifyNode a fun m => { m with parent := none, isRoot := true }
      pure (w.withExecs (w.execs.addRootTo owner a))
  | some p => (w.modifyNode a fun m => { m with isRoot := false }).addChild p a

/-- The check at the start of `Node::Node`: on a task pool worker a node can only be created
inside a strand, under a parent of that strand or as a new root of it. The parent is an
object that the constructor reads on every thread. -/
def constructionAllowed (ctx : CallContext) (parent : Option Addr) : Outcome Bool :=
  match parent with
  | some p => do
      let n ← w.heap.node p
      pure (!ctx.worker || (w.heap.ownerExecutor n).any ctx.isCurrent)
  | none => pure (!ctx.worker || ctx.strand.isSome)

/-- The message of the exception that `Node::Node` throws outside a strand. -/
def outsideStrandMessage : String :=
  "snf::Node cannot be created on a TaskPool worker outside a strand: it has no EventLoop " ++
    "to deliver the node's queued signals and deferred deletes. Create nodes on a thread " ++
    "with an EventLoop (e.g. a ThreadPool worker), or from inside a PooledNode's slots"

/-- The owner of a new root: the strand whose work a pool worker runs, or the event loop of
the calling thread. -/
def newRootOwner (ctx : CallContext) : ExecutorId :=
  match (if ctx.worker then ctx.strand else none) with
  | some s => .strand s
  | none => .loop ctx.thread

/-- The executors after a new root. The event loop of a thread is created on first use. -/
def newRootExecs (x : Executors) (ctx : CallContext) (a : Addr) : Executors :=
  let owner := newRootOwner ctx
  let x := match owner with
    | .loop t => x.createLoop t
    | .strand _ => x
  (x.addRootNode owner a).addNode owner a

/-- `Node::Node` at a free address that the allocator returns, for an object of class
`cls`. -/
def construct (ctx : CallContext) (a : Addr) (cls : NodeClass) (parent : Option Addr) :
    Outcome World := do
  if (w.heap.mem a).isSome then throw (.addressInUse a)
  let allowed ← w.constructionAllowed ctx parent
  if !allowed then throw (.logicError outsideStrandMessage)
  let g := w.heap.nextGeneration
  let w := w.withHeap (w.heap.allocate a cls parent)
  match parent with
  | some p =>
      let parentNode ← w.heap.node p
      let owner := w.heap.ownerExecutor parentNode
      let w ← (w.withHeap (w.heap.setOwnerExecutor g owner)).addChild p a
      let w := w.withExecs (w.execs.addNodeTo owner a)
      pure (w.withHeap (w.heap.registerAliveNode a g))
  | none =>
      let w := w.withHeap (w.heap.setOwnerExecutor g (some (newRootOwner ctx)))
      let w := w.modifyNode a fun n => { n with isRoot := true }
      let w := w.withExecs (newRootExecs w.execs ctx a)
      pure (w.withHeap (w.heap.registerAliveNode a g))

/-! ### Taking the tree down -/

/-- `Timer::~Timer`: the timer is cancelled with its owner. Nothing for other classes. -/
def timerDestructor (a : Addr) (n : Node) : World :=
  match n.cls with
  | .timer t =>
      (w.modifyNode a fun m =>
        { m with cls := .timer { t with active := false, generation := t.generation + 1 } })
      |>.withExecs (w.execs.cancelTimerWith (w.heap.ownerExecutor n) a)
  | _ => w

/-- The node leaves its owner's root list, or its parent's two vectors. -/
def detach (a : Addr) (n : Node) : Outcome World :=
  if n.isRoot && (w.heap.ownerExecutor n).isSome then
    pure (w.withExecs (w.execs.removeRootFrom (w.heap.ownerExecutor n) a))
  else
    match n.parent with
    | some p => do
        let _ ← w.heap.node p
        pure (w.modifyNode p fun m =>
          { m with
            children := m.children.removeAll a
            childrenToDelete := m.childrenToDelete.removeAll a })
    | none => pure w

/-- `Node::~Node`, preceded by `Timer::~Timer` for a timer, and the release of the memory.
The children are moved out of the object and deleted one after the other. -/
def destroy : ℕ → World → Addr → Outcome World
  | 0, _, _ => throw .outOfFuel
  | fuel + 1, w, a => do
      let n ← w.heap.node a
      let owner := w.heap.ownerExecutor n
      let w := w.timerDestructor a n
      let w := w.withHeap (w.heap.expire a n)
      let w ← w.detach a n
      let kids := w.heap.childrenOf a
      let w := w.modifyNode a fun m => { m with children := m.children.movedFrom }
      let w ← kids.foldlM (destroy fuel) w
      let w := w.withExecs (w.execs.removeNodeFrom owner a)
      let h ← w.heap.unregisterAliveNode a
      pure (w.withHeap (h.free a))

/-- `delete node`. -/
def delete (a : Addr) : Outcome World := destroy w.heap.nextGeneration w a

/-! ### Deferred deletion -/

/-- `Node::deleteLater`, called from the context `ctx`. -/
def deleteLater (ctx : CallContext) (a : Addr) : Outcome World := do
  let n ← w.heap.node a
  let owner := w.heap.ownerExecutor n
  let h := w.heap.modifyBlock n.generation fun b => { b with markedForDelete := true }
  let h ← h.markToDelete a
  let w := w.withHeap h
  match owner, n.parent with
  | some e, parent =>
      if !ctx.isCurrent e then pure (w.withExecs (w.execs.post e (.deleteNode a n.generation)))
      else
        match e, parent with
        | .strand s, _ => pure (w.withExecs (w.execs.enqueueDelete (.strand s) a))
        | .loop _, some p => do
            let h ← w.heap.pushDeleteChild p a
            pure (w.withHeap h)
        | .loop t, none => pure (w.withExecs (w.execs.enqueueDelete (.loop t) a))
  | none, some p => do
      let h ← w.heap.pushDeleteChild p a
      pure (w.withHeap h)
  | none, none => throw (.runtimeError "Node owner EventLoop does not exist")

/-- The task of `Node::postDeleteToOwner`, run by the executor `e`: dropped if the node is
dead, forwarded if it has migrated, and otherwise queued with the executor. -/
def runDeleteTask (e : ExecutorId) (a : Addr) (block : Generation) : World :=
  if !(w.heap.blocks block).alive then w
  else
    match (w.heap.blocks block).owner with
    | some o =>
        if o ≠ e then w.withExecs (w.execs.post o (.deleteNode a block))
        else w.withExecs (w.execs.enqueueDelete e a)
    | none => w.withExecs (w.execs.enqueueDelete e a)

end World

end SimplyNode
