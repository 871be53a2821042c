import Mathlib.Logic.Function.Basic
import Mathlib.Data.Int.Basic
import SimplyNode.Lib.SlotVector

/-!
# The State of the Framework

The node tree of SNFCore is a heap of `Node` objects that point at each other, at the
executors that own them and at lifetime blocks that outlive them. This module gives the
types of that state and nothing that changes it.

Objects are found by address. An address can be used again once the object at it has been
freed, so it does not name a node: what names a node is its `generation`, which the
constructor takes from a counter and which also identifies the node's lifetime block. A
`NodePtr` is an address together with the block that the registry had for the address when
the pointer was built.

An executor is either the event loop of a thread or a strand of a task pool. The pointer
type `Executor*` is the sum `ExecutorId`, and `eventLoop()` is its first injection.

Reads of freed objects are undefined behaviour in the source. Here they are the outcome
`Fault.useAfterFree`, so that a result `.ok w` says in particular that no freed object was
read on the way to `w`.
-/

namespace SimplyNode

/-- The address of a node object. -/
abbrev Addr := ℕ

/-- A value of the generation counter: one per constructed node, never used again. -/
abbrev Generation := ℕ

/-- A `std::thread::id` other than the one of no thread. -/
abbrev ThreadId := ℕ

/-- The address of a strand. Strands live as long as their pool. -/
abbrev StrandId := ℕ

/-- The address of a task pool. -/
abbrev PoolId := ℕ

/-- A reading of the steady clock, in nanoseconds. -/
abbrev TimePoint := ℤ

/-- An `Executor*`: the event loop of a thread, or a strand. -/
inductive ExecutorId
  | loop (thread : ThreadId)
  | strand (id : StrandId)
  deriving DecidableEq

/-- What can go wrong in an operation: a read of a freed object, an iteration over a buffer
that has been replaced, a call through a null pointer, an exception, or (in the model only)
an allocation at an address in use or a recursion deeper than its bound. -/
inductive Fault
  | useAfterFree (a : Addr)
  | danglingIterator (a : Addr)
  | nullPointer
  | logicError (what : String)
  | runtimeError (what : String)
  | addressInUse (a : Addr)
  | outOfFuel
  deriving DecidableEq

/-- The result of an operation that can go wrong. -/
abbrev Outcome := Except Fault

namespace Outcome

variable {α β : Type}

/-- A value is a result. -/
@[simp] theorem pure_eq (a : α) : (pure a : Outcome α) = .ok a := rfl

/-- A fault is thrown. -/
@[simp] theorem throw_eq (e : Fault) : (throw e : Outcome α) = .error e := rfl

/-- A result is passed on. -/
@[simp] theorem ok_bind (a : α) (f : α → Outcome β) : (Except.ok a >>= f) = f a := rfl

/-- A fault ends what follows. -/
@[simp] theorem error_bind (e : Fault) (f : α → Outcome β) :
    (Except.error e >>= f) = .error e := rfl

/-- A sequence succeeds iff both its parts do. -/
theorem bind_eq_ok {x : Outcome α} {f : α → Outcome β} {b : β} :
    x >>= f = .ok b ↔ ∃ a, x = .ok a ∧ f a = .ok b := by
  cases x with
  | error e => simp
  | ok a => simp

/-- A result is mapped when there is one. -/
theorem map_eq_ok {x : Outcome α} {f : α → β} {b : β} :
    x.map f = .ok b ↔ ∃ a, x = .ok a ∧ f a = b := by
  cases x with
  | error e => simp [Except.map]
  | ok a => simp [Except.map]

end Outcome

/-- The control block shared by a node and its `NodePtr`s. -/
structure NodeLifetimeBlock where
  alive : Bool := true
  markedForDelete : Bool := false
  owner : Option ExecutorId := none
  deriving DecidableEq

/-- The data members of a `Timer`; the interval is in milliseconds. -/
structure TimerState where
  interval : ℤ := 0
  singleShot : Bool := false
  active : Bool := false
  generation : ℕ := 0
  deadline : TimePoint := 0
  deriving DecidableEq

/-- The most derived class of a node, as far as the framework's own code tells classes
apart: a node of a user's class, a `PooledNode`, one whose `requiresEventLoop()` is true,
or a `Timer`. -/
inductive NodeClass
  | plain
  | pooled
  | eventLoopOnly
  | timer (state : TimerState)
  deriving DecidableEq

/-- The class is `Timer`. -/
def NodeClass.isTimer : NodeClass → Bool
  | .timer _ => true
  | _ => false

/-- `requiresEventLoop()`. -/
def NodeClass.requiresEventLoop : NodeClass → Bool
  | .eventLoopOnly => true
  | _ => false

/-- The data members of a `Node`. The lifetime block is found by the generation. -/
structure Node where
  parent : Option Addr := none
  children : SlotVector Addr := .empty
  childrenToDelete : SlotVector Addr := .empty
  isRoot : Bool := false
  generation : Generation
  cls : NodeClass := .plain
  deriving DecidableEq

/-- A `NodePtr`: the raw pointer, and the block found for it when it was built. -/
structure NodePtr where
  node : Addr
  block : Option Generation
  deriving DecidableEq

/-- An entry of an event loop's `m_timers`. -/
structure TimerEntry where
  timer : Addr
  deadline : TimePoint
  generation : ℕ
  deriving DecidableEq

/-- The member functions of `Timer` that have to run inside the timer's owner. -/
inductive TimerCall
  | start
  | startWith (interval : ℤ)
  | stop
  | setInterval (interval : ℤ)
  | setSingleShot (singleShot : Bool)
  deriving DecidableEq

/-- The functions posted to executors by the framework itself, with what they capture, and
any other posted function. -/
inductive Task
  /-- The task of `Node::postDeleteToOwner`. -/
  | deleteNode (node : Addr) (block : Generation)
  /-- The task of `Node::postMoveToOwner` for `moveToThread`. -/
  | moveToThread (node : Addr) (block : Generation) (target : ThreadId)
  /-- The task of `Node::postMoveToOwner` for `moveToTaskPool`. -/
  | moveToTaskPool (node : Addr) (block : Generation) (pool : PoolId)
  /-- The task of `detail::postToReceiverOwner`. -/
  | slot (receiver : Addr) (block : Generation) (call : ℕ)
  /-- The tasks of the member functions of `Timer`. -/
  | timer (timer : NodePtr) (call : TimerCall)
  /-- The task of `TimerService::run`. -/
  | timeout (timer : NodePtr) (generation : ℕ)
  /-- Any other posted function. -/
  | call (id : ℕ)
  deriving DecidableEq

/-- The data members of an `EventLoop` that the node tree depends on. `created` says that
the application has a loop for the thread. -/
structure EventLoop where
  created : Bool := false
  tasks : List Task := []
  nodesToDelete : List Addr := []
  nodes : List Addr := []
  rootNodes : List Addr := []
  timers : List TimerEntry := []
  readyIO : List ℕ := []
  stop : Bool := false
  running : Bool := false
  retired : Bool := false
  deriving DecidableEq

/-- The data members of a `Strand`. `m_nodeCount` is an integer, so that a decrement below
zero would show. -/
structure Strand where
  pool : PoolId := 0
  queue : List Task := []
  rootNodes : List Addr := []
  pendingDeletes : List Addr := []
  nodeCount : ℤ := 0
  scheduled : Bool := false
  retired : Bool := false
  reserved : Bool := false
  free : Bool := false
  deriving DecidableEq

/-- An entry of a pool's `TimerService`, with the `NodePtr` it holds. -/
structure ServiceEntry where
  deadline : TimePoint
  strand : StrandId
  timer : NodePtr
  generation : ℕ
  deriving DecidableEq

/-- An entry of a pool's queue: a strand's drain, or a task given to `start()`. -/
inductive PoolTask
  | drain (strand : StrandId)
  | call (id : ℕ)
  deriving DecidableEq

/-- The data members of a `TaskPool` and of its timer service. -/
structure TaskPool where
  workers : ℕ := 0
  stopping : Bool := false
  joined : Bool := false
  queue : List PoolTask := []
  strands : List StrandId := []
  freeStrands : List StrandId := []
  timers : List ServiceEntry := []
  timersStopped : Bool := false
  deriving DecidableEq

/-- An entry of the application's table of alive nodes. -/
structure NodeEntry where
  generation : Generation
  markedForDelete : Bool := false
  deriving DecidableEq

/-- The node objects and what is kept about them by address or by generation. -/
@[ext] structure Heap where
  /-- The node objects, by address. -/
  mem : Addr → Option Node
  /-- The lifetime blocks, by the generation of their node. -/
  blocks : Generation → NodeLifetimeBlock
  /-- The `NodeRegistry`: the block of the node at an address. -/
  registry : Addr → Option Generation
  /-- The application's table of alive nodes. -/
  aliveNodes : Addr → Option NodeEntry
  /-- The next value of the generation counter. -/
  nextGeneration : Generation

/-- The event loops, the strands and the task pools. -/
@[ext] structure Executors where
  /-- The event loops, by thread. -/
  loops : ThreadId → EventLoop
  /-- The strands. -/
  strands : StrandId → Strand
  /-- The task pools. -/
  pools : PoolId → TaskPool
  /-- The next address a strand is created at. -/
  nextStrand : StrandId

/-- The state of the framework. -/
@[ext] structure World where
  heap : Heap
  execs : Executors
  /-- The steady clock. -/
  now : TimePoint

/-- The application right after its construction, on the main thread `main`: one event loop,
no nodes, and one task pool with `workers` threads. The generation counter starts at one. -/
def World.initial (main : ThreadId) (workers : ℕ) : World where
  heap :=
    { mem := fun _ => none
      blocks := fun _ => {}
      registry := fun _ => none
      aliveNodes := fun _ => none
      nextGeneration := 1 }
  execs :=
    { loops := fun t => { created := t = main }
      strands := fun _ => {}
      pools := fun p => if p = 0 then { workers := workers } else {}
      nextStrand := 0 }
  now := 0

namespace Heap

variable (h : Heap)

/-! ### Reading the heap -/

/-- The object at an address; reading a freed one is undefined behaviour. -/
def node (a : Addr) : Outcome Node :=
  match h.mem a with
  | some n => .ok n
  | none => .error (.useAfterFree a)

/-- A node object is in memory at the address. -/
def Live (a : Addr) : Prop := (h.mem a).isSome

/-- Whether a node is alive can be tested. -/
instance (a : Addr) : Decidable (h.Live a) := inferInstanceAs (Decidable (_ = true))

/-- `Node::ownerExecutor()`. -/
def ownerExecutor (n : Node) : Option ExecutorId := (h.blocks n.generation).owner

/-- The owner of the node at an address. -/
def ownerOf (a : Addr) : Option ExecutorId := (h.mem a).bind h.ownerExecutor

/-- The parent of the node at an address. -/
def parentOf (a : Addr) : Option Addr := (h.mem a).bind Node.parent

/-- The children of the node at an address. -/
def childrenOf (a : Addr) : List Addr :=
  match h.mem a with
  | some n => n.children.live
  | none => []

/-- The node at an address is a root. -/
def isRoot (a : Addr) : Bool := (h.mem a).any Node.isRoot

/-- The generation of the node at an address. -/
def generationOf (a : Addr) : Option Generation := (h.mem a).map Node.generation

/-- The node at an address is a `Timer`. -/
def isTimer (a : Addr) : Bool := (h.mem a).any fun n => n.cls.isTimer

/-- The constructor of `NodePtr`: a registry lookup, without reading the object. -/
def nodePtr (a : Addr) : NodePtr := { node := a, block := h.registry a }

/-- `NodePtr::isAlive()`. -/
def isAlive (p : NodePtr) : Bool := p.block.any fun g => (h.blocks g).alive

/-- `NodePtr::ownerExecutor()`. -/
def ownerOfPtr (p : NodePtr) : Option ExecutorId := p.block.bind fun g => (h.blocks g).owner

/-! ### Changing single records -/

/-- Changes the object at an address, if there is one. -/
def modifyNode (a : Addr) (f : Node → Node) : Heap :=
  { h with mem := Function.update h.mem a ((h.mem a).map f) }

/-- Changes a lifetime block. -/
def modifyBlock (g : Generation) (f : NodeLifetimeBlock → NodeLifetimeBlock) : Heap :=
  { h with blocks := Function.update h.blocks g (f (h.blocks g)) }

/-- `Node::setOwnerExecutor`. -/
def setOwnerExecutor (g : Generation) (e : Option ExecutorId) : Heap :=
  h.modifyBlock g fun b => { b with owner := e }

/-! ### Reading the heap after a change -/

/-- One object is changed. -/
theorem mem_modifyNode (a : Addr) (f : Node → Node) (x : Addr) :
    (h.modifyNode a f).mem x = if x = a then (h.mem a).map f else h.mem x :=
  Function.update_apply ..

/-- The object that is changed. -/
@[simp] theorem mem_modifyNode_self (a : Addr) (f : Node → Node) :
    (h.modifyNode a f).mem a = (h.mem a).map f := by
  rw [mem_modifyNode, if_pos rfl]

/-- The other objects are the same. -/
theorem mem_modifyNode_of_ne {a x : Addr} (f : Node → Node) (hx : x ≠ a) :
    (h.modifyNode a f).mem x = h.mem x := by
  rw [mem_modifyNode, if_neg hx]

/-- A changed object leaves the blocks. -/
@[simp] theorem blocks_modifyNode (a : Addr) (f : Node → Node) :
    (h.modifyNode a f).blocks = h.blocks := rfl

/-- A changed object leaves the registry. -/
@[simp] theorem registry_modifyNode (a : Addr) (f : Node → Node) :
    (h.modifyNode a f).registry = h.registry := rfl

/-- A changed object leaves the set of alive nodes. -/
@[simp] theorem aliveNodes_modifyNode (a : Addr) (f : Node → Node) :
    (h.modifyNode a f).aliveNodes = h.aliveNodes := rfl

/-- A changed object leaves the counter. -/
@[simp] theorem nextGeneration_modifyNode (a : Addr) (f : Node → Node) :
    (h.modifyNode a f).nextGeneration = h.nextGeneration := rfl

/-- A changed block leaves the objects. -/
@[simp] theorem mem_modifyBlock (g : Generation) (f : NodeLifetimeBlock → NodeLifetimeBlock) :
    (h.modifyBlock g f).mem = h.mem := rfl

/-- One block is changed. -/
theorem blocks_modifyBlock (g k : Generation) (f : NodeLifetimeBlock → NodeLifetimeBlock) :
    (h.modifyBlock g f).blocks k = if k = g then f (h.blocks g) else h.blocks k :=
  Function.update_apply ..

/-- Reading an object succeeds exactly on live addresses. -/
theorem node_eq_ok {a : Addr} {n : Node} : h.node a = .ok n ↔ h.mem a = some n := by
  rw [node]
  cases hm : h.mem a <;> simp

/-- Reading an object that is there. -/
theorem node_of_mem {h : Heap} {a : Addr} {n : Node} (hm : h.mem a = some n) :
    h.node a = .ok n :=
  h.node_eq_ok.mpr hm

/-- The children of an object that is there. -/
theorem childrenOf_of_mem {h : Heap} {a : Addr} {n : Node} (hm : h.mem a = some n) :
    h.childrenOf a = n.children.live := by
  simp [childrenOf, hm]

/-- The owner of an object that is there. -/
theorem ownerOf_of_mem {h : Heap} {a : Addr} {n : Node} (hm : h.mem a = some n) :
    h.ownerOf a = (h.blocks n.generation).owner := by
  simp [ownerOf, hm, ownerExecutor]

/-- A changed object is alive as before. -/
theorem live_modifyNode {h : Heap} {a : Addr} (f : Node → Node) (x : Addr) :
    (h.modifyNode a f).Live x ↔ h.Live x := by
  rw [Live, mem_modifyNode, Live]
  split <;> rename_i hx
  · rw [hx, Option.isSome_map]
  · rfl

/-- The two heaps hold the same objects with the same blocks and table entries: only the
links between the objects may differ. -/
structure SameNodes (h h' : Heap) : Prop where
  ident : ∀ x, (h'.mem x).map (fun n => (n.generation, n.cls)) =
    (h.mem x).map fun n => (n.generation, n.cls)
  blocks : h'.blocks = h.blocks
  registry : h'.registry = h.registry
  aliveNodes : h'.aliveNodes = h.aliveNodes
  nextGeneration : h'.nextGeneration = h.nextGeneration

namespace SameNodes

variable {h h' h'' : Heap}

/-- The nodes are the same. -/
theorem refl (h : Heap) : SameNodes h h := ⟨fun _ => rfl, rfl, rfl, rfl, rfl⟩

/-- The nodes stay the same step by step. -/
theorem trans (hs : SameNodes h h') (hs' : SameNodes h' h'') : SameNodes h h'' where
  ident x := (hs'.ident x).trans (hs.ident x)
  blocks := hs'.blocks.trans hs.blocks
  registry := hs'.registry.trans hs.registry
  aliveNodes := hs'.aliveNodes.trans hs.aliveNodes
  nextGeneration := hs'.nextGeneration.trans hs.nextGeneration

/-- A change that keeps the generation and the class. -/
theorem modifyNode (h : Heap) (a : Addr) {f : Node → Node}
    (hg : ∀ n, (f n).generation = n.generation)
    (hc : ∀ n, (f n).cls = n.cls) : SameNodes h (h.modifyNode a f) where
  ident x := by
    rw [mem_modifyNode]
    split <;> rename_i hx
    · subst hx
      simp [Function.comp_def, hg, hc]
    · rfl
  blocks := rfl
  registry := rfl
  aliveNodes := rfl
  nextGeneration := rfl

/-- The same addresses are in use. -/
theorem isSome_mem (hs : SameNodes h h') (x : Addr) : (h'.mem x).isSome = (h.mem x).isSome := by
  simpa using congrArg Option.isSome (hs.ident x)

/-- The same nodes are alive. -/
theorem live (hs : SameNodes h h') (x : Addr) : h'.Live x ↔ h.Live x := by
  rw [Live, hs.isSome_mem, Live]

/-- The generations are the same. -/
theorem generationOf (hs : SameNodes h h') (x : Addr) :
    h'.generationOf x = h.generationOf x := by
  simpa [Heap.generationOf, Function.comp_def] using congrArg (Option.map Prod.fst) (hs.ident x)

/-- The same nodes are timers. -/
theorem isTimer (hs : SameNodes h h') (x : Addr) : h'.isTimer x = h.isTimer x := by
  have hx := hs.ident x
  rw [Heap.isTimer, Heap.isTimer]
  cases hm : h.mem x <;> cases hm' : h'.mem x
  all_goals simp_all

/-- The owners are the same. -/
theorem ownerOf (hs : SameNodes h h') (x : Addr) : h'.ownerOf x = h.ownerOf x := by
  have hx := hs.ident x
  rw [Heap.ownerOf, Heap.ownerOf]
  cases hm : h.mem x <;> cases hm' : h'.mem x
  all_goals simp_all [ownerExecutor, hs.blocks]

end SameNodes

end Heap

end SimplyNode
