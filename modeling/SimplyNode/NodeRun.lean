import SimplyNode.Affinity

/-!
# `Node::run` and the Tick of an Event Loop

`Node::run` deletes the children that are marked, runs the children that are left, and calls
`update()`. Both loops walk a vector of the object itself with iterators taken once at the
start, while what they call may change that vector: a slot is read from whatever the buffer
holds at that moment, and not at all if the buffer has been replaced.

The tick of an event loop runs the roots in a copy of the root list. `Tick` is a state of it
in which user code can come in: the roots left in the copy, and a frame for each `run()` in
progress. The code of `update()` is a sequence of calls, each of them a step of its own.

`P->run()` is the tick over the single root `P`.
-/

namespace SimplyNode

namespace World

variable (w : World)

/-- One step of a loop over a vector of the object at `a`, from the buffer that the loop
started in. -/
def readSlot (a : Addr) (vector : Node → SlotVector Addr) (buffer i : ℕ) : Outcome Addr := do
  let n ← w.heap.node a
  if (vector n).buffer ≠ buffer then throw (.danglingIterator a)
  else
    match (vector n).slots[i]? with
    | some c => pure c
    | none => throw (.danglingIterator a)

/-- The steps `i`, …, `i + k - 1` of the first loop of `Node::run`. The list is of the
children that have been deleted. -/
def deleteMarkedFrom (a : Addr) (buffer : ℕ) :
    ℕ → ℕ → World × List Addr → Outcome (World × List Addr)
  | 0, _, s => pure s
  | k + 1, i, (w, deleted) => do
      let c ← w.readSlot a Node.childrenToDelete buffer i
      if w.heap.isAlive (w.heap.nodePtr c) then do
        let w ← w.delete c
        deleteMarkedFrom a buffer k (i + 1) (w, deleted ++ [c])
      else deleteMarkedFrom a buffer k (i + 1) (w, deleted)

/-- The first loop of `Node::run`: its end is the end of the vector when it starts. -/
def deleteMarked (a : Addr) : Outcome (World × List Addr) := do
  let n ← w.heap.node a
  deleteMarkedFrom a n.childrenToDelete.buffer n.childrenToDelete.live.length 0 (w, [])

/-- `m_childrenToDelete.clear()`. -/
def clearMarked (a : Addr) : Outcome World := do
  let _ ← w.heap.node a
  pure (w.modifyNode a fun n => { n with childrenToDelete := n.childrenToDelete.clear })

end World

/-- A `run()` in progress: the loop over the children is to read the slots from `next` up to
`stop` in the buffer it started in, or `update()` has been called. -/
structure Frame where
  node : Addr
  buffer : ℕ
  next : ℕ
  stop : ℕ
  updating : Bool := false
  deriving DecidableEq

/-- `Node::run` up to the start of the loop over the children. -/
def World.enterRun (w : World) (a : Addr) : Outcome (World × Frame) := do
  let (w, _) ← w.deleteMarked a
  let w ← w.clearMarked a
  let n ← w.heap.node a
  pure (w,
    { node := a, buffer := n.children.buffer, next := 0, stop := n.children.live.length })

/-- A tick in progress. `updated` lists the generations of the nodes whose `update()` has
been called; the code keeps no such list, it is there to speak about the whole tick. -/
structure Tick where
  world : World
  todo : List Addr
  stack : List Frame := []
  updated : List Generation := []

/-- A step of a tick is one of the framework's own, or a call that an `update()` makes. -/
inductive TickStep
  | advance
  | call (c : Call)
  deriving DecidableEq

namespace Tick

/-- The steps of a tick in the event loop of the thread `t`. -/
inductive Step (t : ThreadId) : Tick → TickStep → Tick → Prop
  /-- `run()` of the next root in the copy. -/
  | root {w w' : World} {a : Addr} {todo : List Addr} {f : Frame} {u : List Generation} :
      w.enterRun a = .ok (w', f) →
      Step t ⟨w, a :: todo, [], u⟩ .advance ⟨w', todo, [f], u⟩
  /-- `run()` of the next child. -/
  | child {w w' : World} {c : Addr} {todo : List Addr} {f g : Frame} {fs : List Frame}
      {u : List Generation} :
      f.updating = false → f.next < f.stop →
      w.readSlot f.node Node.children f.buffer f.next = .ok c → w.enterRun c = .ok (w', g) →
      Step t ⟨w, todo, f :: fs, u⟩ .advance
        ⟨w', todo, g :: { f with next := f.next + 1 } :: fs, u⟩
  /-- `update()`, when the loop over the children is at its end. -/
  | update {w : World} {n : Node} {todo : List Addr} {f : Frame} {fs : List Frame}
      {u : List Generation} :
      f.updating = false → f.next = f.stop → w.heap.mem f.node = some n →
      Step t ⟨w, todo, f :: fs, u⟩ .advance
        ⟨w, todo, { f with updating := true } :: fs, u ++ [n.generation]⟩
  /-- A call that `update()` makes. -/
  | call {w w' : World} {c : Call} {todo : List Addr} {f : Frame} {fs : List Frame}
      {u : List Generation} :
      f.updating = true → c.apply (.onLoop t) w = .ok w' →
      Step t ⟨w, todo, f :: fs, u⟩ (.call c) ⟨w', todo, f :: fs, u⟩
  /-- The end of `run()`, after `update()`. -/
  | leave {w w' : World} {todo : List Addr} {f : Frame} {fs : List Frame}
      {u : List Generation} :
      f.updating = true → w.clearMarked f.node = .ok w' →
      Step t ⟨w, todo, f :: fs, u⟩ .advance ⟨w', todo, fs, u⟩

/-- `run()` of one node is about to be called. -/
def ofRun (w : World) (a : Addr) : Tick := { world := w, todo := [a] }

/-- All calls of `run()` have returned. -/
def Finished (s : Tick) : Prop := s.todo = [] ∧ s.stack = []

end Tick

end SimplyNode
