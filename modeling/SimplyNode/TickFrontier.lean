import SimplyNode.ChildQueues
import SimplyNode.Lib.Frontier
import SimplyNode.Moves

/-!
# What is Left of a Tick

The frontier of a tick: the children that the loops in progress have still to read, and the roots
left in the copy. A node at or below one of them is still ahead of the tick; a node whose `run()` is
in progress and whose `update()` has not been called is open.

`Steady` is the state of a tick that comes to every node once: what is left is alive, belongs to the
loop and shares nothing, the loops can read their slots, and every node that the loop owned when the
tick started has been updated once unless it is ahead or open.

`Tick.Respects` is what a call of an `update()` has to see to, in the state before the call.

## Main results

* `Steady.change`: what a change of the world has to keep.
* `Steady.sameTree`, `Steady.moved`, `Steady.deleted`, `Steady.grafted`: marks and timers, a
  migration, a deletion, and a node under a new parent.
-/

open Frontier PointerForest

namespace SimplyNode

/-! ### The frontier -/

namespace Frame

/-- The slots of a vector that the loop has still to read. -/
def window (f : Frame) (v : SlotVector Addr) : List Addr := (v.slots.take f.stop).drop f.next

/-- The children that the loop will call `run()` of. -/
def rest (h : Heap) (f : Frame) : List Addr :=
  if f.updating then [] else
    match h.mem f.node with
    | some n => f.window n.children
    | none => []

/-- The loop can read the slots it has still to read. -/
structure InPlace (h : Heap) (f : Frame) : Prop where
  next_le : f.next ≤ f.stop
  slots : f.updating = false → f.next < f.stop → ∀ n, h.mem f.node = some n →
    n.children.buffer = f.buffer ∧ f.stop ≤ n.children.slots.length

/-- A change of the heap leaves the slots that the loop has still to read as they are, in the same
buffer. -/
def Undisturbed (h h' : Heap) (f : Frame) : Prop :=
  f.updating = false → f.next < f.stop → ∀ n n', h.mem f.node = some n → h'.mem f.node = some n' →
    n'.children.buffer = n.children.buffer ∧ f.window n'.children = f.window n.children

end Frame

/-- The `run()` of the node has been called and has not returned. -/
def Entered (fs : List Frame) (x : Addr) : Prop := ∃ f ∈ fs, f.node = x

/-- The `run()` of the node is in progress, and its `update()` is still to be called. -/
def Open (fs : List Frame) (x : Addr) : Prop := ∃ f ∈ fs, f.node = x ∧ f.updating = false

/-- The node was there when the tick of the loop started in the state `w₀`, and was the loop's. -/
def FromStart (t : ThreadId) (w₀ w : World) (x : Addr) : Prop :=
  ∃ g, w₀.heap.ownerOf x = some (.loop t) ∧ w₀.heap.generationOf x = some g ∧
    w.heap.generationOf x = some g

namespace Tick

variable (s : Tick)

/-- The nodes that the loops in progress and the copy of the roots will come to. -/
def frontier : List Addr := s.stack.flatMap (Frame.rest s.world.heap) ++ s.todo

/-- The `run()` of the node is still to be called. -/
def Ahead (x : Addr) : Prop := Covered s.world.heap.parentOf s.frontier x

/-! ### What a call has to see to -/

/-- The node has come in since the start, the tick has nothing to do with it, and its queue holds
children of it. -/
structure Uninvolved (t : ThreadId) (w₀ : World) (x : Addr) : Prop where
  notMem_frontier : x ∉ s.frontier
  not_entered : ¬ Entered s.stack x
  not_fromStart : ¬ FromStart t w₀ s.world x
  queueOwn : s.world.QueueOwn x

/-- The node `a` goes under `v`: the old and the new parent are both still ahead of the tick, or
both not; or there are only nodes below it that the tick has nothing to do with. -/
def MayGraft (t : ThreadId) (w₀ : World) (a : Addr) (v : Option Addr) : Prop :=
  ((∃ q, s.world.heap.parentOf a = some q ∧ s.Ahead q) ↔ ∃ p, v = some p ∧ s.Ahead p) ∨
    ∀ x, Above s.world.heap.parentOf x a → s.Uninvolved t w₀ x

/-- The subtree of the node can go to another owner: the tick will not call `run()` or `update()` of
a node in it. -/
def MayMove (a : Addr) : Prop :=
  ∀ x, Above s.world.heap.parentOf x a → x ∉ s.frontier ∧ ¬ Open s.stack x

/-- The subtree of the node can be deleted: the tick will not touch it. -/
def MayDelete (a : Addr) : Prop :=
  ∀ x, Above s.world.heap.parentOf x a → x ∉ s.frontier ∧ ¬ Entered s.stack x

/-- What a call has to see to that an `update()` makes in the tick of the loop of the thread `t`. -/
def Respects (t : ThreadId) (w₀ : World) : Call → Prop
  | .tree (.construct _ _ _) => True
  | .tree (.addChild p c) => s.world.heap.isRoot c = true ∧ ¬ Above s.world.heap.parentOf p c ∧
      s.world.heap.ownerOf c = s.world.heap.ownerOf p ∧ s.MayGraft t w₀ c (some p)
  | .tree (.setParent a v) => (∀ p, v = some p → ¬ Above s.world.heap.parentOf p a ∧
      s.world.heap.ownerOf a = s.world.heap.ownerOf p) ∧ s.MayGraft t w₀ a v ∧
      ∀ x, s.Ahead x → a ∉ s.world.heap.queueOf x
  | .tree (.delete a) => s.MayDelete a
  | .deleteLater _ => True
  | .moveToThread a target => s.world.MovesToThread (.onLoop t) a target → s.MayMove a
  | .moveToTaskPool a p => s.world.MovesToTaskPool (.onLoop t) a p → s.MayMove a
  | .timer _ _ => True

/-- **Every call of an `update()` sees to it**, and leaves the slots alone that the loops in
progress have still to read. -/
def Considerate (t : ThreadId) (w₀ : World) (l : TickStep) : Prop :=
  ∀ c, l = .call c → s.Respects t w₀ c ∧ ∀ w', c.apply (.onLoop t) s.world = .ok w' →
    ∀ f ∈ s.stack, f.Undisturbed s.world.heap w'.heap

end Tick

/-! ### The invariant -/

/-- The tick of the loop of the thread `t` that started in the state `w₀` comes to every node once.
Its frames are `fs`, its frontier is `l`, and `u` lists the generations of the nodes whose
`update()` has been called. -/
structure Steady (t : ThreadId) (w₀ w : World) (fs : List Frame) (l : List Addr)
    (u : List Generation) : Prop where
  start : w₀.heap.Named
  forested : Forested w
  next_le : w₀.heap.nextGeneration ≤ w.heap.nextGeneration
  queues : ∀ x, Covered w.heap.parentOf l x → w.QueueOwn x
  owned : ∀ c ∈ l, w.heap.ownerOf c = some (.loop t)
  apart : Apart w.heap.parentOf l
  entered : ∀ f ∈ fs, w.heap.Live f.node ∧ ¬ Covered w.heap.parentOf l f.node
  opened : ∀ x, Open fs x → w.heap.ownerOf x = some (.loop t)
  nodup : (fs.map Frame.node).Nodup
  loops : ∀ f ∈ fs, f.InPlace w.heap
  counted : ∀ x g, FromStart t w₀ w x → w.heap.generationOf x = some g →
    (Covered w.heap.parentOf l x ∨ Open fs x) ∧ u.count g = 0 ∨
      ¬ (Covered w.heap.parentOf l x ∨ Open fs x) ∧ u.count g = 1

/-- The tick of the loop of the thread `t` comes to every node once. -/
abbrev Tick.OnCourse (t : ThreadId) (w₀ : World) (s : Tick) : Prop :=
  Steady t w₀ s.world s.stack s.frontier s.updated

namespace Frame

variable {h h' : Heap} {f : Frame} {n : Node}

theorem rest_of_mem (hu : f.updating = false) (hm : h.mem f.node = some n) :
    f.rest h = f.window n.children := by
  simp [rest, hu, hm]

theorem window_of_le {v : SlotVector Addr} (hle : f.stop ≤ f.next) : f.window v = [] := by
  rw [window, List.drop_eq_nil_iff, List.length_take]
  omega

theorem rest_of_updating (hu : f.updating = true) : f.rest h = [] := by
  simp [rest, hu]

theorem rest_of_le (hle : f.stop ≤ f.next) : f.rest h = [] := by
  rw [rest]
  split
  · rfl
  · split
    · exact window_of_le hle
    · rfl

namespace Undisturbed

/-- What is to be read is the same. -/
theorem rest_eq (hk : f.Undisturbed h h') (hl : h.Live f.node) (hl' : h'.Live f.node) :
    f.rest h' = f.rest h := by
  obtain ⟨n, hn⟩ := Option.isSome_iff_exists.mp hl
  obtain ⟨n', hn'⟩ := Option.isSome_iff_exists.mp hl'
  cases hu : f.updating with
  | true => rw [rest_of_updating hu, rest_of_updating hu]
  | false =>
      by_cases hlt : f.next < f.stop
      · rw [rest_of_mem hu hn, rest_of_mem hu hn', (hk hu hlt n n' hn hn').2]
      · rw [rest_of_le (by omega), rest_of_le (by omega)]

/-- The loop can still read its slots. -/
theorem inPlace (hk : f.Undisturbed h h') (hl : h.Live f.node) (hf : f.InPlace h) :
    f.InPlace h' where
  next_le := hf.next_le
  slots hu hlt n' hn' := by
    obtain ⟨n, hn⟩ := Option.isSome_iff_exists.mp hl
    obtain ⟨hbuf, hlen⟩ := hf.slots hu hlt n hn
    obtain ⟨hbuf', hwin⟩ := hk hu hlt n n' hn hn'
    refine ⟨hbuf'.trans hbuf, ?_⟩
    have hlength := congrArg List.length hwin
    simp only [window, List.length_drop, List.length_take] at hlength
    omega

/-- The children are the same. -/
theorem of_children (h₀ : (h'.mem f.node).map Node.children = (h.mem f.node).map Node.children) :
    f.Undisturbed h h' := by
  intro _ _ n n' hn hn'
  rw [hn, hn'] at h₀
  have hkids : n'.children = n.children := Option.some.inj h₀
  exact ⟨by rw [hkids], by rw [hkids]⟩

end Undisturbed

end Frame

namespace Steady

variable {t : ThreadId} {w₀ w w' : World} {fs : List Frame} {l : List Addr} {u : List Generation}
  {a x : Addr} {v : Option Addr}

/-- **What a change of the world has to keep.** -/
theorem change (hs : Steady t w₀ w fs l u) (hf' : Forested w')
    (hnext : w.heap.nextGeneration ≤ w'.heap.nextGeneration)
    (hkeep : ∀ f ∈ fs, f.Undisturbed w.heap w'.heap)
    (hqueues : ∀ x, Covered w'.heap.parentOf l x → w'.QueueOwn x)
    (howned : ∀ x, x ∈ l ∨ Open fs x → w'.heap.ownerOf x = some (.loop t))
    (hapart : Apart w'.heap.parentOf l)
    (hent : ∀ f ∈ fs, w'.heap.Live f.node ∧ ¬ Covered w'.heap.parentOf l f.node)
    (hstart : ∀ x, FromStart t w₀ w' x → FromStart t w₀ w x ∧
      (Covered w'.heap.parentOf l x ↔ Covered w.heap.parentOf l x)) :
    Steady t w₀ w' fs l u where
  start := hs.start
  forested := hf'
  next_le := Nat.le_trans hs.next_le hnext
  queues := hqueues
  owned c hc := howned c (Or.inl hc)
  apart := hapart
  entered := hent
  opened x hx := howned x (Or.inr hx)
  nodup := hs.nodup
  loops f hf := (hkeep f hf).inPlace (hs.entered f hf).1 (hs.loops f hf)
  counted x g hx hg := by
    obtain ⟨hx', hcov⟩ := hstart x hx
    have hgen : w.heap.generationOf x = some g := by
      obtain ⟨k, -, hk₀, hk⟩ := hx
      obtain ⟨k', -, hk₀', hk'⟩ := hx'
      rw [hk', ← hk₀', hk₀, ← hk, hg]
    rw [hcov]
    exact hs.counted x g hx' hgen

/-- Marks, queues and timers. -/
theorem sameTree (hs : Steady t w₀ w fs l u) (hsame : Heap.SameTree w.heap w'.heap)
    (hf' : Forested w') (hq : ∀ x, w.QueueOwn x → w'.QueueOwn x) : Steady t w₀ w' fs l u := by
  have hpar : w'.heap.parentOf = w.heap.parentOf := funext hsame.parentOf
  refine hs.change hf' (Nat.le_of_eq hsame.nextGeneration.symm)
    (fun f _ => .of_children (hsame.map_eq f.node Node.children fun _ => rfl)) ?_ ?_ ?_ ?_ ?_
  · intro x hx
    rw [hpar] at hx
    exact hq x (hs.queues x hx)
  · intro x hx
    rw [hsame.ownerOf]
    exact hx.elim (hs.owned x) (hs.opened x)
  · rw [hpar]
    exact hs.apart
  · intro f hf
    rw [hpar]
    exact ⟨(hsame.live _).mpr (hs.entered f hf).1, (hs.entered f hf).2⟩
  · intro x hx
    rw [hpar]
    refine ⟨?_, Iff.rfl⟩
    simpa only [FromStart, hsame.generationOf] using hx

/-- A migration of a subtree that the tick will not come to. -/
theorem moved {e : ExecutorId} (hs : Steady t w₀ w fs l u) (hm : w.Moved w' a e)
    (hc : Consistent w') (hnext : w.heap.nextGeneration ≤ w'.heap.nextGeneration)
    (hclear : ∀ x, Above w.heap.parentOf x a → x ∉ l ∧ ¬ Open fs x) : Steady t w₀ w' fs l u := by
  have hmem : w'.heap.mem = w.heap.mem := hm.mem
  have hpar : w'.heap.parentOf = w.heap.parentOf := by
    funext x
    simp only [Heap.parentOf, hmem]
  have hf' : Forested w' := ⟨hc, fun x => by rw [hpar]; exact hs.forested.grounded x⟩
  refine hs.change hf' hnext (fun f _ => .of_children (by rw [hmem])) ?_ ?_ ?_ ?_ ?_
  · intro x hx c hcq
    rw [hpar] at hx ⊢
    rw [Heap.queueOf, hmem] at hcq
    exact hs.queues x hx c hcq
  · intro x hx
    have hb : ¬ Below w.heap.childrenOf a x := by
      intro hb
      obtain ⟨hl, ho⟩ := hclear x (hs.forested.linked.below_iff_above.mp hb)
      exact hx.elim hl ho
    rw [hm.outside x hb]
    exact hx.elim (hs.owned x) (hs.opened x)
  · rw [hpar]
    exact hs.apart
  · intro f hf
    rw [hpar, Heap.Live, hmem]
    exact hs.entered f hf
  · intro x hx
    rw [hpar]
    refine ⟨?_, Iff.rfl⟩
    simpa only [FromStart, Heap.generationOf, hmem] using hx

/-- A deletion of a subtree that the tick will not touch. -/
theorem deleted (hs : Steady t w₀ w fs l u) (hd : Deleted w.heap w'.heap a) (hf' : Forested w')
    (hclear : ∀ x, Above w.heap.parentOf x a → x ∉ l ∧ ¬ Entered fs x)
    (hkeep : ∀ f ∈ fs, f.Undisturbed w.heap w'.heap) : Steady t w₀ w' fs l u := by
  have hl := hs.forested.linked
  have hnot : ∀ x, x ∈ l ∨ Entered fs x → ¬ Below w.heap.childrenOf a x := by
    intro x hx hb
    obtain ⟨hxl, hxe⟩ := hclear x (hl.below_iff_above.mp hb)
    exact hx.elim hxl hxe
  -- a chain of parents of a live node is what it was
  have hle : ∀ y, w'.heap.parentOf y = none ∨ w'.heap.parentOf y = w.heap.parentOf y := by
    intro y
    by_cases hy : Below w.heap.childrenOf a y
    · exact Or.inl (by rw [Heap.parentOf, hd.gone y hy]; rfl)
    · exact Or.inr (hd.parentOf hy)
  have hcov : ∀ x, ¬ Below w.heap.childrenOf a x →
      (Covered w'.heap.parentOf l x ↔ Covered w.heap.parentOf l x) := by
    intro x hx
    constructor
    · rintro ⟨c, hc, hxc⟩
      exact ⟨c, hc, above_of_restrict hle hxc⟩
    · rintro ⟨c, hc, hxc⟩
      exact ⟨c, hc, hd.above hl hx hxc⟩
  have hlive : ∀ x, w'.heap.Live x → ¬ Below w.heap.childrenOf a x := fun x hx =>
    ((hd.live x).mp hx).2
  refine hs.change hf' (Nat.le_of_eq hd.nextGeneration.symm) hkeep ?_ ?_ (hs.apart.restrict hle)
    ?_ ?_
  · rintro x ⟨c, hc, hxc⟩
    exact (hs.queues x ⟨c, hc, above_of_restrict hle hxc⟩).delete hs.forested hd
  · intro x hx
    have hnx : ¬ Below w.heap.childrenOf a x := by
      refine hnot x (hx.imp_right ?_)
      rintro ⟨f, hf, hfx, -⟩
      exact ⟨f, hf, hfx⟩
    rw [hd.ownerOf hnx]
    exact hx.elim (hs.owned x) (hs.opened x)
  · intro f hf
    have hb := hnot f.node (Or.inr ⟨f, hf, rfl⟩)
    rw [hcov f.node hb]
    exact ⟨(hd.live _).mpr ⟨(hs.entered f hf).1, hb⟩, (hs.entered f hf).2⟩
  · rintro x ⟨g, ho, hg₀, hg⟩
    have hb := hlive x (Heap.live_iff_generationOf.mpr ⟨g, hg⟩)
    rw [hd.generationOf hb] at hg
    exact ⟨⟨g, ho, hg₀, hg⟩, hcov x hb⟩

/-! ### A node under a new parent -/

end Steady

/-- The node `a` has gone under `v`, where it closes no cycle, or has come into being there. The
other nodes are the same, with the same owners, and no queue has got longer. -/
structure World.Grafts (w w' : World) (a : Addr) (v : Option Addr) : Prop where
  forested : Forested w'
  next_le : w.heap.nextGeneration ≤ w'.heap.nextGeneration
  attached : Heap.Attached w.heap w'.heap a v
  not_above : ∀ p, v = some p → ¬ Above w.heap.parentOf p a
  owner : ∀ x, w.heap.Live x → w'.heap.ownerOf x = w.heap.ownerOf x
  generation : ∀ x g, w'.heap.generationOf x = some g → g < w.heap.nextGeneration →
    w.heap.generationOf x = some g
  queue : ∀ x, w'.heap.queueOf x ⊆ w.heap.queueOf x

namespace Steady

variable {t : ThreadId} {w₀ w w' : World} {fs : List Frame} {l : List Addr} {u : List Generation}
  {a x : Addr} {v : Option Addr}

/-- A node that was there at the start was there before the graft. -/
theorem fromStart_of_grafts (hs : Steady t w₀ w fs l u) (hg : w.Grafts w' a v)
    (hx : FromStart t w₀ w' x) : FromStart t w₀ w x := by
  obtain ⟨g, ho, hg₀, hgx⟩ := hx
  have hlt : g < w.heap.nextGeneration :=
    Nat.lt_of_lt_of_le (hs.start.gen_lt x g hg₀) hs.next_le
  exact ⟨g, ho, hg₀, hg.generation x g hgx hlt⟩

theorem live_of_involved (hs : Steady t w₀ w fs l u) (hx : x ∈ l ∨ Open fs x) :
    w.heap.Live x :=
  Heap.live_of_ownerOf (hx.elim (hs.owned x) (hs.opened x))

/-- **A node between two parents** that are both still ahead, or both not. -/
theorem grafted (hs : Steady t w₀ w fs l u) (hg : w.Grafts w' a v)
    (hstay : (∃ q, w.heap.parentOf a = some q ∧ Covered w.heap.parentOf l q) ↔
      ∃ p, v = some p ∧ Covered w.heap.parentOf l p)
    (hqueues : ∀ x, Covered w.heap.parentOf l x → a ∉ w.heap.queueOf x)
    (hkeep : ∀ f ∈ fs, f.Undisturbed w.heap w'.heap) : Steady t w₀ w' fs l u := by
  have hpar := hg.attached.parentOf_eq_update
  have hcov : ∀ x, Covered w'.heap.parentOf l x ↔ Covered w.heap.parentOf l x := by
    intro x
    rw [hpar]
    exact covered_reparent_iff hs.forested.grounded hg.not_above hstay
  refine hs.change hg.forested hg.next_le hkeep ?_ ?_ ?_ ?_ ?_
  · intro x hx
    have hx := (hcov x).mp hx
    exact (hs.queues x hx).attached hg.attached (hqueues x hx) (hg.queue x)
  · intro x hx
    rw [hg.owner x (hs.live_of_involved hx)]
    exact hx.elim (hs.owned x) (hs.opened x)
  · rw [hpar]
    exact hs.apart.reparent hs.forested.grounded hg.not_above hstay
  · intro f hf
    rw [hcov]
    exact ⟨(hg.attached.live _).mpr (Or.inr (hs.entered f hf).1), (hs.entered f hf).2⟩
  · exact fun x hx => ⟨hs.fromStart_of_grafts hg hx, hcov x⟩

/-- **A node that the tick has nothing to do with**, and nothing below it either. -/
theorem grafted_free (hs : Steady t w₀ w fs l u) (hg : w.Grafts w' a v)
    (hfree : ∀ x, Above w.heap.parentOf x a →
      x ∉ l ∧ ¬ Entered fs x ∧ ¬ FromStart t w₀ w x ∧ w.QueueOwn x)
    (hqueues : ∀ x, Covered w.heap.parentOf l x → a ∉ w.heap.queueOf x)
    (hkeep : ∀ f ∈ fs, f.Undisturbed w.heap w'.heap) : Steady t w₀ w' fs l u := by
  have hpar := hg.attached.parentOf_eq_update
  have hcov : ∀ x, ¬ Above w.heap.parentOf x a →
      (Covered w'.heap.parentOf l x ↔ Covered w.heap.parentOf l x) := by
    intro x hx
    rw [hpar]
    exact covered_update_iff hx
  refine hs.change hg.forested hg.next_le hkeep ?_ ?_ ?_ ?_ ?_
  · intro x hx
    by_cases hxa : Above w.heap.parentOf x a
    · have hown := (hfree x hxa).2.2.2
      refine hown.attached hg.attached (fun ha => ?_) (hg.queue x)
      exact (hs.forested.grounded a).not_cycle (hown a ha) hxa
    · have hx := (hcov x hxa).mp hx
      exact (hs.queues x hx).attached hg.attached (hqueues x hx) (hg.queue x)
  · intro x hx
    rw [hg.owner x (hs.live_of_involved hx)]
    exact hx.elim (hs.owned x) (hs.opened x)
  · rw [hpar]
    exact hs.apart.reparent_free fun c hc hca => (hfree c hca).1 hc
  · intro f hf
    rw [hcov f.node fun h => (hfree f.node h).2.1 ⟨f, hf, rfl⟩]
    exact ⟨(hg.attached.live _).mpr (Or.inr (hs.entered f hf).1), (hs.entered f hf).2⟩
  · intro x hx
    have hx := hs.fromStart_of_grafts hg hx
    exact ⟨hx, hcov x fun h => (hfree x h).2.2.1 hx⟩

end Steady

end SimplyNode
