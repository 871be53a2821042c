import SimplyNode.Ownership

/-!
# Constructors That Throw

`Node::Node` fills tables: the `NodeRegistry`, the vector of the parent, the lists of the owner and
the table of alive nodes. It throws on a pool worker outside a strand before it has touched them,
and, once the registry has the new block, where there is no `Application` and where the thread has
no event loop and none can be created. No destructor runs for a constructor that throws, but the
block goes with the members of the object, so that the registry keeps an entry without a block. A
derived constructor that throws finds the destructor of `Node`, which empties the tables.

## Main results

* `tables_of_throws`: what a constructor leaves behind that throws.
* `tables_of_derivedThrows`: what is left behind when a derived constructor throws.
* `allOrNothing_iff`: when a construction leaves the tables as they were.
-/

namespace SimplyNode

/-- The state of the framework, whether there is an `Application`, and the entries of the
`NodeRegistry` whose block is gone. -/
structure Framework where
  world : World
  application : Bool := true
  expired : Addr → Option Generation := fun _ => none

namespace Heap

/-- The heap with a block that belongs to no object any more. -/
def lost (h : Heap) : Heap :=
  { h with
    blocks := Function.update h.blocks h.nextGeneration {}
    nextGeneration := h.nextGeneration + 1 }

variable {h : Heap}

theorem Named.blocks_lost (hn : h.Named) {x : Addr} {g : Generation}
    (hg : h.generationOf x = some g) : h.lost.blocks g = h.blocks g :=
  Function.update_of_ne (Nat.ne_of_lt (hn.gen_lt x g hg)) ..

theorem Named.ownerOf_lost (hn : h.Named) (x : Addr) : h.lost.ownerOf x = h.ownerOf x := by
  change (h.mem x).bind h.lost.ownerExecutor = (h.mem x).bind h.ownerExecutor
  cases hx : h.mem x with
  | none => rfl
  | some n =>
      have hg : h.generationOf x = some n.generation := by
        rw [generationOf, hx]
        rfl
      exact congrArg NodeLifetimeBlock.owner (hn.blocks_lost hg)

theorem Named.lost (hn : h.Named) : h.lost.Named where
  gen_lt x g hg := Nat.lt_succ_of_lt (hn.gen_lt x g hg)
  gen_inj := hn.gen_inj
  registry := hn.registry
  aliveNodes := hn.aliveNodes
  alive x g hg := by
    rw [hn.blocks_lost hg]
    exact hn.alive x g hg
  owned x hx := by
    rw [hn.ownerOf_lost]
    exact hn.owned x hx

end Heap

theorem Sound.lost {w : World} (hs : Sound w) : Sound (w.withHeap w.heap.lost) where
  named := hs.named.lost
  linked := ⟨hs.linked.mem_childrenOf, hs.linked.nodup, hs.linked.isRoot_iff⟩
  affine c p hp := by
    rw [World.heap_withHeap, hs.named.ownerOf_lost, hs.named.ownerOf_lost]
    exact hs.affine c p hp
  balanced := hs.balanced.congr hs.named.ownerOf_lost fun _ => rfl
  strand_lt x s hx := by
    rw [World.heap_withHeap, hs.named.ownerOf_lost] at hx
    exact hs.strand_lt x s hx

namespace Framework

variable (f : Framework)

/-- `NodeRegistry::m_map`. -/
def registry (a : Addr) : Option Generation := (f.world.heap.registry a).or (f.expired a)

/-- `NodePtr(a)`: the registry finds no block where it is gone. -/
def isAlive (a : Addr) : Bool := f.world.heap.isAlive (f.world.heap.nodePtr a)

/-- The object, with its block in the registry, for which a constructor throws: the memory and the
block are gone. -/
def throwRegistered (a : Addr) : Framework :=
  let h := f.world.heap.allocate a .plain none
  { f with
    world := f.world.withHeap
      { h with
        mem := Function.update h.mem a none
        registry := Function.update h.registry a none }
    expired := Function.update f.expired a (some f.world.heap.nextGeneration) }

/-- `getOrCreateCurrentThreadEventLoop` throws in the constructor of a root: the thread has no event
loop, and `creates` says whether one can be created. -/
def lacksLoop (ctx : CallContext) (parent : Option Addr) (creates : Bool) : Bool :=
  match parent, World.newRootOwner ctx with
  | none, .loop t => !(f.world.execs.loops t).created && !creates
  | _, _ => false

/-- `Node::Node`, with the exception that it throws. Until a derived constructor has run the object
is a plain node. -/
def construct (ctx : CallContext) (a : Addr) (parent : Option Addr) (creates : Bool) :
    Framework × Option Fault :=
  match f.world.constructionAllowed ctx parent with
  | .error fault => (f, some fault)
  | .ok false => (f, some (.logicError World.outsideStrandMessage))
  | .ok true =>
      if !f.application then
        (f.throwRegistered a, some (.runtimeError "Application instance not created"))
      else if f.lacksLoop ctx parent creates then
        (f.throwRegistered a, some (.runtimeError "Could not create EventLoop for thread"))
      else
        match f.world.construct ctx a .plain parent with
        | .error fault => (f, some fault)
        | .ok w => ({ f with world := w, expired := Function.update f.expired a none }, none)

/-- A derived constructor throws after `Node::Node`: `Node::~Node`. -/
def derivedThrows (a : Addr) : Outcome Framework := do
  let w ← f.world.delete a
  pure { f with world := w }

/-- The tables are the same: the registry, the vectors of children, the registrations and the root
lists of the executors, and the table of alive nodes. -/
structure SameTables (f f' : Framework) : Prop where
  registry : f'.registry = f.registry
  children : ∀ x, f'.world.heap.childrenOf x = f.world.heap.childrenOf x
  books : Executors.SameBooks f.world.execs f'.world.execs
  aliveNodes : f'.world.heap.aliveNodes = f.world.heap.aliveNodes

/-- **All or nothing**: where the constructor throws, and where a derived one throws after it, the
tables are as before, and the address has no node. -/
def AllOrNothing (ctx : CallContext) (a : Addr) (parent : Option Addr) (creates : Bool) : Prop :=
  match f.construct ctx a parent creates with
  | (f', some _) => SameTables f f' ∧ f'.isAlive a = false
  | (f', none) => ∃ f'', f'.derivedThrows a = .ok f'' ∧ SameTables f f'' ∧ f''.isAlive a = false

/-- The state of the framework is sound, and an entry without a block is one of a former
generation, at an address without a node. -/
structure Sound : Prop where
  world : SimplyNode.Sound f.world
  expired_lt : ∀ x g, f.expired x = some g → g < f.world.heap.nextGeneration
  apart : ∀ x, f.world.heap.Live x → f.expired x = none

/-! ### A constructor that throws -/

variable {f} {f' : Framework} {ctx : CallContext} {a : Addr} {parent : Option Addr}
  {creates : Bool}

theorem SameTables.refl (f : Framework) : SameTables f f :=
  ⟨rfl, fun _ => rfl, ⟨fun _ => rfl, fun _ => rfl, fun _ => rfl⟩, rfl⟩

/-- An address without a node is none of the registry's with a block. -/
theorem Sound.registry_none (h : f.Sound) (ha : f.world.heap.mem a = none) :
    f.world.heap.registry a = none := by
  rw [h.world.named.registry, Heap.generationOf, ha]
  rfl

theorem Sound.isAlive_of_free (h : f.Sound) (ha : f.world.heap.mem a = none) :
    f.isAlive a = false := by
  rw [isAlive, Heap.isAlive, Heap.nodePtr, h.registry_none ha]
  rfl

theorem registry_throwRegistered (f : Framework) (a x : Addr) :
    (f.throwRegistered a).registry x =
      if x = a then some f.world.heap.nextGeneration else f.registry x := by
  rw [registry, throwRegistered]
  dsimp only [World.heap_withHeap, Heap.allocate]
  rw [Function.update_apply, Function.update_apply, Function.update_apply]
  split
  · rfl
  · rfl

/-- The block that is gone is all that the heap has got. -/
theorem heap_throwRegistered (h : f.Sound) (ha : f.world.heap.mem a = none) :
    (f.throwRegistered a).world.heap = f.world.heap.lost := by
  have hmem : Function.update f.world.heap.mem a none = f.world.heap.mem :=
    Function.update_eq_self_iff.mpr ha.symm
  have hregistry : Function.update f.world.heap.registry a none = f.world.heap.registry :=
    Function.update_eq_self_iff.mpr (h.registry_none ha).symm
  rw [throwRegistered, Heap.lost]
  dsimp only [World.heap_withHeap, Heap.allocate]
  rw [Function.update_idem, Function.update_idem, hmem, hregistry]

/-- **What a constructor leaves behind** that throws after the registration: an entry of the
registry. The address has no node. -/
theorem tables_of_throws (h : f.Sound) (ha : f.world.heap.mem a = none) :
    (∀ x, (f.throwRegistered a).world.heap.childrenOf x = f.world.heap.childrenOf x) ∧
      (f.throwRegistered a).world.execs = f.world.execs ∧
      (f.throwRegistered a).world.heap.aliveNodes = f.world.heap.aliveNodes ∧
      (f.throwRegistered a).isAlive a = false ∧
      (f.throwRegistered a).registry =
        Function.update f.registry a (some f.world.heap.nextGeneration) ∧
      ¬ SameTables f (f.throwRegistered a) := by
  have hheap := heap_throwRegistered h ha
  refine ⟨fun x => ?_, rfl, rfl, ?_, funext fun x => ?_, fun hsame => ?_⟩
  · rw [hheap]
    rfl
  · rw [isAlive, hheap, Heap.isAlive, Heap.nodePtr]
    change (f.world.heap.registry a).any _ = false
    rw [h.registry_none ha]
    rfl
  · rw [registry_throwRegistered, Function.update_apply]
  · have hnew := congrFun hsame.registry a
    rw [registry_throwRegistered, if_pos rfl, registry, h.registry_none ha, Option.none_or] at hnew
    exact Nat.lt_irrefl _ (h.expired_lt a _ hnew.symm)

end Framework

/-! ### A constructor that completes -/

namespace World

variable {w w' : World} {ctx : CallContext} {a : Addr} {parent : Option Addr}

/-- A node has been added, for the executor `e`. -/
structure Added (w w' : World) (a : Addr) (e : ExecutorId) : Prop where
  sound : Sound w'
  live : ∀ x, w'.heap.Live x ↔ x = a ∨ w.heap.Live x
  nextGeneration : w.heap.nextGeneration ≤ w'.heap.nextGeneration
  owner : ∀ x, w'.heap.ownerOf x = if x = a then some e else w.heap.ownerOf x
  children : ∀ x, (w'.heap.childrenOf x).filter (· ≠ a) = w.heap.childrenOf x
  childless : w'.heap.childrenOf a = []
  registry : ∀ x, x ≠ a → w'.heap.registry x = w.heap.registry x
  aliveNodes : ∀ x, x ≠ a → w'.heap.aliveNodes x = w.heap.aliveNodes x
  registers : ∀ e' l, w.execs.Registers e' l →
    w'.execs.Registers e' (if e = e' then l ++ [a] else l)
  rootNodes : ∀ e', (w'.execs.rootNodes e').filter (· ≠ a) = w.execs.rootNodes e'

theorem Added.live_self {e : ExecutorId} (h : Added w w' a e) : w'.heap.Live a :=
  (h.live a).mpr (Or.inl rfl)

/-- A node that is not there is no child. -/
theorem filter_childrenOf {h : Heap} (hl : h.Linked) (ha : h.mem a = none) (x : Addr) :
    (h.childrenOf x).filter (· ≠ a) = h.childrenOf x := by
  refine List.filter_eq_self.mpr fun c hc => ?_
  rw [decide_eq_true_eq]
  rintro rfl
  have hlive := Heap.live_of_parentOf ((hl.mem_childrenOf x c).mp hc)
  rw [Heap.Live, ha] at hlive
  exact absurd hlive Bool.false_ne_true

theorem children_attached {h h' : Heap} {v : Option Addr} (hl : h.Linked) (ha : h.mem a = none)
    (hat : Heap.Attached h h' a v) (x : Addr) :
    (h'.childrenOf x).filter (· ≠ a) = h.childrenOf x := by
  have hnew : (if v = some x then [a] else []).filter (· ≠ a) = [] := by
    split <;> simp
  rw [hat.childrenOf, List.filter_append, hnew, List.append_nil, filter_childrenOf hl ha,
    filter_childrenOf hl ha]

theorem childless_attached {h h' : Heap} {v : Option Addr} (ha : h.mem a = none)
    (hat : Heap.Attached h h' a v) (hv : v ≠ some a) : h'.childrenOf a = [] := by
  rw [hat.childrenOf, if_neg hv, List.append_nil, Heap.childrenOf, ha]
  rfl

/-- **A child** that is added. -/
theorem added_child (hs : Sound w) {p : Addr} (ha : w.heap.mem a = none) (hp : w.heap.Live p)
    (hctx : ctx.worker = false ∨ (w.heap.ownerOf p).any ctx.isCurrent) :
    ∃ w' e, w.construct ctx a .plain (some p) = .ok w' ∧ Added w w' a e := by
  obtain ⟨e, he⟩ := Option.isSome_iff_exists.mp (hs.named.owned p hp)
  obtain ⟨w', hw', hsound, hat, howner⟩ := hs.construct_child .plain ha hp hctx
  have heq := Except.ok.inj (hw'.symm.trans (construct_child hs.named ha hp hctx))
  have hpa : some p ≠ some a := by
    intro heq
    obtain rfl := Option.some.inj heq
    rw [Heap.Live, ha] at hp
    exact absurd hp Bool.false_ne_true
  have hheap : w'.heap = (w.heap.born a .plain (some p) (w.heap.ownerOf p)).listChild (some p) a :=
    congrArg World.heap heq
  have hsn : Heap.SameNodes (w.heap.born a .plain (some p) (w.heap.ownerOf p)) w'.heap := by
    rw [hheap]
    exact Heap.sameNodes_listChild
  refine ⟨w', e, hw', hsound, hat.live, ?_, fun x => by rw [howner, he],
    children_attached hs.linked ha hat, childless_attached ha hat hpa, fun x hx => ?_,
    fun x hx => ?_, fun e' l hl => ?_, fun e' => ?_⟩
  · rw [hsn.nextGeneration]
    exact Nat.le_succ _
  · rw [hsn.registry]
    exact Function.update_of_ne hx ..
  · rw [hsn.aliveNodes]
    exact Function.update_of_ne hx ..
  · have hadd := Executors.registers_addNodeTo (o := w.heap.ownerOf p) (a := a) hl
    rw [heq]
    rw [he] at hadd ⊢
    simpa only [Option.some.injEq] using hadd
  · rw [heq, Executors.rootNodes_addNodeTo]
    exact hs.balanced.filter_rootNodes (Or.inl (by rw [Heap.isRoot, ha]; rfl))

/-- **A root** that is added. -/
theorem added_root (hs : Sound w) (ha : w.heap.mem a = none)
    (hctx : ctx.worker = false ∨ ctx.strand.isSome)
    (hstrand : ∀ s, ctx.strand = some s → s < w.execs.nextStrand) :
    ∃ w', w.construct ctx a .plain none = .ok w' ∧ Added w w' a (newRootOwner ctx) := by
  obtain ⟨w', hw', hsound, hat, howner⟩ := hs.construct_root .plain ha hctx hstrand
  have heq := Except.ok.inj (hw'.symm.trans (construct_root ha hctx))
  refine ⟨w', hw', hsound, hat.live, ?_, howner, children_attached hs.linked ha hat,
    childless_attached ha hat (by simp), fun x hx => ?_, fun x hx => ?_, fun e' l hl => ?_,
    fun e' => ?_⟩
  · rw [heq]
    exact Nat.le_succ _
  · rw [heq]
    exact Function.update_of_ne hx ..
  · rw [heq]
    exact Function.update_of_ne hx ..
  · obtain ⟨y, hy, -, hexecs⟩ := Sound.newRootExecs_eq w ctx a
    have hadd := Executors.registers_addNodeTo (o := some (newRootOwner ctx)) (a := a)
      (Executors.registers_addRootTo (o := some (newRootOwner ctx)) (a := a) |>.mpr
        (hy.registers.mpr hl))
    rw [congrArg World.execs heq, hexecs]
    simpa only [Option.some.injEq] using hadd
  · obtain ⟨y, hy, -, hexecs⟩ := Sound.newRootExecs_eq w ctx a
    have hold := hs.balanced.filter_rootNodes (e := e')
      (Or.inl (show w.heap.isRoot a = false by rw [Heap.isRoot, ha]; rfl))
    rw [congrArg World.execs heq, hexecs, Executors.rootNodes_addNodeTo,
      Executors.rootNodes_addRootTo, hy.rootNodes]
    split
    · rw [List.filter_append, hold]
      simp
    · exact hold

/-- A node without children goes alone. -/
theorem Added.doomed_eq {e : ExecutorId} (h : Added w w' a e) : w'.doomed a = [a] := by
  have hkids : (w'.unlink a).heap.childrenOf a = [] := by
    rw [childrenOf_unlink h.sound.linked h.live_self, h.childless]
    rfl
  obtain ⟨n, hn⟩ := Option.isSome_iff_exists.mp h.live_self
  have hgeneration : w'.heap.generationOf a = some n.generation := by
    rw [Heap.generationOf, hn]
    rfl
  obtain ⟨k, hk⟩ := Nat.exists_eq_succ_of_ne_zero
    (Nat.ne_of_gt (Nat.zero_lt_of_lt (h.sound.named.gen_lt a _ hgeneration)))
  rw [doomed, hk, PointerForest.preorder, hkids]
  rfl

/-- The registrations are those from before the node was added. -/
theorem Added.registers_delete {e : ExecutorId} (ha : w.heap.mem a = none) (h : Added w w' a e)
    {e' : ExecutorId} {l : List Addr} (hl : l.Nodup)
    (howner : ∀ x, x ∈ l ↔ w.heap.ownerOf x = some e') (hr : w.execs.Registers e' l) :
    ((w'.unlink a).without [a]).execs.Registers e' l := by
  have hnone : w.heap.ownerOf a = none := by
    rw [Heap.ownerOf, ha]
    rfl
  have hnot : a ∉ l := fun hmem => by
    rw [howner, hnone] at hmem
    cases hmem
  have hnew : (if e = e' then l ++ [a] else l).filter (· ∉ [a]) = l := by
    have hold : l.filter (· ∉ [a]) = l := List.filter_eq_self.mpr fun x hx => by
      rw [decide_eq_true_eq, List.mem_singleton]
      exact ne_of_mem_of_not_mem hx hnot
    split
    · rw [List.filter_append, hold]
      simp
    · exact hold
  have hnodup : (if e = e' then l ++ [a] else l).Nodup := by
    split
    · exact List.nodup_append_comm.mp (List.nodup_cons.mpr ⟨hnot, hl⟩)
    · exact hl
  have hunlinked : (w'.unlink a).execs.Registers e' (if e = e' then l ++ [a] else l) :=
    Sound.registers_unlink (h.registers e' l hr)
  have howner' : ∀ x, x ∈ (if e = e' then l ++ [a] else l) ↔
      (w'.unlink a).heap.ownerOf x = some e' := by
    intro x
    rw [(sameNodes_unlink w' a).ownerOf, h.owner]
    by_cases hx : x = a
    · subst hx
      rw [if_pos rfl, Option.some.injEq]
      split
      · rename_i heq
        exact iff_of_true (List.mem_append_right _ (List.mem_singleton_self x)) heq
      · rename_i hne
        exact iff_of_false hnot hne
    · rw [if_neg hx, ← howner]
      split
      · rw [List.mem_append, List.mem_singleton]
        exact or_iff_left hx
      · rfl
  have hwithout : ((w'.unlink a).without [a]).execs.Registers e'
      ((if e = e' then l ++ [a] else l).filter (· ∉ [a])) :=
    Executors.registers_without hunlinked hnodup (List.nodup_singleton a) howner'
  rwa [hnew] at hwithout

/-- **The destructor** of a node that has been added leaves the tables as they were before. -/
theorem Added.delete {e : ExecutorId} (hs : Sound w) (ha : w.heap.mem a = none)
    (h : Added w w' a e) : ∃ w'', w'.delete a = .ok w'' ∧
      (∀ x, w''.heap.childrenOf x = w.heap.childrenOf x) ∧
      Executors.SameBooks w.execs w''.execs ∧ w''.heap.aliveNodes = w.heap.aliveNodes ∧
      w''.heap.registry = w.heap.registry := by
  obtain ⟨w'', hw'', hsound, heq⟩ := h.sound.delete h.live_self
  rw [h.doomed_eq] at heq
  have hsn := sameNodes_unlink w' a
  refine ⟨w'', hw'', fun x => ?_, ⟨fun t => ?_, fun s => ?_, fun e' => ?_⟩, funext fun x => ?_,
    funext fun x => ?_⟩
  · rw [heq, heap_without, Heap.childrenOf_without, childrenOf_unlink h.sound.linked h.live_self,
      h.children]
    split
    · rename_i hx
      rw [List.mem_singleton.mp hx, Heap.childrenOf, ha]
    · rfl
  · obtain ⟨l, hl, howner, hr⟩ := hs.balanced.nodes (.loop t)
    have hr' := h.registers_delete ha hl howner hr
    rw [← heq] at hr'
    exact hr'.trans hr.symm
  · obtain ⟨l, hl, howner, hr⟩ := hs.balanced.nodes (.strand s)
    have hr' := h.registers_delete ha hl howner hr
    rw [← heq] at hr'
    exact hr'.trans hr.symm
  · rw [heq, execs_without, Executors.rootNodes_without, h.sound.rootNodes_unlink h.live_self,
      h.rootNodes]
  · rw [heq]
    change (if x ∈ [a] then none else (w'.unlink a).heap.aliveNodes x) = _
    rw [hsn.aliveNodes]
    split
    · rename_i hx
      rw [List.mem_singleton.mp hx, eq_comm, ← Option.not_isSome_iff_eq_none,
        hs.named.aliveNodes, Heap.Live, ha]
      exact Bool.false_ne_true
    · rename_i hx
      exact h.aliveNodes x (hx ∘ List.mem_singleton.mpr)
  · rw [heq]
    change (if x ∈ [a] then none else (w'.unlink a).heap.registry x) = _
    rw [hsn.registry]
    split
    · rename_i hx
      rw [List.mem_singleton.mp hx, hs.named.registry, Heap.generationOf, ha]
      rfl
    · rename_i hx
      exact h.registry x (hx ∘ List.mem_singleton.mpr)

end World

namespace Framework

variable {f : Framework} {ctx : CallContext} {a : Addr} {parent : Option Addr} {creates : Bool}

/-- **A derived constructor** that throws leaves the tables as they were before `Node::Node`, but
for an entry of the address that had lost its block. -/
theorem tables_of_derivedThrows (h : f.Sound) (ha : f.world.heap.mem a = none) {w' : World}
    {e : ExecutorId} (hadded : World.Added f.world w' a e) :
    ∃ f'', derivedThrows { f with world := w', expired := Function.update f.expired a none } a =
        .ok f'' ∧ f''.isAlive a = false ∧ (SameTables f f'' ↔ f.expired a = none) := by
  obtain ⟨w'', hw'', hchildren, hbooks, halive, hregistry⟩ := hadded.delete h.world ha
  refine ⟨{ f with world := w'', expired := Function.update f.expired a none }, ?_, ?_, ?_⟩
  · rw [derivedThrows, hw'']
    rfl
  · rw [isAlive, Heap.isAlive, Heap.nodePtr, hregistry, h.registry_none ha]
    rfl
  · have htable (x : Addr) :
        registry { f with world := w'', expired := Function.update f.expired a none } x =
          if x = a then none else f.registry x := by
      rw [registry, hregistry, registry]
      dsimp only
      rw [Function.update_apply]
      split
      · rename_i hx
        rw [hx, h.registry_none ha]
        rfl
      · rfl
    constructor
    · intro hsame
      have hold := congrFun hsame.registry a
      rw [htable, if_pos rfl, registry, h.registry_none ha, Option.none_or] at hold
      exact hold.symm
    · intro hnone
      refine ⟨funext fun x => ?_, hchildren, hbooks, halive⟩
      rw [htable]
      split
      · rename_i hx
        rw [hx, registry, h.registry_none ha, hnone]
        rfl
      · rfl

/-- The check at the start of the constructor reads a parent that there is. -/
theorem constructionAllowed_ok (ctx : CallContext)
    (hparent : ∀ p, parent = some p → f.world.heap.Live p) :
    ∃ allowed, f.world.constructionAllowed ctx parent = .ok allowed := by
  cases parent with
  | none => exact ⟨_, rfl⟩
  | some p =>
      obtain ⟨n, hn⟩ := Option.isSome_iff_exists.mp (hparent p rfl)
      refine ⟨!ctx.worker || (f.world.heap.ownerExecutor n).any ctx.isCurrent, ?_⟩
      rw [World.constructionAllowed, Heap.node_of_mem hn]
      rfl

/-- A construction that is allowed adds the node. -/
theorem added_construct (h : f.Sound) (ha : f.world.heap.mem a = none)
    (hparent : ∀ p, parent = some p → f.world.heap.Live p)
    (hstrand : ∀ s, ctx.strand = some s → s < f.world.execs.nextStrand)
    (hallowed : f.world.constructionAllowed ctx parent = .ok true) :
    ∃ w' e, f.world.construct ctx a .plain parent = .ok w' ∧ World.Added f.world w' a e := by
  cases parent with
  | none =>
      have hctx : (!ctx.worker || ctx.strand.isSome) = true := Except.ok.inj hallowed
      rw [Bool.or_eq_true, Bool.not_eq_true'] at hctx
      obtain ⟨w', hw', hadded⟩ := World.added_root h.world ha hctx hstrand
      exact ⟨w', _, hw', hadded⟩
  | some p =>
      have hp := hparent p rfl
      obtain ⟨n, hn⟩ := Option.isSome_iff_exists.mp hp
      rw [World.constructionAllowed, Heap.node_of_mem hn] at hallowed
      have hctx : (!ctx.worker || (f.world.heap.ownerExecutor n).any ctx.isCurrent) = true :=
        Except.ok.inj hallowed
      have howner : f.world.heap.ownerOf p = f.world.heap.ownerExecutor n :=
        Heap.ownerOf_of_mem hn
      rw [Bool.or_eq_true, Bool.not_eq_true', ← howner] at hctx
      exact World.added_child h.world ha hp hctx

/-- A constructor that throws keeps the state sound. -/
theorem Sound.throwRegistered (h : f.Sound) (ha : f.world.heap.mem a = none) :
    (f.throwRegistered a).Sound := by
  have hheap := heap_throwRegistered h ha
  refine ⟨?_, fun x g hg => ?_, fun x hx => ?_⟩
  · have hworld : (f.throwRegistered a).world = f.world.withHeap f.world.heap.lost :=
      congrArg f.world.withHeap hheap
    rw [hworld]
    exact h.world.lost
  · rw [hheap]
    have hg : Function.update f.expired a (some f.world.heap.nextGeneration) x = some g := hg
    rw [Function.update_apply] at hg
    split at hg
    · rw [← Option.some.inj hg]
      exact Nat.lt_succ_self _
    · exact Nat.lt_succ_of_lt (h.expired_lt x g hg)
  · rw [hheap] at hx
    have hlive : f.world.heap.Live x := hx
    have hxa : x ≠ a := by
      rintro rfl
      rw [Heap.Live, ha] at hlive
      exact Bool.false_ne_true hlive
    exact (Function.update_of_ne hxa ..).trans (h.apart x hlive)

/-- **A construction** keeps the state sound, whether the constructor throws or not. -/
theorem Sound.construct (h : f.Sound) (ctx : CallContext) (creates : Bool)
    (ha : f.world.heap.mem a = none) (hparent : ∀ p, parent = some p → f.world.heap.Live p)
    (hstrand : ∀ s, ctx.strand = some s → s < f.world.execs.nextStrand) :
    (f.construct ctx a parent creates).1.Sound := by
  obtain ⟨allowed, hallowed⟩ := constructionAllowed_ok ctx hparent
  rw [Framework.construct, hallowed]
  cases allowed with
  | false => exact h
  | true =>
      dsimp only
      split
      · exact h.throwRegistered ha
      split
      · exact h.throwRegistered ha
      obtain ⟨w', e, hw', hadded⟩ := added_construct h ha hparent hstrand hallowed
      rw [hw']
      refine ⟨hadded.sound, fun x g hg => ?_, fun x hx => ?_⟩
      · have hg : Function.update f.expired a none x = some g := hg
        rw [Function.update_apply] at hg
        split at hg
        · cases hg
        · exact Nat.lt_of_lt_of_le (h.expired_lt x g hg) hadded.nextGeneration
      · change Function.update f.expired a none x = none
        rw [Function.update_apply]
        split
        · rfl
        · rename_i hne
          exact h.apart x (((hadded.live x).mp hx).resolve_left hne)

/-- The destructor keeps the state sound. -/
theorem Sound.derivedThrows {f' : Framework} (h : f.Sound) (ha : f.world.heap.Live a)
    (hd : f.derivedThrows a = .ok f') : f'.Sound := by
  obtain ⟨w', hw', hsound, heq⟩ := h.world.delete ha
  rw [Framework.derivedThrows, hw'] at hd
  obtain rfl := Except.ok.inj hd
  refine ⟨hsound, fun x g hg => ?_, fun x hx => h.apart x ?_⟩
  · have hlt := h.expired_lt x g hg
    rw [← (World.sameNodes_unlink f.world a).nextGeneration] at hlt
    rw [heq]
    exact hlt
  · rw [heq, World.heap_without, Heap.live_without] at hx
    exact ((World.sameNodes_unlink f.world a).live x).mp hx.2

/-- **All or nothing**: a construction leaves the tables as they were exactly when it throws before
it registers the object, or completes at an address of which the registry has no entry. -/
theorem allOrNothing_iff (h : f.Sound) (ctx : CallContext) (creates : Bool)
    (ha : f.world.heap.mem a = none) (hparent : ∀ p, parent = some p → f.world.heap.Live p)
    (hstrand : ∀ s, ctx.strand = some s → s < f.world.execs.nextStrand) :
    f.AllOrNothing ctx a parent creates ↔
      f.world.constructionAllowed ctx parent = .ok false ∨
        f.application = true ∧ f.lacksLoop ctx parent creates = false ∧ f.expired a = none := by
  obtain ⟨allowed, hallowed⟩ := constructionAllowed_ok ctx hparent
  cases allowed with
  | false =>
      have hthrow : f.construct ctx a parent creates =
          (f, some (.logicError World.outsideStrandMessage)) := by
        rw [construct, hallowed]
      rw [AllOrNothing, hthrow]
      exact iff_of_true ⟨.refl f, h.isAlive_of_free ha⟩ (Or.inl hallowed)
  | true =>
      have hthrows := (tables_of_throws h ha).2.2.2.2.2
      have hnot : f.world.constructionAllowed ctx parent ≠ .ok false := by
        rw [hallowed]
        exact fun heq => Bool.noConfusion (Except.ok.inj heq)
      rw [or_iff_right hnot]
      by_cases happlication : f.application = true
      · cases hlacks : f.lacksLoop ctx parent creates with
        | true =>
            have hthrow : f.construct ctx a parent creates = (f.throwRegistered a,
                some (.runtimeError "Could not create EventLoop for thread")) := by
              rw [construct, hallowed]
              simp only [happlication, hlacks, Bool.not_true, Bool.false_eq_true, if_false, if_true]
            rw [AllOrNothing, hthrow]
            exact iff_of_false (fun hsame => hthrows hsame.1) fun hno => Bool.noConfusion hno.2.1
        | false =>
            obtain ⟨w', e, hw', hadded⟩ := added_construct h ha hparent hstrand hallowed
            have hcompletes : f.construct ctx a parent creates =
                ({ f with world := w', expired := Function.update f.expired a none }, none) := by
              rw [construct, hallowed]
              simp only [happlication, hlacks, hw', Bool.not_true, Bool.false_eq_true, if_false]
            obtain ⟨f'', hf'', halive, hsame⟩ := tables_of_derivedThrows h ha hadded
            rw [AllOrNothing, hcompletes]
            dsimp only
            rw [hf'']
            constructor
            · rintro ⟨g, hg, htables, -⟩
              obtain rfl := Except.ok.inj hg
              exact ⟨happlication, rfl, hsame.mp htables⟩
            · exact fun hno => ⟨f'', rfl, hsame.mpr hno.2.2, halive⟩
      · have hthrow : f.construct ctx a parent creates = (f.throwRegistered a,
            some (.runtimeError "Application instance not created")) := by
          rw [construct, hallowed]
          simp only [happlication, Bool.not_false, if_true]
        rw [AllOrNothing, hthrow]
        exact iff_of_false (fun hsame => hthrows hsame.1) fun hno => happlication hno.1

/-- A new application is sound. -/
theorem sound_initial (main : ThreadId) (workers : ℕ) (application : Bool) :
    Sound { world := World.initial main workers, application := application } where
  world := (World.noNodes_initial main workers).sound
  expired_lt _ _ h := absurd h (by simp)
  apart _ _ := rfl

/-- A root on the main thread is constructed, and a derived constructor throws. -/
theorem allOrNothing_main :
    AllOrNothing { world := World.initial 0 0 } { thread := 0 } 5 none false :=
  (allOrNothing_iff (sound_initial 0 0 true) { thread := 0 } false rfl (by simp) (by simp)).mpr
    (Or.inr ⟨rfl, rfl, rfl⟩)

/-- Without an `Application`, and on a thread for which no event loop can be created, the registry
keeps an entry of the address. -/
theorem entry_left :
    let f : Framework := { world := World.initial 0 0, application := false }
    let f' : Framework := { world := World.initial 0 0 }
    (f.construct { thread := 0 } 5 none true).2 =
        some (.runtimeError "Application instance not created") ∧
      f.registry 5 = none ∧ (f.construct { thread := 0 } 5 none true).1.registry 5 = some 1 ∧
      ¬ f.AllOrNothing { thread := 0 } 5 none true ∧
      (f'.construct { thread := 1 } 5 none false).1.registry 5 = some 1 ∧
      ¬ f'.AllOrNothing { thread := 1 } 5 none false := by
  refine ⟨rfl, rfl, rfl, fun h => ?_, rfl, fun h => ?_⟩
  · exact absurd (congrFun (SameTables.registry h.1) 5) (by decide)
  · exact absurd (congrFun (SameTables.registry h.1) 5) (by decide)

end Framework

end SimplyNode
