import Mathlib.Data.Set.Basic
import SimplyNode.Edits

/-!
# Addresses That Are Used Again

The allocator may give the address of a freed node to a new one. What connects a `NodePtr` with
the node it was made for is the lifetime block: as long as the block says alive, the registry has
it at the pointer's address (`Heap.Refers`). No tree operation breaks this, in whatever state and
by whomever it is called: a node that is created takes a generation and an address that nothing
has (`Heap.Creates`), and the others only take nodes away (`Heap.Expires`).

## Main results

* `World.creates_construct`, `World.expires_delete`: the constructor, and deletion.
* `Heap.Registered.refers_nodePtr`, `Creates.refers`, `Expires.refers`: pointers that are made, and
  kept.
* `Heap.TellsApart.insert`, `TellsApart.expires`, `TellsApart.creates`: sets of pointers that do not
  share an address.
-/

namespace SimplyNode

namespace Heap

/-- No two objects have one generation, and what the registry has is alive and in memory. -/
structure Registered (h : Heap) : Prop where
  gen_lt : ∀ a g, h.generationOf a = some g → g < h.nextGeneration
  gen_inj : ∀ a b g, h.generationOf a = some g → h.generationOf b = some g → a = b
  object : ∀ a g, h.registry a = some g → h.generationOf a = some g ∧ (h.blocks g).alive = true

/-- As long as the block of the pointer says alive, it is the one the registry has. -/
def Refers (h : Heap) (p : NodePtr) : Prop :=
  ∀ g, p.block = some g → g < h.nextGeneration ∧
    ((h.blocks g).alive = true → h.registry p.node = some g)

/-- Nodes may have gone, with their entries in the registry. There is no new one. -/
structure Expires (h h' : Heap) : Prop where
  next : h'.nextGeneration = h.nextGeneration
  alive : ∀ g, (h'.blocks g).alive = true → (h.blocks g).alive = true
  entry : ∀ x, h'.registry x = h.registry x ∨
    h'.registry x = none ∧ ∀ g, h.registry x = some g → (h'.blocks g).alive = false
  objects : h.Registered → h'.Registered

/-- There is a new node at a free address. -/
structure Creates (h h' : Heap) (a : Addr) : Prop where
  free : h.mem a = none
  next : h'.nextGeneration = h.nextGeneration + 1
  alive : ∀ g, (h'.blocks g).alive = if g = h.nextGeneration then true else (h.blocks g).alive
  registry : h'.registry = Function.update h.registry a (some h.nextGeneration)
  generationOf : ∀ x, h'.generationOf x =
    if x = a then some h.nextGeneration else h.generationOf x

/-- For the pointers of a set, the address tells for which node each was made. -/
structure TellsApart (h : Heap) (P : Set NodePtr) : Prop where
  refers : ∀ p ∈ P, h.Refers p
  object : ∀ p ∈ P, ∀ g, h.registry p.node = some g → p.block = some g
  agree : ∀ p ∈ P, ∀ q ∈ P, p.node = q.node → p.block = q.block

variable {h h' h'' : Heap} {a x : Addr} {p : NodePtr} {g : Generation} {P Q : Set NodePtr}

/-! ### Pointers -/

/-- A pointer that is made from an address refers to what is registered there. -/
theorem Registered.refers_nodePtr (hr : h.Registered) (a : Addr) : h.Refers (h.nodePtr a) := by
  intro g hg
  exact ⟨hr.gen_lt a g (hr.object a g hg).1, fun _ => hg⟩

/-- What a `NodePtr` says. -/
theorem isAlive_iff : h.isAlive p = true ↔ ∃ g, p.block = some g ∧ (h.blocks g).alive = true :=
  Option.any_eq_true _ _

/-- A pointer that is alive refers to the node at its address. -/
theorem Refers.registry (hp : h.Refers p) (ha : h.isAlive p = true) :
    h.registry p.node = p.block := by
  obtain ⟨g, hg, halive⟩ := isAlive_iff.mp ha
  rw [hg]
  exact (hp g hg).2 halive

/-- A pointer to the node that is registered at its address is alive. -/
theorem Registered.isAlive (hr : h.Registered) (hg : h.registry p.node = some g)
    (hp : p.block = some g) : h.isAlive p = true :=
  isAlive_iff.mpr ⟨g, hp, (hr.object _ g hg).2⟩

/-- A change that keeps the generation. -/
theorem generationOf_modifyNode {f : Node → Node}
    (hg : ∀ n, (f n).generation = n.generation) :
    (h.modifyNode a f).generationOf x = h.generationOf x := by
  rw [generationOf, mem_modifyNode, generationOf]
  split
  · rename_i hxa
    rw [hxa, Option.map_map]
    exact congrArg (Option.map · (h.mem a)) (funext hg)
  · rfl

/-! ### What tree operations do -/

namespace Expires

/-- Nothing has expired. -/
theorem refl (h : Heap) : Expires h h := ⟨rfl, fun _ hg => hg, fun _ => Or.inl rfl, id⟩

/-- Blocks expire step by step. -/
theorem trans (he : Expires h h') (he' : Expires h' h'') : Expires h h'' where
  next := he'.next.trans he.next
  alive g hg := he.alive g (he'.alive g hg)
  entry x := by
    have hdead (g : Generation) (hg : (h'.blocks g).alive = false) :
        (h''.blocks g).alive = false := by
      by_contra hne
      have halive := he'.alive g (by simpa using hne)
      exact Bool.noConfusion (hg.symm.trans halive)
    rcases he.entry x with hx | ⟨hx, hgone⟩
    · rw [← hx]
      exact he'.entry x
    · refine Or.inr ⟨?_, fun g hg => hdead g (hgone g hg)⟩
      rcases he'.entry x with hx' | ⟨hx', -⟩
      · exact hx'.trans hx
      · exact hx'
  objects hr := he'.objects (he.objects hr)

/-- The objects may change in everything but their generations. -/
theorem of_eq (hgen : ∀ x, h'.generationOf x = h.generationOf x) (hb : h'.blocks = h.blocks)
    (hreg : h'.registry = h.registry) (hn : h'.nextGeneration = h.nextGeneration) :
    Expires h h' where
  next := hn
  alive g hg := by rwa [hb] at hg
  entry x := Or.inl (by rw [hreg])
  objects hr := by
    have hgen : h'.generationOf = h.generationOf := funext hgen
    refine ⟨?_, ?_, ?_⟩
    · rw [hgen, hn]
      exact hr.gen_lt
    · rw [hgen]
      exact hr.gen_inj
    · rw [hgen, hreg, hb]
      exact hr.object

/-- The nodes are the same. -/
theorem sameNodes (hs : SameNodes h h') : Expires h h' :=
  of_eq hs.generationOf hs.blocks hs.registry hs.nextGeneration

/-- A change that keeps the generation. -/
theorem modifyNode (h : Heap) (a : Addr) {f : Node → Node}
    (hg : ∀ n, (f n).generation = n.generation) :
    Expires h (h.modifyNode a f) :=
  of_eq (fun _ => generationOf_modifyNode hg) rfl rfl rfl

/-- The start of `Node::~Node`. -/
theorem expire {n : Node} (hr : h.Registered) (hgen : h.generationOf a = some n.generation) :
    Expires h (h.expire a n) := by
  have halive (g : Generation) : ((h.expire a n).blocks g).alive =
      if g = n.generation then false else (h.blocks g).alive := by
    simp only [Heap.expire, blocks_modifyBlock]
    split <;> rfl
  have hentry (x : Addr) : (h.expire a n).registry x = if x = a then none else h.registry x :=
    Function.update_apply ..
  refine ⟨rfl, fun g hg => ?_, fun x => ?_, fun _ => ⟨hr.gen_lt, hr.gen_inj, fun x g hg => ?_⟩⟩
  · rw [halive] at hg
    split at hg
    · exact absurd hg Bool.false_ne_true
    · exact hg
  · rw [hentry]
    split
    · rename_i hxa
      refine Or.inr ⟨rfl, fun g hg => ?_⟩
      have hg' := (hr.object x g hg).1
      rw [hxa, hgen] at hg'
      rw [halive, if_pos (Option.some.inj hg').symm]
    · exact Or.inl rfl
  · rw [hentry] at hg
    split at hg
    · cases hg
    · rename_i hxa
      obtain ⟨hx, hg⟩ := hr.object x g hg
      have hne : g ≠ n.generation := fun heq => hxa (hr.gen_inj x a g hx (heq ▸ hgen))
      rw [halive, if_neg hne]
      exact ⟨hx, hg⟩

/-- The memory of a node that is not registered any more goes back. -/
theorem free (hentry : h.registry a = none) : Expires h (h.free a) := by
  have hgen (x : Addr) (g : Generation) (hg : (h.free a).generationOf x = some g) :
      h.generationOf x = some g ∧ x ≠ a := by
    have hmem : (h.free a).mem x = if x = a then none else h.mem x := Function.update_apply ..
    rw [Heap.generationOf, hmem] at hg
    split at hg
    · cases hg
    · exact ⟨hg, ‹_›⟩
  refine ⟨rfl, fun _ hg => hg, fun _ => Or.inl rfl, fun hr => ⟨?_, ?_, ?_⟩⟩
  · exact fun x g hg => hr.gen_lt x g (hgen x g hg).1
  · exact fun x y g hx hy => hr.gen_inj x y g (hgen x g hx).1 (hgen y g hy).1
  · intro x g hg
    obtain ⟨hx, halive⟩ := hr.object x g hg
    have hxa : x ≠ a := by
      rintro rfl
      cases hentry.symm.trans hg
    have hmem : (h.free a).mem x = h.mem x := Function.update_of_ne hxa ..
    rw [Heap.generationOf, hmem]
    exact ⟨hx, halive⟩

/-- An entry that is gone does not come back. -/
theorem registry_eq_none (he : Expires h h') (hx : h.registry x = none) : h'.registry x = none := by
  rcases he.entry x with heq | ⟨hnone, -⟩
  · exact heq.trans hx
  · exact hnone

/-- What a pointer refers to, it goes on referring to. -/
theorem refers (he : Expires h h') (hp : h.Refers p) : h'.Refers p := by
  intro g hg
  obtain ⟨hlt, hreg⟩ := hp g hg
  refine ⟨he.next ▸ hlt, fun halive => ?_⟩
  have hreg := hreg (he.alive g halive)
  rcases he.entry p.node with heq | ⟨-, hdead⟩
  · exact heq.trans hreg
  · exact Bool.noConfusion ((hdead g hreg).symm.trans halive)

end Expires

/-! ### A new node -/

namespace Creates

/-- The objects that are there after one is created. -/
theorem objects (hc : Creates h h' a) (hr : h.Registered) : h'.Registered := by
  have hfresh (x : Addr) : h.generationOf x ≠ some h.nextGeneration := fun hx =>
    absurd (hr.gen_lt x _ hx) (Nat.lt_irrefl _)
  refine ⟨fun x g hg => ?_, fun x y g hx hy => ?_, fun x g hg => ?_⟩
  · rw [hc.generationOf] at hg
    rw [hc.next]
    split at hg
    · exact Option.some.inj hg ▸ Nat.lt_succ_self _
    · exact Nat.lt_succ_of_lt (hr.gen_lt x g hg)
  · rw [hc.generationOf] at hx hy
    split at hx <;> split at hy
    · rename_i hxa hya
      exact hxa.trans hya.symm
    · exact absurd (hy.trans hx.symm) (hfresh y)
    · exact absurd (hx.trans hy.symm) (hfresh x)
    · exact hr.gen_inj x y g hx hy
  · rw [hc.registry, Function.update_apply] at hg
    rw [hc.generationOf, hc.alive]
    split at hg
    · rename_i hxa
      rw [if_pos hxa, if_pos (Option.some.inj hg).symm]
      exact ⟨hg, rfl⟩
    · rename_i hxa
      obtain ⟨hx, halive⟩ := hr.object x g hg
      have hne : g ≠ h.nextGeneration := fun heq => hfresh x (heq ▸ hx)
      rw [if_neg hxa, if_neg hne]
      exact ⟨hx, halive⟩

/-- The address was not registered. -/
theorem registry_free (hc : Creates h h' a) (hr : h.Registered) : h.registry a = none := by
  rw [Option.eq_none_iff_forall_ne_some]
  intro g hg
  have hgen := (hr.object a g hg).1
  rw [Heap.generationOf, hc.free] at hgen
  cases hgen

/-- What a pointer refers to, it goes on referring to. -/
theorem refers (hc : Creates h h' a) (hr : h.Registered) (hp : h.Refers p) : h'.Refers p := by
  intro g hg
  obtain ⟨hlt, hreg⟩ := hp g hg
  refine ⟨hc.next ▸ Nat.lt_succ_of_lt hlt, fun halive => ?_⟩
  rw [hc.alive, if_neg (Nat.ne_of_lt hlt)] at halive
  have hreg := hreg halive
  rw [hc.registry, Function.update_apply]
  split
  · rename_i heq
    rw [heq, hc.registry_free hr] at hreg
    exact nomatch hreg
  · exact hreg

/-- If a pointer is for the node at its address afterwards, no node was created there. -/
theorem ne_of_refers (hc : Creates h h' a) (hp : h.Refers p)
    (hnew : ∀ g, h'.registry p.node = some g → p.block = some g) : p.node ≠ a := by
  intro hpa
  have hentry : h'.registry p.node = some h.nextGeneration := by
    rw [hpa, hc.registry, Function.update_self]
  exact absurd (hp _ (hnew _ hentry)).1 (Nat.lt_irrefl _)

end Creates

/-! ### Sets of pointers -/

namespace TellsApart

/-- Of no pointers, all can be told apart. -/
theorem empty (h : Heap) : h.TellsApart ∅ := ⟨nofun, nofun, nofun⟩

/-- Fewer pointers can be told apart. -/
theorem mono (ht : h.TellsApart P) (hsub : Q ⊆ P) : h.TellsApart Q where
  refers p hp := ht.refers p (hsub hp)
  object p hp := ht.object p (hsub hp)
  agree p hp q hq := ht.agree p (hsub hp) q (hsub hq)

/-- A pointer is made. -/
theorem insert (hr : h.Registered) (ht : h.TellsApart P)
    (ha : ∀ p ∈ P, p.node = a → p.block = h.registry a) :
    h.TellsApart (Insert.insert (h.nodePtr a) P) where
  refers p hp := by
    rcases hp with rfl | hp
    · exact hr.refers_nodePtr a
    · exact ht.refers p hp
  object p hp g hg := by
    rcases hp with rfl | hp
    · exact hg
    · exact ht.object p hp g hg
  agree p hp q hq hpq := by
    rcases hp with rfl | hp <;> rcases hq with rfl | hq
    · rfl
    · exact (ha q hq hpq.symm).symm
    · exact ha p hp hpq
    · exact ht.agree p hp q hq hpq

/-- The pointers at the address of a live node are for this node. -/
theorem block_eq (ht : h.TellsApart P) (ha : (h.registry a).isSome) (hp : p ∈ P)
    (hpa : p.node = a) : p.block = h.registry a := by
  obtain ⟨g, hg⟩ := Option.isSome_iff_exists.mp ha
  rw [hg]
  exact ht.object p hp g (hpa ▸ hg)

/-- Nodes are deleted. -/
theorem expires (ht : h.TellsApart P) (he : Expires h h') : h'.TellsApart P where
  refers p hp := he.refers (ht.refers p hp)
  object p hp g hg := by
    rcases he.entry p.node with heq | ⟨hnone, -⟩
    · exact ht.object p hp g (heq.symm.trans hg)
    · exact nomatch hnone.symm.trans hg
  agree := ht.agree

/-- A node is created at an address that no pointer has. -/
theorem creates (hr : h.Registered) (ht : h.TellsApart P) (hc : Creates h h' a)
    (ha : ∀ p ∈ P, p.node ≠ a) : h'.TellsApart P where
  refers p hp := hc.refers hr (ht.refers p hp)
  object p hp g hg := by
    rw [hc.registry, Function.update_of_ne (ha p hp)] at hg
    exact ht.object p hp g hg
  agree := ht.agree

end TellsApart

end Heap

namespace World

open Heap

variable {w w' : World} {a c p : Addr} {ctx : CallContext} {cls : NodeClass} {parent : Option Addr}

/-! ### The tree operations -/

/-- `addChild`. -/
theorem sameNodes_addChild (h : w.addChild p c = .ok w') : SameNodes w.heap w'.heap := by
  obtain ⟨hp, hc⟩ := live_of_addChild h
  obtain rfl := Except.ok.inj ((addChild_eq hp hc).symm.trans h)
  exact sameNodes_adopt

/-- `leaveParent`. -/
theorem sameNodes_leaveParent {n : Node} (h : w.leaveParent a n = .ok w') :
    SameNodes w.heap w'.heap := by
  rw [leaveParent] at h
  split at h
  · obtain ⟨-, -, h⟩ := Outcome.bind_eq_ok.mp h
    obtain rfl := Except.ok.inj h
    exact .modifyNode _ _ (fun _ => rfl) fun _ => rfl
  · obtain rfl := Except.ok.inj h
    exact .refl _

/-- `setParent`. -/
theorem sameNodes_setParent (h : w.setParent a parent = .ok w') : SameNodes w.heap w'.heap := by
  obtain ⟨n, -, h⟩ := Outcome.bind_eq_ok.mp h
  obtain ⟨u, hu, h⟩ := Outcome.bind_eq_ok.mp h
  refine (sameNodes_leaveParent hu).trans ?_
  cases parent with
  | none =>
      obtain rfl := Except.ok.inj h
      exact .modifyNode _ _ (fun _ => rfl) fun _ => rfl
  | some p =>
      have hadd := sameNodes_addChild (w := u.modifyNode a fun m => { m with isRoot := false }) h
      exact SameNodes.trans (.modifyNode u.heap a (by intro; rfl) (by intro; rfl)) hadd

/-- The constructor creates one node. -/
theorem creates_construct (h : w.construct ctx a cls parent = .ok w') :
    Creates w.heap w'.heap a := by
  obtain ⟨ha, hallowed⟩ := construct_ok h
  unfold construct at h
  rw [ha, hallowed] at h
  have hnew (e : Option ExecutorId) (k : Heap) (hs : SameNodes
      ((w.heap.allocate a cls parent).setOwnerExecutor w.heap.nextGeneration e) k) :
      Creates w.heap (k.registerAliveNode a w.heap.nextGeneration) a := by
    refine ⟨ha, hs.nextGeneration, fun g => ?_, hs.registry, fun x => ?_⟩
    · change (k.blocks g).alive = _
      rw [hs.blocks, setOwnerExecutor, blocks_modifyBlock, allocate]
      simp only [Function.update_apply]
      split <;> simp_all
    · change k.generationOf x = _
      rw [hs.generationOf]
      simp only [Heap.generationOf, setOwnerExecutor, mem_modifyBlock, allocate,
        Function.update_apply]
      split <;> rfl
  cases parent with
  | none =>
      obtain rfl := Except.ok.inj h
      exact hnew (some (newRootOwner ctx)) _ (.modifyNode _ a (by intro; rfl) (by intro; rfl))
  | some p =>
      obtain ⟨b, hb, h⟩ := Outcome.bind_eq_ok.mp h
      obtain rfl := Except.ok.inj hb
      obtain ⟨k, -, h⟩ := Outcome.bind_eq_ok.mp h
      obtain ⟨u, hu, h⟩ := Outcome.bind_eq_ok.mp h
      obtain rfl := Except.ok.inj h
      exact hnew _ _ (sameNodes_addChild hu)

/-- What each step of a fold takes away, the fold takes away. -/
theorem expires_foldlM {α : Type} {f : World → α → Outcome World}
    (hf : ∀ u b u', u.heap.Registered → f u b = .ok u' → Expires u.heap u'.heap) {l : List α}
    (hr : w.heap.Registered) (h : l.foldlM f w = .ok w') : Expires w.heap w'.heap := by
  induction l generalizing w with
  | nil =>
      obtain rfl := Except.ok.inj h
      exact .refl _
  | cons b l ih =>
      obtain ⟨u, hu, h⟩ := Outcome.bind_eq_ok.mp h
      have hu := hf w b u hr hu
      exact hu.trans (ih (hu.objects hr) h)

/-- `~Timer` keeps the generations. -/
theorem generationOf_timerDestructor {n : Node} {x : Addr} :
    (w.timerDestructor a n).heap.generationOf x = w.heap.generationOf x := by
  rw [timerDestructor]
  split
  · exact generationOf_modifyNode fun _ => rfl
  · rfl

/-- `unregisterAliveNode`. -/
theorem expires_unregisterAliveNode {h h' : Heap} (hu : h.unregisterAliveNode a = .ok h') :
    Expires h h' := by
  rw [unregisterAliveNode] at hu
  split at hu
  · obtain rfl := Except.ok.inj hu
    exact .of_eq (fun _ => rfl) rfl rfl rfl
  · exact absurd hu (by simp)

/-- `~Timer`. -/
theorem expires_timerDestructor {n : Node} : Expires w.heap (w.timerDestructor a n).heap := by
  rw [timerDestructor]
  split
  · exact .modifyNode _ _ fun _ => rfl
  · exact .refl _

/-- `detach`. -/
theorem expires_detach {n : Node} (h : w.detach a n = .ok w') : Expires w.heap w'.heap := by
  rw [detach] at h
  split at h
  · obtain rfl := Except.ok.inj h
    exact .refl _
  · split at h
    · obtain ⟨-, -, h⟩ := Outcome.bind_eq_ok.mp h
      obtain rfl := Except.ok.inj h
      exact .modifyNode _ _ fun _ => rfl
    · obtain rfl := Except.ok.inj h
      exact .refl _

/-- The destructors of a subtree. -/
theorem expires_destroy {fuel : ℕ} (hr : w.heap.Registered) (h : destroy fuel w a = .ok w') :
    Expires w.heap w'.heap := by
  induction fuel generalizing w w' a with
  | zero => exact absurd h (by simp [destroy])
  | succ fuel ih =>
      obtain ⟨n, hn, h⟩ := Outcome.bind_eq_ok.mp h
      obtain ⟨u, hu, h⟩ := Outcome.bind_eq_ok.mp h
      obtain ⟨v, hv, h⟩ := Outcome.bind_eq_ok.mp h
      obtain ⟨k, hk, h⟩ := Outcome.bind_eq_ok.mp h
      obtain rfl := Except.ok.inj h
      have htimer : Expires w.heap (w.timerDestructor a n).heap := expires_timerDestructor
      have hgen : (w.timerDestructor a n).heap.generationOf a = some n.generation := by
        have hgen := generationOf_timerDestructor (w := w) (a := a) (n := n) (x := a)
        rw [hgen, Heap.generationOf, (node_eq_ok _).mp hn, Option.map_some]
      have hexpire := Expires.expire (htimer.objects hr) hgen
      have hdetach := expires_detach
        (w := (w.timerDestructor a n).withHeap ((w.timerDestructor a n).heap.expire a n)) hu
      have hr := hdetach.objects (hexpire.objects (htimer.objects hr))
      have hcleared : Expires u.heap (u.heap.modifyNode a fun k =>
          { k with children := k.children.movedFrom }) :=
        .modifyNode u.heap a fun _ => rfl
      have hkids := hcleared.trans (expires_foldlM (fun _ _ _ => ih) (hcleared.objects hr) hv)
      have hentry : v.heap.registry a = none :=
        hkids.registry_eq_none (hdetach.registry_eq_none (Function.update_self ..))
      have hfree := (expires_unregisterAliveNode hk).trans (.free
        ((expires_unregisterAliveNode hk).registry_eq_none hentry))
      exact (((htimer.trans hexpire).trans hdetach).trans hkids).trans hfree

/-- `delete`. -/
theorem expires_delete (hr : w.heap.Registered) (h : w.delete a = .ok w') :
    Expires w.heap w'.heap :=
  expires_destroy hr h

end World

end SimplyNode
