import SimplyNode.Affinity
import SimplyNode.NodeRun
import SimplyNode.Trees

/-!
# The Vectors of Children during `Node::run`

`m_childrenToDelete` holds children of its node, and so do the slots of `m_children` that a
`run()` in progress still has to read. `QueuesOwn` and `SlotsOwn` say so, and are kept by
requests, by deletions and by the loops of `Node::run` themselves.

## Main results

* `World.QueueOwn.apply`, `World.queuesOwn_of_run`: building a tree keeps the queues.
* `World.deleteMarkedFrom_rule`: what deleting a child keeps, the loop keeps.
* `World.SlotsOwn.read`: what the loop over the children reads is a child.
-/

open PointerForest Transition

namespace SimplyNode

/-- Every queue of children to delete holds children of its node, as `pushDeleteChild`
checks. -/
def World.QueuesOwn (w : World) : Prop :=
  ∀ x n, w.heap.mem x = some n → ∀ c ∈ n.childrenToDelete.live, w.heap.parentOf c = some x

/-! ### The queue of a node -/

namespace Heap

variable {h : Heap} {a p x : Addr} {v : Option Addr} {cls : NodeClass} {o : Option ExecutorId}

/-- The queue of the object at an address. -/
def queueOf (h : Heap) (x : Addr) : List Addr :=
  match h.mem x with
  | some n => n.childrenToDelete.live
  | none => []

/-- The queue of a node that exists. -/
theorem queueOf_of_mem {n : Node} (hm : h.mem x = some n) :
    h.queueOf x = n.childrenToDelete.live := by
  simp [queueOf, hm]

/-- What is in a queue is in the vector of a node that exists. -/
theorem mem_queueOf {c : Addr} :
    c ∈ h.queueOf x ↔ ∃ n, h.mem x = some n ∧ c ∈ n.childrenToDelete.live := by
  cases hm : h.mem x <;> simp [queueOf, hm]

/-- A change that leaves the vector leaves the queue. -/
theorem queueOf_modifyNode (f : Node → Node) (x : Addr)
    (hf : ∀ n, (f n).childrenToDelete = n.childrenToDelete) :
    (h.modifyNode a f).queueOf x = h.queueOf x := by
  by_cases hx : x = a
  · subst hx
    cases hm : h.mem x <;> simp [queueOf, hm, hf]
  · rw [queueOf, mem_modifyNode_of_ne _ _ hx, queueOf]

/-- Adopting a child queues none. -/
theorem queueOf_adopt : (h.adopt p a).queueOf x = h.queueOf x :=
  Eq.trans (queueOf_modifyNode _ x fun _ => rfl) (queueOf_modifyNode _ x fun _ => rfl)

/-- A child that leaves its parent stays in the queues. -/
theorem queueOf_leave : (h.leave a).queueOf x = h.queueOf x := by
  rw [leave]
  split
  · exact queueOf_modifyNode _ x fun _ => rfl
  · rfl

/-- A node that becomes a root stays in the queues. -/
theorem queueOf_enroot : (h.enroot a).queueOf x = h.queueOf x :=
  queueOf_modifyNode _ x fun _ => rfl

/-- A new node has an empty queue. -/
theorem queueOf_born : ((h.born a cls v o).listChild v a).queueOf x =
    if x = a then [] else h.queueOf x := by
  have hborn : (h.born a cls v o).queueOf x = if x = a then [] else h.queueOf x := by
    split <;> rename_i hx
    · subst hx
      simp [queueOf, born, SlotVector.empty]
    · rw [queueOf, mem_born_of_ne hx, queueOf]
  unfold listChild
  split
  · exact Eq.trans (queueOf_modifyNode _ x fun _ => rfl) hborn
  · exact hborn

end Heap

/-- The queue of the node holds children of it. -/
def World.QueueOwn (w : World) (x : Addr) : Prop :=
  ∀ c ∈ w.heap.queueOf x, w.heap.parentOf c = some x

namespace World

variable {w w' : World} {a c p q x : Addr} {t : ThreadId} {ctx : CallContext}

/-- All queues hold children exactly if each of them does. -/
theorem queuesOwn_iff : w.QueuesOwn ↔ ∀ x, w.QueueOwn x := by
  constructor
  · intro hq x c hc
    obtain ⟨n, hn, hcn⟩ := Heap.mem_queueOf.mp hc
    exact hq x n hn c hcn
  · intro hq x n hn c hc
    exact hq x c (Heap.mem_queueOf.mpr ⟨n, hn, hc⟩)

/-! ### What the steps do to queues -/

/-- A deleted node is in no queue. -/
theorem QueueOwn.delete (hq : w.QueueOwn x) (hf : Forested w)
    (hd : Deleted w.heap w'.heap a) : w'.QueueOwn x := by
  intro c hc
  obtain ⟨n, hn, hcn⟩ := Heap.mem_queueOf.mp hc
  have hx : ¬ Below w.heap.childrenOf a x := by
    intro h
    rw [hd.gone x h] at hn
    exact absurd hn (by simp)
  by_cases hpa : w.heap.parentOf a = some x
  · rw [hd.parent x hpa] at hn
    obtain ⟨m, hm, rfl⟩ := Option.map_eq_some_iff.mp hn
    obtain ⟨hcm, hca⟩ := List.mem_filter.mp hcn
    have hcx := hq c (Heap.mem_queueOf.mpr ⟨m, hm, hcm⟩)
    have hca : a ≠ c := by
      rintro rfl
      simp at hca
    rw [hd.parentOf (hf.sibling_not_below hpa hcx hca)]
    exact hcx
  · rw [hd.kept x hx hpa] at hn
    have hcx := hq c (Heap.mem_queueOf.mpr ⟨n, hn, hcn⟩)
    have hcb : ¬ Below w.heap.childrenOf a c := by
      intro h
      obtain rfl | hca := eq_or_ne c a
      · exact hpa hcx
      · obtain ⟨y, hy, hcy⟩ := h.owner hca
        have hyx := ((hf.linked.mem_childrenOf y c).mp hcy).symm.trans hcx
        exact hx (Option.some.inj hyx ▸ hy)
    rw [hd.parentOf hcb]
    exact hcx

/-- A deletion keeps the queues. -/
theorem QueuesOwn.delete (hq : w.QueuesOwn) (hf : Forested w)
    (hd : Deleted w.heap w'.heap a) : w'.QueuesOwn :=
  queuesOwn_iff.mpr fun x => (queuesOwn_iff.mp hq x).delete hf hd

/-- A change of the tree's queues that adds children only. -/
theorem QueueOwn.sameTree (hq : w.QueueOwn x) (hs : Heap.SameTree w.heap w'.heap)
    (hsub : ∀ c ∈ w'.heap.queueOf x, c ∈ w.heap.queueOf x ∨ w.heap.parentOf c = some x) :
    w'.QueueOwn x := by
  intro c hc
  rw [hs.parentOf]
  exact (hsub c hc).elim (hq c) id

/-- What `deleteLater` changes in the objects: at most the queue of the parent. -/
theorem mem_deleteLater (h : w.deleteLater ctx a = .ok w') :
    Heap.SameTree w.heap w'.heap ∧ ∀ x, w'.heap.mem x = w.heap.mem x ∨
      (w.heap.parentOf a = some x ∧ w'.heap.mem x = (w.heap.mem x).map fun n =>
        { n with childrenToDelete := n.childrenToDelete.pushBack a }) := by
  obtain ⟨n, k, hm, hs, hmem, hcases⟩ := deleteLater_cases h
  rcases hcases with ⟨e, -, rfl⟩ | ⟨e, -, -, rfl⟩ | ⟨p, k', hp, hk', rfl⟩
  · exact ⟨hs, fun x => Or.inl (congrFun hmem x)⟩
  · exact ⟨hs, fun x => Or.inl (congrFun hmem x)⟩
  · obtain ⟨hs', hpush⟩ := Heap.pushDeleteChild_ok hk'
    have hpar : w.heap.parentOf a = some p := by simpa [Heap.parentOf, hm] using hp
    refine ⟨hs.trans hs', fun x => ?_⟩
    rw [← hmem]
    rcases hpush x with hx | ⟨rfl, -, hx⟩
    · exact Or.inl hx
    · exact Or.inr ⟨hpar, hx⟩

/-- A request of a forest leads to a forest. -/
theorem forested_deleteLater (hf : Forested w) (h : w.deleteLater ctx a = .ok w') :
    Forested w' := by
  obtain ⟨n, hn, -⟩ := Outcome.bind_eq_ok.mp h
  have ha : w.heap.Live a := Option.isSome_iff_exists.mpr ⟨n, (Heap.node_eq_ok _).mp hn⟩
  obtain ⟨u, hu, hc⟩ := hf.consistent.deleteLater ctx ha
  obtain rfl := Except.ok.inj (hu.symm.trans h)
  have hpar : u.heap.parentOf = w.heap.parentOf := funext (mem_deleteLater h).1.parentOf
  exact ⟨hc, hpar ▸ hf.grounded⟩

/-- A request puts a child into the queue of its parent. -/
theorem QueueOwn.deleteLater (hq : w.QueueOwn x) (h : w.deleteLater ctx a = .ok w') :
    w'.QueueOwn x := by
  obtain ⟨hs, hmem⟩ := mem_deleteLater h
  refine hq.sameTree hs fun c hc => ?_
  obtain ⟨n', hn', hcn⟩ := Heap.mem_queueOf.mp hc
  rcases hmem x with hx | ⟨hp, hx⟩
  · exact Or.inl (Heap.mem_queueOf.mpr ⟨n', hx ▸ hn', hcn⟩)
  · rw [hx] at hn'
    obtain ⟨n, hn, rfl⟩ := Option.map_eq_some_iff.mp hn'
    rw [SlotVector.live_pushBack, List.mem_append, List.mem_singleton] at hcn
    rcases hcn with hcn | rfl
    · exact Or.inl (Heap.mem_queueOf.mpr ⟨n, hn, hcn⟩)
    · exact Or.inr hp

/-- A request keeps the queues. -/
theorem queuesOwn_deleteLater (hq : w.QueuesOwn) (h : w.deleteLater ctx a = .ok w') :
    w'.QueuesOwn :=
  queuesOwn_iff.mpr fun x => (queuesOwn_iff.mp hq x).deleteLater h

/-- `m_childrenToDelete.clear()` only changes the one queue. -/
theorem clearMarked_ok (h : w.clearMarked a = .ok w') :
    Heap.SameTree w.heap w'.heap ∧ w' = w.modifyNode a fun n =>
      { n with childrenToDelete := n.childrenToDelete.clear } := by
  obtain ⟨n, -, h⟩ := Outcome.bind_eq_ok.mp h
  obtain rfl := Except.ok.inj h
  refine ⟨⟨fun x => ?_, fun _ => rfl, fun _ => rfl, rfl, fun _ => rfl, rfl⟩, rfl⟩
  rw [heap_modifyNode, Heap.mem_modifyNode]
  split <;> rename_i hx
  · rw [hx, Option.map_map]
    rfl
  · rfl

/-- `m_childrenToDelete.clear()` leaves a forest alone. -/
theorem forested_clearMarked (hf : Forested w) (h : w.clearMarked a = .ok w') : Forested w' := by
  obtain ⟨hs, hw⟩ := clearMarked_ok h
  subst hw
  exact hf.sameTree hs

/-- A queue that is cleared holds nothing. -/
theorem QueueOwn.clearMarked (hq : w.QueueOwn x) (h : w.clearMarked a = .ok w') :
    w'.QueueOwn x := by
  obtain ⟨hs, rfl⟩ := clearMarked_ok h
  refine hq.sameTree hs fun c hc => Or.inl ?_
  obtain ⟨n', hn', hcn⟩ := Heap.mem_queueOf.mp hc
  rw [heap_modifyNode, Heap.mem_modifyNode] at hn'
  split at hn' <;> rename_i hx
  · obtain ⟨n, -, rfl⟩ := Option.map_eq_some_iff.mp hn'
    exact absurd hcn List.not_mem_nil
  · exact Heap.mem_queueOf.mpr ⟨n', hn', hcn⟩

/-- Clearing keeps the queues. -/
theorem queuesOwn_clearMarked (hq : w.QueuesOwn) (h : w.clearMarked a = .ok w') :
    w'.QueuesOwn :=
  queuesOwn_iff.mpr fun x => (queuesOwn_iff.mp hq x).clearMarked h

/-! ### Building the tree -/

/-- A node that is not in the queue gets another parent. -/
theorem QueueOwn.attached {u : World} {v : Option Addr} (hq : w.QueueOwn x)
    (hat : Heap.Attached w.heap u.heap a v) (hno : a ∉ w.heap.queueOf x)
    (hsub : ∀ c ∈ u.heap.queueOf x, c ∈ w.heap.queueOf x) : u.QueueOwn x := by
  intro c hc
  have hc' := hsub c hc
  rw [hat.parentOf, if_neg (ne_of_mem_of_not_mem hc' hno)]
  exact hq c hc'

/-- The operations that keep to `TreeOp.Safe` and change the parent of no node that is in a
queue: `setParent` does not take the node out of the queue of its former parent. -/
def Unqueued (w : World) (op : TreeOp) : Prop :=
  op.Safe w ∧ ∀ b v, op = .setParent b v → ∀ x, b ∉ w.heap.queueOf x

/-- A new node is in no queue. -/
theorem unqueued_construct (w : World) (a : Addr) (cls : NodeClass) (v : Option Addr) :
    w.Unqueued (.construct a cls v) :=
  ⟨trivial, fun _ _ h => absurd h (by simp)⟩

/-- **Building the tree keeps the queue** of a node, unless a node in it gets another parent. -/
theorem QueueOwn.apply {op : TreeOp} (hq : w.QueueOwn x) (hf : Forested w) (hop : op.Safe w)
    (hno : ∀ b v, op = .setParent b v → b ∉ w.heap.queueOf x)
    (h : op.apply ctx w = .ok w') : w'.QueueOwn x := by
  have hfree : ∀ b, w.heap.parentOf b = none → b ∉ w.heap.queueOf x := by
    intro b hb hx
    rw [hq b hx] at hb
    exact absurd hb (by simp)
  cases op with
  | construct b cls v =>
      have hb := (construct_ok h).1
      have hborn : ∀ o : Option ExecutorId, ∀ c ∈
          ((w.heap.born b cls v o).listChild v b).queueOf x, c ∈ w.heap.queueOf x := by
        intro o c hc
        rw [Heap.queueOf_born] at hc
        split at hc
        · exact absurd hc List.not_mem_nil
        · exact hc
      have hnone : w.heap.parentOf b = none := by simp [Heap.parentOf, hb]
      cases v with
      | none =>
          obtain rfl := Except.ok.inj
            ((construct_root hb (strand_of_construct h)).symm.trans h)
          have hat := Heap.attached_born cls (o := some (newRootOwner ctx))
            (v := none) hf.linked hb fun p hp => absurd hp (by simp)
          exact hq.attached (u := ⟨_, _, _⟩) hat (hfree b hnone) (hborn _)
      | some p =>
          obtain ⟨hp, hctx⟩ := live_of_construct h
          obtain rfl := Except.ok.inj ((construct_child hf.named hb hp hctx).symm.trans h)
          have hat := Heap.attached_born cls (o := w.heap.ownerOf p) (v := some p)
            hf.linked hb fun q hq => Option.some.inj hq ▸ hp
          exact hq.attached (u := ⟨_, _, _⟩) hat (hfree b hnone) (hborn _)
  | addChild q b =>
      obtain ⟨hp, hc⟩ := live_of_addChild h
      obtain rfl := Except.ok.inj ((addChild_eq hp hc).symm.trans h)
      refine hq.attached (Heap.attached_adopt hf.linked hp hop.1)
        (hfree b ((hf.linked.isRoot_iff b hc).mp hop.1)) fun c hx => ?_
      rwa [heap_withExecs, heap_withHeap, Heap.queueOf_adopt] at hx
  | setParent b v =>
      obtain ⟨ha, hp⟩ := live_of_setParent h
      cases v with
      | none =>
          obtain rfl := Except.ok.inj ((setParent_none hf.linked ha).symm.trans h)
          refine hq.attached (Heap.attached_leave_enroot hf.linked ha) (hno b none rfl)
            fun c hx => ?_
          rwa [heap_withExecs, heap_withHeap, Heap.queueOf_enroot, Heap.queueOf_leave] at hx
      | some q =>
          obtain rfl := Except.ok.inj ((setParent_some hf.linked ha (hp q rfl)).symm.trans h)
          refine hq.attached (Heap.attached_leave_adopt hf.linked (hp q rfl) ha)
            (hno b (some q) rfl) fun c hx => ?_
          rwa [heap_withHeap, Heap.queueOf_adopt, Heap.queueOf_leave] at hx
  | delete b =>
      obtain ⟨u, hu, -, hd⟩ := hf.delete (live_of_delete h)
      obtain rfl := Except.ok.inj (hu.symm.trans h)
      exact hq.delete hf hd

/-- Every operation on nodes outside the queues keeps them. -/
theorem QueuesOwn.apply {op : TreeOp} (hq : w.QueuesOwn) (hf : Forested w)
    (hop : w.Unqueued op) (h : op.apply ctx w = .ok w') : w'.QueuesOwn :=
  queuesOwn_iff.mpr fun x =>
    (queuesOwn_iff.mp hq x).apply hf hop.1 (fun b v hb => hop.2 b v hb x) h

/-- The trees that the results on ticks are about can be built. -/
theorem queuesOwn_of_run {e : ExecutorId} {w₀ : World} {ops : List TreeOp}
    (h₀ : w₀.Unused) (he : ∀ s, e = .strand s → s < w₀.execs.nextStrand)
    (hrun : Run (TreeStep t e) Unqueued w₀ ops w) : Forested w ∧ w.QueuesOwn := by
  have hinv : (TreeOp.Inv e w ∧ Consistent w) ∧ w.QueuesOwn := by
    refine hrun.invariant_of_ok
      (I := fun v => (TreeOp.Inv e v ∧ Consistent v) ∧ v.QueuesOwn)
      (fun v op v' hi hok h => ?_)
      ⟨⟨TreeOp.inv_of_noNodes h₀.noNodes he, h₀.consistent⟩, fun x n hn => ?_⟩
    · have hi' := TreeOp.inv_apply hi.1.1 hok.1 h
      exact ⟨⟨hi', hi.1.2.apply _ _ h hi'.sound⟩,
        hi.2.apply ⟨hi.1.2, hi.1.1.grounded⟩ hok h⟩
    · rw [h₀.noNodes.mem x] at hn
      exact absurd hn (by simp)
  exact ⟨⟨hinv.1.2, hinv.1.1.grounded⟩, hinv.2⟩

/-! ### A rule for the loop over the queue -/

/-- A slot that is read is a slot of the vector. -/
theorem readSlot_ok {vector : Node → SlotVector Addr} {buffer i : ℕ}
    (h : w.readSlot a vector buffer i = .ok c) :
    ∃ n, w.heap.mem a = some n ∧ (vector n).slots[i]? = some c := by
  obtain ⟨n, hn, h⟩ := Outcome.bind_eq_ok.mp h
  refine ⟨n, (Heap.node_eq_ok _).mp hn, ?_⟩
  split at h
  · exact absurd h (by simp)
  · split at h
    · rename_i hc
      obtain rfl := Except.ok.inj h
      exact hc
    · exact absurd h (by simp)

/-- **What deleting a child keeps, the loop keeps**, when the slots it reads hold children of
its node, apart from addresses of objects that are gone; and the loop does not fail. `I` may
speak about the list of the deleted children. -/
theorem deleteMarkedFrom_rule {I : World → List Addr → Prop} {L k i : ℕ} {ds : List Addr}
    {n : Node}
    (hI : ∀ u l q u', I u l → Forested u → u.heap.parentOf q = some a → u.delete q = .ok u' →
      Forested u' → Deleted u.heap u'.heap q → I u' (l ++ [q]))
    (hf : Forested w) (hi : I w ds) (hn : w.heap.mem a = some n)
    (hlen : n.childrenToDelete.live.length ≤ L ∧ L ≤ n.childrenToDelete.slots.length)
    (hown : ∀ x ∈ n.childrenToDelete.slots.take L, w.heap.Live x → w.heap.parentOf x = some a)
    (hik : i + k ≤ L) : ∃ w' ds', deleteMarkedFrom a n.childrenToDelete.buffer k i (w, ds) =
      .ok (w', ds') ∧ Forested w' ∧ I w' ds' := by
  induction k generalizing i w ds n with
  | zero => exact ⟨w, ds, rfl, hf, hi⟩
  | succ k ih =>
      obtain ⟨c, hslot⟩ : ∃ c, n.childrenToDelete.slots[i]? = some c :=
        ⟨_, List.getElem?_eq_getElem (by omega)⟩
      have hread : w.readSlot a Node.childrenToDelete n.childrenToDelete.buffer i = .ok c := by
        simp [readSlot, Heap.node_of_mem hn, hslot]
      simp only [deleteMarkedFrom, hread, Outcome.ok_bind]
      split <;> rename_i halive
      · have hlive : w.heap.Live c := (hf.named.isAlive_nodePtr c).mp halive
        have hpc : w.heap.parentOf c = some a := by
          refine hown c (List.mem_of_getElem? (i := i) ?_) hlive
          rw [List.getElem?_take_of_lt (by omega), hslot]
        obtain ⟨u, hu, hfu, hd⟩ := hf.delete hlive
        have hnu : u.heap.mem a = some (n.removeChild c) := by
          rw [hd.parent a hpc, hn]
          rfl
        rw [hu]
        refine ih (n := n.removeChild c) hfu (hI w ds c u hi hf hpc hu hfu hd) hnu ⟨?_, ?_⟩
          (fun x hx hxl => ?_) (by omega)
        · exact Nat.le_trans (SlotVector.length_live_removeAll_le ..) hlen.1
        · exact Nat.le_trans hlen.2 (Nat.le_of_eq (SlotVector.length_slots_removeAll ..).symm)
        · have hx' := hown x (SlotVector.mem_take_slots_removeAll hlen.1 hx)
          obtain ⟨hxl, hxb⟩ := (hd.live x).mp hxl
          rw [hd.parentOf hxb]
          exact hx' hxl
      · exact ih hf hi hn hlen hown (by omega)

/-- **The loop at the start of `Node::run`** succeeds on a live node with a queue of children, and
keeps what deleting a child keeps. -/
theorem exists_deleteMarked {I : World → List Addr → Prop}
    (hI : ∀ u l q u', I u l → Forested u → u.heap.parentOf q = some a → u.delete q = .ok u' →
      Forested u' → Deleted u.heap u'.heap q → I u' (l ++ [q]))
    (hf : Forested w) (ha : w.heap.Live a)
    (hq : w.QueueOwn a) (hi : I w []) :
    ∃ w' ds, w.deleteMarked a = .ok (w', ds) ∧ Forested w' ∧ I w' ds := by
  obtain ⟨n, hn⟩ := Option.isSome_iff_exists.mp ha
  rw [QueueOwn, Heap.queueOf_of_mem hn] at hq
  obtain ⟨w', ds, hloop, hrest⟩ := deleteMarkedFrom_rule hI hf hi hn
    (L := n.childrenToDelete.live.length) ⟨Nat.le_refl _, by simp [SlotVector.slots]⟩
    (fun x hx _ => hq x (by rwa [SlotVector.slots, List.take_left] at hx))
    (Nat.le_of_eq (Nat.zero_add _))
  refine ⟨w', ds, ?_, hrest⟩
  rw [deleteMarked, Heap.node_of_mem hn]
  exact hloop

/-- The rule for the loop at the start of `Node::run`. -/
theorem deleteMarked_rule {I : World → List Addr → Prop} {r : World × List Addr}
    (hI : ∀ u l q u', I u l → Forested u → u.heap.parentOf q = some a → u.delete q = .ok u' →
      Forested u' → Deleted u.heap u'.heap q → I u' (l ++ [q]))
    (hf : Forested w) (hq : w.QueuesOwn) (hi : I w []) (h : w.deleteMarked a = .ok r) :
    Forested r.1 ∧ I r.1 r.2 := by
  obtain ⟨n, hn, -⟩ := Outcome.bind_eq_ok.mp h
  have ha : w.heap.Live a := Option.isSome_iff_exists.mpr ⟨n, (Heap.node_eq_ok _).mp hn⟩
  obtain ⟨w', ds, hw', hrest⟩ := exists_deleteMarked hI hf ha (queuesOwn_iff.mp hq a) hi
  obtain rfl := Except.ok.inj (hw'.symm.trans h)
  exact hrest

/-- With an empty queue there is nothing to delete. -/
theorem deleteMarked_of_empty {n : Node} (hm : w.heap.mem a = some n)
    (he : n.childrenToDelete.live = []) : w.deleteMarked a = .ok (w, []) := by
  rw [deleteMarked]
  rw [Heap.node_of_mem hm]
  simp only [Outcome.ok_bind]
  rw [he]
  rfl

/-- The start of `Node::run`. -/
theorem enterRun_ok {f : Frame} (h : w.enterRun a = .ok (w', f)) :
    ∃ r n, w.deleteMarked a = .ok r ∧ r.1.clearMarked a = .ok w' ∧ w'.heap.mem a = some n ∧
      f = ⟨a, n.children.buffer, 0, n.children.live.length, false⟩ := by
  obtain ⟨r, hr, h⟩ := Outcome.bind_eq_ok.mp h
  obtain ⟨u, hu, h⟩ := Outcome.bind_eq_ok.mp h
  obtain ⟨n, hn, h⟩ := Outcome.bind_eq_ok.mp h
  obtain ⟨rfl, rfl⟩ := Prod.mk.inj (Except.ok.inj h)
  exact ⟨r, n, hr, hu, (Heap.node_eq_ok _).mp hn, rfl⟩

/-- `run()` is called on an object. -/
theorem live_of_enterRun {r : World × Frame} (h : w.enterRun a = .ok r) : w.heap.Live a := by
  obtain ⟨s, hs, -⟩ := Outcome.bind_eq_ok.mp h
  obtain ⟨n, hn, -⟩ := Outcome.bind_eq_ok.mp hs
  exact Option.isSome_iff_exists.mpr ⟨n, (Heap.node_eq_ok _).mp hn⟩

/-! ### The slots that loops still have to read -/

/-- The loops over the children that are in progress read children of their node, apart from
addresses of objects that are gone. -/
def SlotsOwn (w : World) (fs : List Frame) : Prop :=
  ∀ f ∈ fs, ∀ n, w.heap.mem f.node = some n → n.children.live.length ≤ f.stop ∧
    ∀ x ∈ n.children.slots.take f.stop, w.heap.Live x → w.heap.parentOf x = some f.node

namespace SlotsOwn

variable {fs gs : List Frame}

/-- What the loop reads is a child. -/
theorem read {f : Frame} (hs : w.SlotsOwn fs) (hf : f ∈ fs) (hlt : f.next < f.stop)
    (hread : w.readSlot f.node Node.children f.buffer f.next = .ok c) (hc : w.heap.Live c) :
    w.heap.parentOf c = some f.node := by
  obtain ⟨n, hn, hslot⟩ := readSlot_ok hread
  obtain ⟨-, hown⟩ := hs f hf n hn
  refine hown c (List.mem_of_getElem? (i := f.next) ?_) hc
  rw [List.getElem?_take_of_lt hlt, hslot]

/-- Deleting a node. -/
theorem delete (hs : w.SlotsOwn fs) (hd : Deleted w.heap w'.heap q) : w'.SlotsOwn fs := by
  intro f hf n hn
  have hb : ¬ Below w.heap.childrenOf q f.node := fun h => by
    rw [hd.gone _ h] at hn
    exact absurd hn (by simp)
  obtain ⟨m, hm, hlen, hsub⟩ : ∃ m, w.heap.mem f.node = some m ∧
      (m.children.live.length ≤ f.stop → n.children.live.length ≤ f.stop) ∧
      (m.children.live.length ≤ f.stop → ∀ x ∈ n.children.slots.take f.stop,
        x ∈ m.children.slots.take f.stop) := by
    rcases hd.exists_map hb with h | h
    · exact ⟨n, h ▸ hn, id, fun _ x hx => hx⟩
    · rw [h] at hn
      obtain ⟨m, hm, rfl⟩ := Option.map_eq_some_iff.mp hn
      exact ⟨m, hm, Nat.le_trans (SlotVector.length_live_removeAll_le ..),
        fun hlen x hx => SlotVector.mem_take_slots_removeAll hlen hx⟩
  obtain ⟨hle, hown⟩ := hs f hf m hm
  refine ⟨hlen hle, fun x hx hxl => ?_⟩
  obtain ⟨hxl, hxb⟩ := (hd.live x).mp hxl
  rw [hd.parentOf hxb]
  exact hown x (hsub hle x hx) hxl

/-- The vectors of children and the parents are the same. -/
theorem congr {u : World} (hs : w.SlotsOwn fs)
    (hkids : ∀ x, (u.heap.mem x).map Node.children = (w.heap.mem x).map Node.children)
    (hpar : ∀ x, u.heap.parentOf x = w.heap.parentOf x) : u.SlotsOwn fs := by
  intro f hf n hn
  have hmap := hkids f.node
  rw [hn, Option.map_some] at hmap
  obtain ⟨m, hm, hmn⟩ := Option.map_eq_some_iff.mp hmap.symm
  obtain ⟨hle, hown⟩ := hs f hf m hm
  rw [← hmn]
  refine ⟨hle, fun x hx hxl => ?_⟩
  have hxl' : w.heap.Live x := by
    have hiff := congrArg Option.isSome (hkids x)
    rw [Option.isSome_map, Option.isSome_map] at hiff
    exact hiff.symm.trans hxl
  rw [hpar]
  exact hown x hx hxl'

/-- A loop over the children of a node starts. -/
theorem push (hs : w.SlotsOwn fs) (hl : w.heap.Linked) {n : Node} {d : Addr}
    (hm : w.heap.mem d = some n) (b i : ℕ) (u : Bool) :
    w.SlotsOwn (⟨d, b, i, n.children.live.length, u⟩ :: fs) := by
  intro f hf m hm'
  rcases List.mem_cons.mp hf with rfl | hf
  · obtain rfl := Option.some.inj (hm.symm.trans hm')
    refine ⟨Nat.le_refl _, fun x hx _ => ?_⟩
    rw [SlotVector.slots, List.take_left] at hx
    refine (hl.mem_childrenOf d x).mp ?_
    rwa [Heap.childrenOf_of_mem hm]
  · exact hs f hf m hm'

/-- Only the nodes and the ends of the frames matter. -/
theorem frames (hs : w.SlotsOwn fs)
    (h : ∀ f ∈ gs, ∃ g ∈ fs, f.node = g.node ∧ f.stop = g.stop) : w.SlotsOwn gs := by
  intro f hf
  obtain ⟨g, hg, hn, hstop⟩ := h f hf
  rw [hn, hstop]
  exact hs g hg

/-- The frame on top goes on. -/
theorem head {f f' : Frame} (hs : w.SlotsOwn (f :: fs)) (hn : f'.node = f.node)
    (hstop : f'.stop = f.stop) : w.SlotsOwn (f' :: fs) := by
  refine hs.frames fun x hx => ?_
  rcases List.mem_cons.mp hx with rfl | hx
  · exact ⟨f, List.mem_cons_self, hn, hstop⟩
  · exact ⟨x, List.mem_cons_of_mem f hx, rfl, rfl⟩

end SlotsOwn

end World

end SimplyNode
