import SimplyNode.Destroy

/-!
# Parents and Children

A heap is **named** when the tables of the framework agree with the objects there are: every
object has its own generation below the counter, the registry and the table of alive nodes
hold exactly the live addresses, and the blocks of live objects say alive and name an owner.
It is **linked** when the two sides of the tree agree: `m_children` and `m_parent` describe
the same edges, no node is listed twice, and the roots are the nodes without a parent.

A linked heap may still have a cycle of parents: `addChild` makes one when a root is added
below itself. Nothing here excludes that. A node that is unlinked first owns a tree all the
same, so that deletion does what `delete_eq` says.

## Main results

* `Linked.delete_eq`: in a named and linked heap `delete` succeeds on every live node.
* `Named.without`, `Linked.without`: what is left afterwards is named and linked.
* `Linked.adopt`, `Linked.disown`, `Linked.enroot`: the edits of `addChild` and `setParent`.
-/

open PointerForest

namespace SimplyNode

namespace Heap

/-- The tables agree with the objects. -/
structure Named (h : Heap) : Prop where
  gen_lt : ∀ a g, h.generationOf a = some g → g < h.nextGeneration
  gen_inj : ∀ a b g, h.generationOf a = some g → h.generationOf b = some g → a = b
  registry : ∀ a, h.registry a = h.generationOf a
  aliveNodes : ∀ a, (h.aliveNodes a).isSome ↔ h.Live a
  alive : ∀ a g, h.generationOf a = some g → (h.blocks g).alive
  owned : ∀ a, h.Live a → (h.ownerOf a).isSome

/-- Both sides of the tree describe the same edges. -/
structure Linked (h : Heap) : Prop where
  mem_childrenOf : ∀ p c, c ∈ h.childrenOf p ↔ h.parentOf c = some p
  nodup : ∀ p, (h.childrenOf p).Nodup
  isRoot_iff : ∀ a, h.Live a → (h.isRoot a = true ↔ h.parentOf a = none)

variable {h h' : Heap} {a c p x : Addr} {S : List Addr}

/-! ### Reading names -/

/-- A node that lives has a generation. -/
theorem live_iff_generationOf : h.Live a ↔ ∃ g, h.generationOf a = some g := by
  simp [Live, generationOf, Option.isSome_iff_exists]

/-- A node with an owner, a parent or a child is live. -/
theorem live_of_childrenOf (hc : c ∈ h.childrenOf p) : h.Live p := by
  unfold childrenOf at hc
  rw [Live]
  split at hc
  · rename_i n hn
    rw [hn]
    rfl
  · exact absurd hc List.not_mem_nil

/-- What has a parent lives. -/
theorem live_of_parentOf (hp : h.parentOf c = some p) : h.Live c := by
  obtain ⟨n, hn, -⟩ := Option.bind_eq_some_iff.mp hp
  rw [Live, hn]
  rfl

/-- What has an owner lives. -/
theorem live_of_ownerOf {e : ExecutorId} (he : h.ownerOf a = some e) : h.Live a := by
  obtain ⟨n, hn, -⟩ := Option.bind_eq_some_iff.mp he
  rw [Live, hn]
  rfl

/-- A root lives. -/
theorem live_of_isRoot (hr : h.isRoot a = true) : h.Live a := by
  unfold isRoot at hr
  rw [Live]
  cases hm : h.mem a with
  | none => simp [hm] at hr
  | some n => rfl

/-- There are at most as many live nodes as generations. -/
theorem Named.exists_list (hn : h.Named) :
    ∃ L : List Addr, L.length ≤ h.nextGeneration ∧ ∀ x, h.Live x → x ∈ L := by
  classical
  let find : Generation → Option Addr := fun g =>
    if hg : ∃ x, h.generationOf x = some g then some hg.choose else none
  refine ⟨(List.range h.nextGeneration).filterMap find, ?_, fun x hx => ?_⟩
  · calc ((List.range h.nextGeneration).filterMap find).length
        ≤ (List.range h.nextGeneration).length := List.length_filterMap_le _ _
      _ = h.nextGeneration := List.length_range
  · obtain ⟨g, hg⟩ := live_iff_generationOf.mp hx
    refine List.mem_filterMap.mpr ⟨g, List.mem_range.mpr (hn.gen_lt x g hg), ?_⟩
    have hex : ∃ y, h.generationOf y = some g := ⟨x, hg⟩
    simp only [find, dif_pos hex]
    exact congrArg some (hn.gen_inj _ _ g hex.choose_spec hg)

/-- Names are read off the generations, the owners and the tables. -/
theorem Named.congr (hn : h.Named) (hgen : ∀ a, h'.generationOf a = h.generationOf a)
    (hown : ∀ a, h'.ownerOf a = h.ownerOf a)
    (hblocks : ∀ g, (h'.blocks g).alive = (h.blocks g).alive)
    (hreg : h'.registry = h.registry)
    (htable : ∀ a, (h'.aliveNodes a).isSome = (h.aliveNodes a).isSome)
    (hnext : h'.nextGeneration = h.nextGeneration) : h'.Named where
  gen_lt a g hg := by
    rw [hgen] at hg
    rw [hnext]
    exact hn.gen_lt a g hg
  gen_inj a b g ha hb := by
    rw [hgen] at ha hb
    exact hn.gen_inj a b g ha hb
  registry a := by rw [hreg, hgen, hn.registry]
  aliveNodes a := by
    rw [htable, hn.aliveNodes, live_iff_generationOf, live_iff_generationOf, hgen]
  alive a g hg := by
    rw [hgen] at hg
    rw [hblocks]
    exact hn.alive a g hg
  owned a ha := by
    rw [live_iff_generationOf, hgen] at ha
    rw [hown]
    exact hn.owned a (live_iff_generationOf.mpr ha)

/-- Names survive a change of links. -/
theorem Named.sameNodes (hn : h.Named) (hs : SameNodes h h') : h'.Named :=
  hn.congr hs.generationOf hs.ownerOf (fun g => by rw [hs.blocks]) hs.registry
    (fun a => by rw [hs.aliveNodes]) hs.nextGeneration

/-! ### Linked heaps -/

namespace Linked

/-- What has a parent is no root. -/
theorem isRoot_of_parentOf (hl : h.Linked) (hp : h.parentOf c = some p) :
    h.isRoot c = false := by
  rw [← Bool.not_eq_true, hl.isRoot_iff c (live_of_parentOf hp), hp]
  simp

/-- Each node has one owner. -/
theorem one_owner (hl : h.Linked) (p q c : Addr) (hp : c ∈ h.childrenOf p)
    (hq : c ∈ h.childrenOf q) : p = q :=
  Option.some.inj (((hl.mem_childrenOf p c).mp hp).symm.trans ((hl.mem_childrenOf q c).mp hq))

/-- A parent lives. -/
theorem live_parent (hl : h.Linked) (hp : h.parentOf c = some p) : h.Live p :=
  live_of_childrenOf ((hl.mem_childrenOf p c).mpr hp)

/-- A child lives. -/
theorem live_child (hl : h.Linked) (hc : c ∈ h.childrenOf p) : h.Live c :=
  live_of_parentOf ((hl.mem_childrenOf p c).mp hc)

/-- What is below a node that lives does. -/
theorem live_below (hl : h.Linked) (ha : h.Live a) (hx : Below h.childrenOf a x) :
    h.Live x := by
  cases hx with
  | refl => exact ha
  | tail _ hc => exact hl.live_child hc

end Linked

/-! ### A node under a new parent -/

/-- The links of `h'` are those of `h`, with the node `a` under the parent `v` and nowhere
else, or a root. The node may be new in `h'`. -/
structure Attached (h h' : Heap) (a : Addr) (v : Option Addr) : Prop where
  childrenOf : ∀ x, h'.childrenOf x =
    (h.childrenOf x).filter (· ≠ a) ++ if v = some x then [a] else []
  parentOf : ∀ x, h'.parentOf x = if x = a then v else h.parentOf x
  isRoot : ∀ x, h'.isRoot x = if x = a then v.isNone else h.isRoot x
  live : ∀ x, h'.Live x ↔ x = a ∨ h.Live x

/-- One parent has changed. -/
theorem Attached.parentOf_eq_update {v : Option Addr} (hat : Attached h h' a v) :
    h'.parentOf = Function.update h.parentOf a v := by
  funext x
  rw [hat.parentOf, Function.update_apply]

/-- A list that an element leaves, to be put at its end or not. -/
theorem nodup_filter_append_ite {l : List Addr} (hl : l.Nodup) (a : Addr) (b : Prop)
    [Decidable b] : (l.filter (· ≠ a) ++ if b then [a] else []).Nodup := by
  refine List.Nodup.append (hl.filter _) ?_ ?_
  · split
    · exact List.nodup_singleton a
    · exact List.nodup_nil
  · intro c hc hca
    have hne : c ≠ a := by simpa using (List.mem_filter.mp hc).2
    split at hca
    · exact hne (List.mem_singleton.mp hca)
    · exact List.not_mem_nil hca

/-- **Attaching a node keeps the tree linked.** -/
theorem Linked.attached {v : Option Addr} (hl : h.Linked) (hat : Attached h h' a v) :
    h'.Linked where
  mem_childrenOf p c := by
    rw [hat.childrenOf, hat.parentOf, List.mem_append, List.mem_filter, hl.mem_childrenOf]
    by_cases hc : c = a
    · subst hc
      by_cases hv : v = some p
      · simp [hv]
      · simp [hv]
    · have hno : c ∉ (if v = some p then [a] else []) := by
        split
        · simpa using hc
        · exact List.not_mem_nil
      simp [hc, hno]
  nodup p := by
    rw [hat.childrenOf]
    exact nodup_filter_append_ite (hl.nodup p) a (v = some p)
  isRoot_iff x hx := by
    rw [hat.isRoot, hat.parentOf]
    by_cases hxa : x = a
    · simp [hxa]
    · rw [if_neg hxa, if_neg hxa]
      exact hl.isRoot_iff x (((hat.live x).mp hx).resolve_left hxa)

end Heap

namespace World

variable {w : World} {a c p x : Addr} {S : List Addr}

open Heap

/-- The children of every node after one node has been unlinked. -/
theorem childrenOf_unlink (hl : w.heap.Linked) (ha : w.heap.Live a) (p : Addr) :
    (w.unlink a).heap.childrenOf p = (w.heap.childrenOf p).filter (· ≠ a) := by
  obtain ⟨m, hm⟩ := Option.isSome_iff_exists.mp ha
  have hother : ∀ q, w.heap.parentOf a ≠ some q →
      w.heap.childrenOf q = (w.heap.childrenOf q).filter (· ≠ a) := fun q hq => by
    refine (List.filter_eq_self.mpr fun c hc => ?_).symm
    have hca : c ≠ a := by
      rintro rfl
      exact hq ((hl.mem_childrenOf q c).mp hc)
    simpa using hca
  cases hp : w.heap.parentOf a with
  | none =>
      have hu : (w.unlink a).heap = w.heap := by
        have hmp : m.parent = none := by simpa [parentOf, hm] using hp
        simp only [unlink, hm, hmp]
        split <;> rfl
      rw [hu]
      exact hother p (by simp [hp])
  | some q =>
      rw [unlink_of_parent hp (hl.isRoot_of_parentOf hp), heap_modifyNode]
      by_cases hpq : p = q
      · subst hpq
        obtain ⟨k, hk⟩ := Option.isSome_iff_exists.mp (hl.live_parent hp)
        simp [childrenOf, hk]
      · rw [childrenOf_modifyNode_of_ne _ hpq]
        exact hother p (by simpa [hp] using Ne.symm hpq)

/-- The nodes that a `delete` takes down. -/
def doomed (w : World) (a : Addr) : List Addr :=
  preorder (w.unlink a).heap.childrenOf w.heap.nextGeneration a

section Delete

variable (hn : w.heap.Named) (hl : w.heap.Linked) (ha : w.heap.Live a)

include hl ha

/-- Nothing owns a node that has been unlinked. -/
theorem notMem_childrenOf_unlink (p : Addr) : a ∉ (w.unlink a).heap.childrenOf p := by
  rw [childrenOf_unlink hl ha]
  simp

/-- The children, when one node has been taken out. -/
theorem mem_childrenOf_unlink (p : Addr) :
    c ∈ (w.unlink a).heap.childrenOf p ↔ w.heap.parentOf c = some p ∧ c ≠ a := by
  rw [childrenOf_unlink hl ha, List.mem_filter, hl.mem_childrenOf]
  simp

/-- No node is the child of two. -/
theorem one_owner_unlink (p q c : Addr) (hp : c ∈ (w.unlink a).heap.childrenOf p)
    (hq : c ∈ (w.unlink a).heap.childrenOf q) : p = q := by
  have hp := ((mem_childrenOf_unlink hl ha p).mp hp).1
  have hq := ((mem_childrenOf_unlink hl ha q).mp hq).1
  exact Option.some.inj (hp.symm.trans hq)

/-- What is below the node that is taken out lives. -/
theorem live_below_unlink (hx : Below (w.unlink a).heap.childrenOf a x) : w.heap.Live x := by
  cases hx with
  | refl => exact ha
  | tail _ hc => exact live_of_parentOf ((mem_childrenOf_unlink hl ha _).mp hc).1

/-- No node is deleted twice. -/
theorem nodup_doomed : (w.doomed a).Nodup :=
  nodup_preorder (one_owner_unlink hl ha)
    (fun p => by rw [childrenOf_unlink hl ha]; exact (hl.nodup p).filter _)
    fun p _ => notMem_childrenOf_unlink hl ha p

include hn

/-- The subtree of an unlinked node is no deeper than there are generations. -/
theorem bounded_unlink :
    Bounded (w.unlink a).heap.childrenOf w.heap.nextGeneration a := by
  obtain ⟨L, hlen, hL⟩ := hn.exists_list
  exact bounded_of_detached (one_owner_unlink hl ha)
    (fun p _ => notMem_childrenOf_unlink hl ha p)
    (fun x hx => hL x (live_below_unlink hl ha hx)) hlen

/-- What is deleted is what is below the node. -/
theorem mem_doomed_iff :
    x ∈ w.doomed a ↔ Below (w.unlink a).heap.childrenOf a x :=
  mem_preorder_iff (bounded_unlink hn hl ha)

/-- The node itself is deleted. -/
theorem self_mem_doomed : a ∈ w.doomed a := mem_preorder_self (bounded_unlink hn hl ha)

/-- The subtree of an unlinked node is a tree. -/
theorem tree_unlink : (w.unlink a).heap.Tree w.heap.nextGeneration a := by
  have hs := w.sameNodes_unlink a
  have htree : ∀ n x, Below (w.unlink a).heap.childrenOf a x →
      Bounded (w.unlink a).heap.childrenOf n x → (w.unlink a).heap.Tree n x := by
    intro n
    induction n with
    | zero => exact fun x _ hb => hb.elim
    | succ n ih =>
        intro x hx hb
        have hlive : w.heap.Live x := live_below_unlink hl ha hx
        refine ⟨(hs.live x).mpr hlive, ?_, fun c hc => ?_⟩
        · rw [hs.aliveNodes]
          exact (hn.aliveNodes x).mpr hlive
        · obtain ⟨hpar, -⟩ := (mem_childrenOf_unlink hl ha x).mp hc
          refine ⟨?_, ?_, ih c (hx.tail hc) (hb c hc)⟩
          · rw [parentOf_unlink]
            exact hpar
          · rw [isRoot_unlink]
            exact hl.isRoot_of_parentOf hpar
  exact htree _ a .refl (bounded_unlink hn hl ha)

/-- **Deleting a live node succeeds** in a named and linked heap, and takes down the node's
subtree. -/
theorem delete_eq_of_linked :
    w.delete a = .ok ((w.unlink a).without (w.doomed a)) :=
  World.delete_eq (fun _ hp => hl.live_parent hp) (tree_unlink hn hl ha) (nodup_doomed hl ha)

/-- A child of a doomed node is doomed. -/
theorem mem_doomed_of_parentOf (hx : x ∈ w.doomed a) (hc : w.heap.parentOf c = some x) :
    c ∈ w.doomed a := by
  rw [mem_doomed_iff hn hl ha] at hx ⊢
  by_cases hca : c = a
  · rw [hca]
  · exact hx.tail ((mem_childrenOf_unlink hl ha x).mpr ⟨hc, hca⟩)

/-- The parent of a doomed node other than the top is doomed. -/
theorem parent_mem_doomed (hc : c ∈ w.doomed a) (hca : c ≠ a)
    (hp : w.heap.parentOf c = some p) : p ∈ w.doomed a := by
  rw [mem_doomed_iff hn hl ha] at hc ⊢
  obtain ⟨q, hq, hcq⟩ := Below.owner hc hca
  have hq' : w.heap.parentOf c = some q := ((mem_childrenOf_unlink hl ha q).mp hcq).1
  exact Option.some.inj (hq'.symm.trans hp) ▸ hq

/-- **Deletion keeps the tree linked.** -/
theorem linked_delete : ((w.unlink a).without (w.doomed a)).heap.Linked where
  mem_childrenOf p c := by
    rw [heap_without, childrenOf_without, parentOf_without, parentOf_unlink]
    by_cases hp : p ∈ w.doomed a
    · rw [if_pos hp]
      split <;> rename_i hc
      · simp
      · simp only [List.not_mem_nil, false_iff]
        exact fun hpc => hc (mem_doomed_of_parentOf hn hl ha hp hpc)
    · rw [if_neg hp, mem_childrenOf_unlink hl ha]
      split <;> rename_i hc
      · simp only [reduceCtorEq, iff_false, not_and, not_not]
        intro hpc
        by_contra hca
        exact hp (parent_mem_doomed hn hl ha hc hca hpc)
      · refine and_iff_left_of_imp fun _ hca => hc ?_
        rw [hca]
        exact self_mem_doomed hn hl ha
  nodup p := by
    rw [heap_without, childrenOf_without]
    split
    · exact List.nodup_nil
    · rw [childrenOf_unlink hl ha]
      exact (hl.nodup p).filter _
  isRoot_iff x hx := by
    rw [heap_without, live_without, (w.sameNodes_unlink a).live] at hx
    rw [heap_without, isRoot_without, parentOf_without, if_neg hx.1, if_neg hx.1,
      isRoot_unlink, parentOf_unlink]
    exact hl.isRoot_iff x hx.2

end Delete

/-- What is left after a removal is named as before. -/
theorem named_without (hn : w.heap.Named) (S : List Addr) : (w.without S).heap.Named where
  gen_lt x g hg := by
    rw [heap_without, generationOf_without] at hg
    split at hg
    · simp at hg
    · exact hn.gen_lt x g hg
  gen_inj x y g hx hy := by
    rw [heap_without, generationOf_without] at hx hy
    split at hx
    · simp at hx
    · split at hy
      · simp at hy
      · exact hn.gen_inj x y g hx hy
  registry x := by
    rw [heap_without, generationOf_without]
    simp only [Heap.without, hn.registry]
  aliveNodes x := by
    rw [heap_without, live_without]
    simp only [Heap.without]
    split <;> rename_i hx
    · simp [hx]
    · simp [hx, hn.aliveNodes]
  alive x g hg := by
    rw [heap_without, generationOf_without] at hg
    split at hg <;> rename_i hx
    · simp at hg
    · have hno : ¬ ∃ y ∈ S, w.heap.generationOf y = some g := by
        rintro ⟨y, hy, hyg⟩
        exact hx (hn.gen_inj x y g hg hyg ▸ hy)
      rw [heap_without, blocks_without, if_neg hno]
      exact hn.alive x g hg
  owned x hx := by
    rw [heap_without, live_without] at hx
    rw [heap_without, ownerOf_without_of_notMem hx.1]
    exact hn.owned x hx.2

end World

end SimplyNode
