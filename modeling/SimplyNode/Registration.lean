import SimplyNode.Books

/-!
# The Invariant of the Tree Operations

`Sound` puts together what the tree operations keep on any number of executors: the tables
agree with the objects (`Named`), parents with children (`Linked`), every child has its
parent's owner, and the executors' books are balanced.

## Main results

* `Sound.addChild_root`, `Sound.setParent_some`, `Sound.setParent_none`: the edits.
* `Sound.construct_child`, `Sound.construct_root`: a new node.
* `Sound.delete`: deletion.
-/

namespace SimplyNode

/-! ### The invariant of the tree operations -/

/-- The tables agree with the objects, parents with children, each child has its parent's
owner, and the books are balanced. Strands that own nodes exist. -/
structure Sound (w : World) : Prop where
  named : w.heap.Named
  linked : w.heap.Linked
  affine : ∀ c p, w.heap.parentOf c = some p → w.heap.ownerOf c = w.heap.ownerOf p
  balanced : Balanced w.heap w.execs
  strand_lt : ∀ a s, w.heap.ownerOf a = some (.strand s) → s < w.execs.nextStrand

namespace Sound

variable {w w' : World} {a c p : Addr} {ctx : CallContext} {cls : NodeClass}

/-- The executors may change in everything but their books. -/
theorem sameBooks (hs : Sound w) {x : Executors} (hx : Executors.SameBooks w.execs x)
    (hnext : w.execs.nextStrand ≤ x.nextStrand) : Sound (w.withExecs x) where
  named := hs.named
  linked := hs.linked
  affine := hs.affine
  balanced := hs.balanced.sameBooks hx
  strand_lt a s ha := Nat.lt_of_lt_of_le (hs.strand_lt a s ha) hnext

/-- A child and its parent have one owner, where the node that is attached has the owner of its
new parent. -/
theorem affine_attached (hs : Sound w) {h' : Heap} {v : Option Addr}
    (hsn : Heap.SameNodes w.heap h') (hat : Heap.Attached w.heap h' a v)
    (hown : ∀ q, v = some q → w.heap.ownerOf a = w.heap.ownerOf q) (d q : Addr)
    (hd : h'.parentOf d = some q) : h'.ownerOf d = h'.ownerOf q := by
  rw [hat.parentOf] at hd
  rw [hsn.ownerOf, hsn.ownerOf]
  split at hd <;> rename_i hda
  · rw [hda, hown q hd]
  · exact hs.affine d q hd

/-- `addChild` of a root to a node of the same owner. -/
theorem addChild_root (hs : Sound w) (hp : w.heap.Live p) (hr : w.heap.isRoot c = true)
    (hown : w.heap.ownerOf c = w.heap.ownerOf p) :
    ∃ w', w.addChild p c = .ok w' ∧ Sound w' ∧ Heap.SameNodes w.heap w'.heap ∧
      Heap.Attached w.heap w'.heap c (some p) := by
  have hc : w.heap.Live c := Heap.live_of_isRoot hr
  have hat := Heap.attached_adopt hs.linked hp hr
  have hsn : Heap.SameNodes w.heap (w.heap.adopt p c) := Heap.sameNodes_adopt
  obtain ⟨e, he⟩ := Option.isSome_iff_exists.mp (hs.named.owned c hc)
  refine ⟨_, World.addChild_eq hp hc, ?_, hsn, hat⟩
  rw [hr, if_pos rfl]
  exact
    { named := hs.named.sameNodes hsn
      linked := hs.linked.attached hat
      affine := hs.affine_attached hsn hat fun q hq => by
        obtain rfl := Option.some.inj hq
        exact hown
      balanced := hs.balanced.setRoot (b := false) hsn.ownerOf hat.isRoot he
        (fun e l hl => Executors.registers_removeRootFrom.mpr hl) fun e' => by
          simpa using hs.balanced.rootNodes_removeRootFrom e'
      strand_lt := fun d s hd => by
        simp only [World.heap_withExecs, World.heap_withHeap, World.execs_withExecs] at hd ⊢
        rw [hsn.ownerOf] at hd
        rw [Executors.nextStrand_removeRootFrom]
        exact hs.strand_lt d s hd }

/-- Leaving the parent or the root list. -/
theorem rootNodes_leave (hs : Sound w) (e : ExecutorId) :
    (w.leave a).execs.rootNodes e = (w.execs.rootNodes e).filter (· ≠ a) := by
  rw [World.leave]
  split <;> rename_i hp
  · exact hs.balanced.rootNodes_removeRootFrom e
  · obtain ⟨p, hp⟩ := Option.ne_none_iff_exists'.mp hp
    exact (hs.balanced.filter_rootNodes
      (Or.inl (hs.linked.isRoot_of_parentOf hp))).symm

/-- Leaving the parent keeps who is registered. -/
theorem registers_leave {e : ExecutorId} {l : List Addr} (hl : w.execs.Registers e l) :
    (w.leave a).execs.Registers e l := by
  rw [World.leave]
  split
  · exact Executors.registers_removeRootFrom.mpr hl
  · exact hl

/-- Leaving the parent creates no strand. -/
theorem sameStrands_leave : Executors.SameStrands w.execs (w.leave a).execs := by
  rw [World.leave]
  split
  · exact Executors.sameStrands_removeRootFrom ..
  · exact .refl _

/-- `setParent` to a node of the same owner. -/
theorem setParent_some (hs : Sound w) (ha : w.heap.Live a) (hp : w.heap.Live p)
    (hown : w.heap.ownerOf a = w.heap.ownerOf p) :
    ∃ w', w.setParent a (some p) = .ok w' ∧ Sound w' ∧ Heap.SameNodes w.heap w'.heap ∧
      Heap.Attached w.heap w'.heap a (some p) := by
  have hat := Heap.attached_leave_adopt hs.linked hp ha
  have hsn : Heap.SameNodes w.heap ((w.heap.leave a).adopt p a) :=
    Heap.sameNodes_leave.trans Heap.sameNodes_adopt
  obtain ⟨e, he⟩ := Option.isSome_iff_exists.mp (hs.named.owned a ha)
  refine ⟨_, World.setParent_some hs.linked ha hp, ?_, hsn, hat⟩
  exact
    { named := hs.named.sameNodes hsn
      linked := hs.linked.attached hat
      affine := hs.affine_attached hsn hat fun q hq => by
        obtain rfl := Option.some.inj hq
        exact hown
      balanced := hs.balanced.setRoot (b := false) hsn.ownerOf hat.isRoot he
        (fun _ _ => registers_leave) fun e' => by simpa using hs.rootNodes_leave e'
      strand_lt := fun d s hd => by
        simp only [World.heap_withHeap, World.execs_withHeap] at hd ⊢
        rw [hsn.ownerOf] at hd
        rw [sameStrands_leave.nextStrand]
        exact hs.strand_lt d s hd }

/-- `setParent` to null. -/
theorem setParent_none (hs : Sound w) (ha : w.heap.Live a) :
    ∃ w', w.setParent a none = .ok w' ∧ Sound w' ∧ Heap.SameNodes w.heap w'.heap ∧
      Heap.Attached w.heap w'.heap a none := by
  have hat := Heap.attached_leave_enroot hs.linked ha
  have hsn : Heap.SameNodes w.heap ((w.heap.leave a).enroot a) :=
    Heap.sameNodes_leave.trans Heap.sameNodes_enroot
  obtain ⟨e, he⟩ := Option.isSome_iff_exists.mp (hs.named.owned a ha)
  refine ⟨_, World.setParent_none hs.linked ha, ?_, hsn, hat⟩
  exact
    { named := hs.named.sameNodes hsn
      linked := hs.linked.attached hat
      affine := hs.affine_attached hsn hat fun q hq => absurd hq (by simp)
      balanced := hs.balanced.setRoot (b := true) hsn.ownerOf hat.isRoot he
        (fun _ _ hl => Executors.registers_addRootTo.mpr (registers_leave hl)) fun e' => by
          rw [World.execs_withExecs, Executors.rootNodes_addRootTo, he, hs.rootNodes_leave]
          by_cases hee : e = e'
          · simp [hee]
          · simp [hee, Ne.symm hee]
      strand_lt := fun d s hd => by
        simp only [World.heap_withExecs, World.heap_withHeap, World.execs_withExecs] at hd ⊢
        rw [hsn.ownerOf] at hd
        rw [(sameStrands_leave.trans Executors.sameStrands_addRootTo).nextStrand]
        exact hs.strand_lt d s hd }

/-- A new child of a live node. -/
theorem construct_child (hs : Sound w) (cls : NodeClass) (ha : w.heap.mem a = none)
    (hp : w.heap.Live p)
    (hctx : ctx.worker = false ∨ (w.heap.ownerOf p).any ctx.isCurrent) :
    ∃ w', w.construct ctx a cls (some p) = .ok w' ∧ Sound w' ∧
      Heap.Attached w.heap w'.heap a (some p) ∧
      ∀ x, w'.heap.ownerOf x = if x = a then w.heap.ownerOf p else w.heap.ownerOf x := by
  obtain ⟨e, he⟩ := Option.isSome_iff_exists.mp (hs.named.owned p hp)
  have hat := Heap.attached_born cls (o := some e) hs.linked ha (v := some p)
    fun q hq => Option.some.inj hq ▸ hp
  have hsn : Heap.SameNodes (w.heap.born a cls (some p) (some e)) _ :=
    Heap.sameNodes_listChild (v := some p) (a := a)
  have hown : ∀ c, ((w.heap.born a cls (some p) (some e)).listChild (some p) a).ownerOf c =
      if c = a then some e else w.heap.ownerOf c := fun c => by
    rw [hsn.ownerOf, Heap.ownerOf_born cls hs.named]
  have hpa : p ≠ a := by
    rintro rfl
    rw [Heap.Live, ha] at hp
    exact absurd hp (by simp)
  refine ⟨_, World.construct_child hs.named ha hp hctx, ?_⟩
  rw [he]
  refine ⟨?_, hat, hown⟩
  exact
    { named := (hs.named.born rfl).sameNodes hsn
      linked := hs.linked.attached hat
      affine := fun d q hd => by
        simp only at hd ⊢
        rw [hat.parentOf] at hd
        rw [hown, hown]
        split at hd <;> rename_i hda
        · obtain rfl := Option.some.inj hd
          rw [if_pos hda, if_neg hpa, he]
        · have hqa : q ≠ a := by
            rintro rfl
            have hlive := hs.linked.live_parent hd
            rw [Heap.Live, ha] at hlive
            exact absurd hlive (by simp)
          rw [if_neg hda, if_neg hqa]
          exact hs.affine d q hd
      balanced := hs.balanced.attached (b := false) ha hown hat.isRoot
        (fun e' l hl => by simpa using Executors.registers_addNodeTo (o := some e) hl)
        fun e' => by rw [Executors.rootNodes_addNodeTo]; simp
      strand_lt := fun d s hd => by
        simp only at hd ⊢
        rw [hown] at hd
        rw [Executors.sameStrands_addNodeTo.nextStrand]
        split at hd
        · exact hs.strand_lt p s (he.trans hd)
        · exact hs.strand_lt d s hd }

/-- Where a strand is current it exists. -/
theorem newRootOwner_lt (hstrand : ∀ s, ctx.strand = some s → s < w.execs.nextStrand)
    {s : StrandId} (ho : World.newRootOwner ctx = .strand s) : s < w.execs.nextStrand := by
  unfold World.newRootOwner at ho
  split at ho <;> rename_i hw
  · split at hw
    · exact hstrand s (by simpa [ExecutorId.strand.inj ho] using hw)
    · exact absurd hw (by simp)
  · exact absurd ho (by simp)

/-- A new root creates no strand. -/
theorem sameStrands_newRootExecs :
    Executors.SameStrands w.execs (World.newRootExecs w.execs ctx a) := by
  rw [World.newRootExecs]
  cases World.newRootOwner ctx <;> exact ⟨rfl, fun _ => rfl⟩

/-- A new root enters the root list and the registrations of its owner. -/
theorem newRootExecs_eq (w : World) (ctx : CallContext) (a : Addr) :
    ∃ y, Executors.SameBooks w.execs y ∧ y.nextStrand = w.execs.nextStrand ∧
      World.newRootExecs w.execs ctx a =
        (y.addRootTo (some (World.newRootOwner ctx)) a).addNodeTo
          (some (World.newRootOwner ctx)) a := by
  rw [World.newRootExecs]
  cases World.newRootOwner ctx with
  | strand s => exact ⟨_, ⟨fun _ => rfl, fun _ => rfl, fun _ => rfl⟩, rfl, rfl⟩
  | loop t =>
      have hloop : ∀ t', ((w.execs.createLoop t).loops t').nodes = (w.execs.loops t').nodes ∧
          ((w.execs.createLoop t).loops t').rootNodes = (w.execs.loops t').rootNodes := by
        intro t'
        by_cases ht : t' = t
        · subst ht
          simp [Executors.createLoop, Executors.modifyLoop]
        · simp [Executors.createLoop, Executors.modifyLoop, ht]
      refine ⟨_, ⟨fun t' => (hloop t').1, fun _ => rfl, fun e' => ?_⟩, rfl, rfl⟩
      cases e' with
      | loop t' => exact (hloop t').2
      | strand s => rfl

/-- A new root. -/
theorem construct_root (hs : Sound w) (cls : NodeClass) (ha : w.heap.mem a = none)
    (hctx : ctx.worker = false ∨ ctx.strand.isSome)
    (hstrand : ∀ s, ctx.strand = some s → s < w.execs.nextStrand) :
    ∃ w', w.construct ctx a cls none = .ok w' ∧ Sound w' ∧
      Heap.Attached w.heap w'.heap a none ∧
      ∀ x, w'.heap.ownerOf x =
        if x = a then some (World.newRootOwner ctx) else w.heap.ownerOf x := by
  set e := World.newRootOwner ctx with he
  obtain ⟨y, hy, hnext, hexecs⟩ := newRootExecs_eq w ctx a
  rw [← he] at hexecs
  have hat := Heap.attached_born cls (o := some e) hs.linked ha (v := none)
    fun q hq => absurd hq (by simp)
  have hown := Heap.ownerOf_born cls (v := none) (a := a) (o := some e) hs.named
  refine ⟨_, World.construct_root ha hctx, ?_⟩
  rw [hexecs]
  refine ⟨?_, hat, hown⟩
  exact
    { named := hs.named.born rfl
      linked := hs.linked.attached hat
      affine := fun d q hd => by
        simp only at hd ⊢
        have hd' : (if d = a then none else w.heap.parentOf d) = some q :=
          (hat.parentOf d).symm.trans hd
        rw [hown, hown]
        split at hd' <;> rename_i hda
        · exact absurd hd' (by simp)
        · have hqa : q ≠ a := by
            rintro rfl
            have hlive := hs.linked.live_parent hd'
            rw [Heap.Live, ha] at hlive
            exact absurd hlive (by simp)
          rw [if_neg hda, if_neg hqa]
          exact hs.affine d q hd'
      balanced := hs.balanced.attached (b := true) ha hown hat.isRoot
        (fun e' l hl => by
          simpa using Executors.registers_addNodeTo (o := some e)
            (Executors.registers_addRootTo.mpr (hy.registers.mpr hl)))
        fun e' => by
          rw [Executors.rootNodes_addNodeTo, Executors.rootNodes_addRootTo, hy.rootNodes]
          by_cases hee : e = e'
          · simp [hee]
          · simp [hee]
      strand_lt := fun d s hd => by
        simp only at hd ⊢
        rw [hown] at hd
        rw [(Executors.sameStrands_addRootTo.trans Executors.sameStrands_addNodeTo).nextStrand,
          hnext]
        split at hd
        · exact newRootOwner_lt hstrand (he ▸ Option.some.inj hd)
        · exact hs.strand_lt d s hd }

/-- Leaving the parent or the root list for good. -/
theorem rootNodes_unlink (hs : Sound w) (ha : w.heap.Live a) (e : ExecutorId) :
    (w.unlink a).execs.rootNodes e = (w.execs.rootNodes e).filter (· ≠ a) := by
  obtain ⟨m, hm⟩ := Option.isSome_iff_exists.mp ha
  have hown : w.heap.ownerOf a = w.heap.ownerExecutor m := Heap.ownerOf_of_mem hm
  have hroot : w.heap.isRoot a = m.isRoot := by simp [Heap.isRoot, hm]
  have hsome : (w.heap.ownerExecutor m).isSome := hown ▸ hs.named.owned a ha
  rw [World.unlink]
  rw [hm]
  dsimp only
  cases hr : m.isRoot with
  | true =>
      rw [hsome, ← hown]
      exact hs.balanced.rootNodes_removeRootFrom e
  | false =>
      have hkeep := hs.balanced.filter_rootNodes (e := e) (Or.inl (hroot.trans hr))
      simp only [Bool.false_and, if_neg Bool.false_ne_true]
      split
      · exact hkeep.symm
      · exact hkeep.symm

/-- Unlinking a node keeps who is registered. -/
theorem registers_unlink {e : ExecutorId} {l : List Addr} (hl : w.execs.Registers e l) :
    (w.unlink a).execs.Registers e l := by
  rw [World.unlink]
  split
  · exact hl
  · split
    · exact Executors.registers_removeRootFrom.mpr hl
    · split
      · exact hl
      · exact hl

/-- Unlinking a node creates no strand. -/
theorem sameStrands_unlink : Executors.SameStrands w.execs (w.unlink a).execs := by
  rw [World.unlink]
  split
  · exact .refl _
  · split
    · exact Executors.sameStrands_removeRootFrom ..
    · split
      · exact .refl _
      · exact .refl _

/-- **Deletion** of a live node. -/
theorem delete (hs : Sound w) (ha : w.heap.Live a) :
    ∃ w', w.delete a = .ok w' ∧ Sound w' ∧
      w' = (w.unlink a).without (w.doomed a) := by
  have hsn := w.sameNodes_unlink a
  have hown : ∀ c, ((w.unlink a).heap.without (w.doomed a)).ownerOf c =
      if c ∈ w.doomed a then none else w.heap.ownerOf c := fun c => by
    rw [Heap.ownerOf_without, hsn.ownerOf]
  refine ⟨_, World.delete_eq_of_linked hs.named hs.linked ha, ?_, rfl⟩
  exact
    { named := World.named_without (hs.named.sameNodes hsn) _
      linked := World.linked_delete hs.named hs.linked ha
      affine := fun d q hd => by
        rw [World.heap_without] at hd ⊢
        rw [Heap.parentOf_without, World.parentOf_unlink] at hd
        rw [hown, hown]
        split at hd <;> rename_i hdS
        · exact absurd hd (by simp)
        · have hqS : q ∉ w.doomed a := fun hq =>
            hdS (World.mem_doomed_of_parentOf hs.named hs.linked ha hq hd)
          rw [if_neg hdS, if_neg hqS]
          exact hs.affine d q hd
      balanced := by
        have honly : ∀ c ∈ w.doomed a, c ≠ a → w.heap.isRoot c = false := fun c hc hca => by
          rw [World.mem_doomed_iff hs.named hs.linked ha] at hc
          obtain ⟨p, -, hcp⟩ := PointerForest.Below.owner hc hca
          exact hs.linked.isRoot_of_parentOf
            ((World.mem_childrenOf_unlink hs.linked ha p).mp hcp).1
        have hfun : (w.unlink a).heap.ownerOf = w.heap.ownerOf := funext hsn.ownerOf
        rw [World.heap_without, World.execs_without, hfun]
        exact hs.balanced.without (World.nodup_doomed hs.linked ha)
          (World.self_mem_doomed hs.named hs.linked ha) honly hown
          (fun c => by rw [Heap.isRoot_without, World.isRoot_unlink])
          (fun _ _ => registers_unlink) (hs.rootNodes_unlink ha)
      strand_lt := fun d s hd => by
        rw [World.heap_without, hown] at hd
        split at hd
        · exact absurd hd (by simp)
        · exact sameStrands_unlink.nextStrand.symm ▸ hs.strand_lt d s hd }

end Sound

end SimplyNode
