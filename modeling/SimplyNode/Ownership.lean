import SimplyNode.Lib.Transition
import SimplyNode.Registration

/-!
# The Ownership Structure inside One Executor

The tree operations that code inside one executor can call, as the steps of a transition
system, and when the nodes form a forest: every live node is a root listed once by its
owner, or stands once in the vector of its parent, and its chain of parents ends at a root.

`setParent` takes the node away from its former parent first. `addChild` does not, it only
takes a root out of the root list; and neither looks whether the new parent lies below the
node. `run_safe_iff_forest` says that these are the only ways to leave the forest: a run
meets `TreeOp.Safe` at every step iff every state it reaches is a forest.

## Main results

* `ownershipForest_of_grounded`: the invariant gives the forest.
* `TreeOp.inv_apply`: safe operations keep the invariant.
* `TreeOp.safe_of_forest`: an operation that leaves a forest behind was safe.
-/

open PointerForest Transition

namespace SimplyNode

/-- A root created inside an executor belongs to it. -/
theorem CallContext.newRootOwner_inside (t : ThreadId) (e : ExecutorId) :
    World.newRootOwner (inside t e) = e := by
  cases e <;> rfl

/-- The operations on the ownership structure. -/
inductive TreeOp
  | construct (a : Addr) (cls : NodeClass) (parent : Option Addr)
  | addChild (p c : Addr)
  | setParent (a : Addr) (parent : Option Addr)
  | delete (a : Addr)
  deriving DecidableEq

namespace TreeOp

/-- The call. -/
def apply (ctx : CallContext) (w : World) : TreeOp → Outcome World
  | construct a cls parent => w.construct ctx a cls parent
  | addChild p c => w.addChild p c
  | setParent a parent => w.setParent a parent
  | delete a => w.delete a

/-- What a caller has to see to: only roots are added with `addChild`, and no node gets a
parent out of its own subtree. -/
def Safe (w : World) : TreeOp → Prop
  | addChild p c => w.heap.isRoot c = true ∧ ¬ Above w.heap.parentOf p c
  | setParent a (some p) => ¬ Above w.heap.parentOf p a
  | _ => True

end TreeOp

/-- Following `m_parent` ends at a root. -/
def Heap.Rooted (h : Heap) (a : Addr) : Prop :=
  ∃ r, Above h.parentOf a r ∧ h.isRoot r = true ∧ h.parentOf r = none

/-- **The ownership structure is a forest.** -/
structure OwnershipForest (w : World) : Prop where
  /-- A live node is a root that stands once in its owner's root list and in no vector of
  children, or stands once in the vector of its parent and in no other. -/
  listed : ∀ a, w.heap.Live a →
    (w.heap.isRoot a = true ∧
      (∃ e, w.heap.ownerOf a = some e ∧ (w.execs.rootNodes e).count a = 1) ∧
      ∀ p, a ∉ w.heap.childrenOf p) ∨
    (w.heap.isRoot a = false ∧
      ∃ p, w.heap.parentOf a = some p ∧ (w.heap.childrenOf p).count a = 1 ∧
        ∀ q, a ∈ w.heap.childrenOf q → q = p)
  /-- There are no cycles of parents. -/
  rooted : ∀ a, w.heap.Live a → w.heap.Rooted a

/-- There are no nodes, and the executors have none on their books. -/
structure World.NoNodes (w : World) : Prop where
  mem : ∀ a, w.heap.mem a = none
  registry : ∀ a, w.heap.registry a = none
  aliveNodes : ∀ a, w.heap.aliveNodes a = none
  nodes : ∀ t, (w.execs.loops t).nodes = []
  nodeCount : ∀ s, (w.execs.strands s).nodeCount = 0
  rootNodes : ∀ e, w.execs.rootNodes e = []

/-- A new application has no nodes. -/
theorem World.noNodes_initial (main : ThreadId) (workers : ℕ) :
    (World.initial main workers).NoNodes where
  mem _ := rfl
  registry _ := rfl
  aliveNodes _ := rfl
  nodes _ := rfl
  nodeCount _ := rfl
  rootNodes e := by cases e <;> rfl

/-- Without nodes there is nothing to be wrong. -/
theorem World.NoNodes.sound {w : World} (h : w.NoNodes) : Sound w := by
  have hlive : ∀ a, ¬ w.heap.Live a := fun a ha => by
    rw [Heap.Live, h.mem a] at ha
    exact absurd ha (by simp)
  have hgen : ∀ a, w.heap.generationOf a = none := fun a => by
    rw [Heap.generationOf, h.mem a]
    rfl
  have hpar : ∀ a, w.heap.parentOf a = none := fun a => by
    rw [Heap.parentOf, h.mem a]
    rfl
  have hown : ∀ a, w.heap.ownerOf a = none := fun a => by
    rw [Heap.ownerOf, h.mem a]
    rfl
  have hkids : ∀ a, w.heap.childrenOf a = [] := fun a => by
    rw [Heap.childrenOf, h.mem a]
  exact
    { named :=
        { gen_lt := fun a g hg => absurd hg (by simp [hgen])
          gen_inj := fun a b g hg => absurd hg (by simp [hgen])
          registry := fun a => by rw [h.registry, hgen]
          aliveNodes := fun a => by simp [h.aliveNodes, hlive]
          alive := fun a g hg => absurd hg (by simp [hgen])
          owned := fun a ha => absurd ha (hlive a) }
      linked :=
        { mem_childrenOf := fun p c => by simp [hkids, hpar]
          nodup := fun p => by simp [hkids]
          isRoot_iff := fun a ha => absurd ha (hlive a) }
      affine := fun c p hc => absurd hc (by simp [hpar])
      balanced :=
        { nodes := fun e => ⟨[], List.nodup_nil, fun a => by simp [hown], by
            cases e with
            | loop t => exact h.nodes t
            | strand s => exact h.nodeCount s⟩
          nodup := fun e => by simp [h.rootNodes]
          roots := fun e a => by simp [h.rootNodes, hown] }
      strand_lt := fun a s ha => absurd ha (by simp [hown]) }

/-! ### The invariant -/

namespace TreeOp

variable {e : ExecutorId} {t : ThreadId} {w w' : World} {op : TreeOp}

/-- Everything belongs to the executor, the state is sound, and chains of parents end. -/
structure Inv (e : ExecutorId) (w : World) : Prop where
  sound : Sound w
  owned : ∀ a, w.heap.Live a → w.heap.ownerOf a = some e
  grounded : ∀ a, Grounded w.heap.parentOf a
  strand_lt : ∀ s, e = .strand s → s < w.execs.nextStrand

theorem inv_of_noNodes (h : w.NoNodes) (he : ∀ s, e = .strand s → s < w.execs.nextStrand) :
    Inv e w where
  sound := h.sound
  owned a ha := by
    rw [Heap.Live, h.mem a] at ha
    exact absurd ha (by simp)
  grounded a := .top (by rw [Heap.parentOf, h.mem a]; rfl)
  strand_lt := he

/-- Inside a strand, the strand exists. -/
theorem Inv.strand_of_inside (hi : Inv e w) (t : ThreadId) (s : StrandId)
    (h : (CallContext.inside t e).strand = some s) : s < w.execs.nextStrand := by
  cases e with
  | loop t' => exact absurd h (by simp [CallContext.inside, CallContext.onLoop])
  | strand s' =>
      obtain rfl := Option.some.inj h
      exact hi.strand_lt s' rfl

/-- No tree operation creates, takes or frees a strand. -/
theorem sameStrands_apply (hs : Sound w) {ctx : CallContext} (h : op.apply ctx w = .ok w') :
    Executors.SameStrands w.execs w'.execs := by
  cases op with
  | construct a cls parent =>
      have ha := (World.construct_ok h).1
      cases parent with
      | none =>
          have hctx := World.strand_of_construct h
          obtain rfl := Except.ok.inj ((World.construct_root ha hctx).symm.trans h)
          exact Sound.sameStrands_newRootExecs
      | some p =>
          obtain ⟨hp, hctx⟩ := World.live_of_construct h
          obtain rfl := Except.ok.inj
            ((World.construct_child hs.named ha hp hctx).symm.trans h)
          exact Executors.sameStrands_addNodeTo
  | addChild p c =>
      obtain ⟨hp, hc⟩ := World.live_of_addChild h
      obtain rfl := Except.ok.inj ((World.addChild_eq hp hc).symm.trans h)
      simp only [World.execs_withExecs]
      split
      · exact Executors.sameStrands_removeRootFrom ..
      · exact .refl _
  | setParent a parent =>
      obtain ⟨ha, hp⟩ := World.live_of_setParent h
      cases parent with
      | none =>
          obtain rfl := Except.ok.inj ((World.setParent_none hs.linked ha).symm.trans h)
          exact Sound.sameStrands_leave.trans Executors.sameStrands_addRootTo
      | some p =>
          obtain rfl := Except.ok.inj
            ((World.setParent_some hs.linked ha (hp p rfl)).symm.trans h)
          exact Sound.sameStrands_leave
  | delete a =>
      have ha := World.live_of_delete h
      obtain rfl := Except.ok.inj
        ((World.delete_eq_of_linked hs.named hs.linked ha).symm.trans h)
      exact Sound.sameStrands_unlink.trans Executors.sameStrands_without

/-- The chains of parents after a node has been attached. -/
theorem grounded_attached {h h' : Heap} {a : Addr} {v : Option Addr}
    (hat : Heap.Attached h h' a v) (hg : ∀ x, Grounded h.parentOf x)
    (hv : ∀ p, v = some p → ¬ Above h.parentOf p a) (x : Addr) : Grounded h'.parentOf x := by
  rw [hat.parentOf_eq_update]
  cases v with
  | none => exact (hg x).detach
  | some p => exact Grounded.reparent hg (hv p rfl) x

/-- The same nodes, with one of them in another place. -/
theorem Inv.relinked {a : Addr} {v : Option Addr} (hi : Inv e w) (hs : Sound w')
    (hsn : Heap.SameNodes w.heap w'.heap) (hat : Heap.Attached w.heap w'.heap a v)
    (hv : ∀ p, v = some p → ¬ Above w.heap.parentOf p a)
    (hstrand : ∀ s, e = .strand s → s < w'.execs.nextStrand) : Inv e w' where
  sound := hs
  owned x hx := by
    rw [hsn.ownerOf]
    exact hi.owned x ((hsn.live x).mp hx)
  grounded := grounded_attached hat hi.grounded hv
  strand_lt := hstrand

/-- Nothing is above a node that is not there. -/
theorem not_above_of_not_live {h : Heap} (hl : h.Linked) {a p : Addr} (ha : h.mem a = none)
    (hp : h.Live p) : ¬ Above h.parentOf p a := by
  have hnot : ¬ h.Live a := fun hlive => by
    rw [Heap.Live, ha] at hlive
    exact absurd hlive (by simp)
  intro hab
  rcases Relation.ReflTransGen.cases_tail hab with rfl | ⟨q, -, hq⟩
  · exact hnot hp
  · exact hnot (hl.live_parent hq)

/-- A node without a parent is constructed. -/
theorem Inv.construct_root {a : Addr} {cls : NodeClass} (hi : Inv e w) (ha : w.heap.mem a = none)
    (h : w.construct (.inside t e) a cls none = .ok w')
    (hstrand : ∀ s, e = .strand s → s < w'.execs.nextStrand) : Inv e w' := by
  obtain ⟨u, hu, hsound, hat, hown⟩ := hi.sound.construct_root cls ha
    (World.strand_of_construct h) (hi.strand_of_inside t)
  obtain rfl := Except.ok.inj (hu.symm.trans h)
  exact
    { sound := hsound
      owned := fun x hx => by
        rw [hown, CallContext.newRootOwner_inside]
        split
        · rfl
        · exact hi.owned x (((hat.live x).mp hx).resolve_left ‹_›)
      grounded := grounded_attached hat hi.grounded fun q hq => absurd hq (by simp)
      strand_lt := hstrand }

/-- A child of a live node is constructed. -/
theorem Inv.construct_child {a p : Addr} {cls : NodeClass} (hi : Inv e w)
    (ha : w.heap.mem a = none) (h : w.construct (.inside t e) a cls (some p) = .ok w')
    (hstrand : ∀ s, e = .strand s → s < w'.execs.nextStrand) : Inv e w' := by
  obtain ⟨hp, hctx⟩ := World.live_of_construct h
  obtain ⟨u, hu, hsound, hat, hown⟩ := hi.sound.construct_child cls ha hp hctx
  obtain rfl := Except.ok.inj (hu.symm.trans h)
  exact
    { sound := hsound
      owned := fun x hx => by
        rw [hown]
        split
        · exact hi.owned p hp
        · exact hi.owned x (((hat.live x).mp hx).resolve_left ‹_›)
      grounded := grounded_attached hat hi.grounded fun q hq => by
        obtain rfl := Option.some.inj hq
        exact not_above_of_not_live hi.sound.linked ha hp
      strand_lt := hstrand }

/-- A node is deleted. -/
theorem Inv.delete {a : Addr} (hi : Inv e w) (h : w.delete a = .ok w')
    (hstrand : ∀ s, e = .strand s → s < w'.execs.nextStrand) : Inv e w' := by
  obtain ⟨u, hu, hsound, rfl⟩ := hi.sound.delete (World.live_of_delete h)
  obtain rfl := Except.ok.inj (hu.symm.trans h)
  exact
    { sound := hsound
      owned := fun x hx => by
        rw [World.heap_without, Heap.live_without, (w.sameNodes_unlink a).live] at hx
        rw [World.heap_without, Heap.ownerOf_without_of_notMem hx.1,
          (w.sameNodes_unlink a).ownerOf]
        exact hi.owned x hx.2
      grounded := fun x => by
        refine (hi.grounded x).restrict fun y => ?_
        rw [World.heap_without, Heap.parentOf_without, World.parentOf_unlink]
        split
        · exact Or.inl rfl
        · exact Or.inr rfl
      strand_lt := hstrand }

/-- **The step lemma.** Safe operations keep the invariant. -/
theorem inv_apply (hi : Inv e w) (hsafe : op.Safe w)
    (h : op.apply (.inside t e) w = .ok w') : Inv e w' := by
  have hnext := (sameStrands_apply hi.sound h).nextStrand
  have hkeep : ∀ s, e = .strand s → s < w'.execs.nextStrand := fun s hs =>
    hnext ▸ hi.strand_lt s hs
  cases op with
  | construct a cls parent =>
      have ha := (World.construct_ok h).1
      cases parent with
      | none => exact hi.construct_root ha h hkeep
      | some p => exact hi.construct_child ha h hkeep
  | addChild p c =>
      obtain ⟨hp, hc⟩ := World.live_of_addChild h
      obtain ⟨hroot, hnot⟩ := hsafe
      obtain ⟨u, hu, hsound, hsn, hat⟩ := hi.sound.addChild_root hp hroot
        ((hi.owned c hc).trans (hi.owned p hp).symm)
      obtain rfl := Except.ok.inj (hu.symm.trans h)
      refine hi.relinked hsound hsn hat (fun q hq => ?_) hkeep
      obtain rfl := Option.some.inj hq
      exact hnot
  | setParent a parent =>
      obtain ⟨ha, hp⟩ := World.live_of_setParent h
      cases parent with
      | none =>
          obtain ⟨u, hu, hsound, hsn, hat⟩ := hi.sound.setParent_none ha
          obtain rfl := Except.ok.inj (hu.symm.trans h)
          exact hi.relinked hsound hsn hat (fun q hq => absurd hq (by simp)) hkeep
      | some p =>
          have hp := hp p rfl
          obtain ⟨u, hu, hsound, hsn, hat⟩ := hi.sound.setParent_some ha hp
            ((hi.owned a ha).trans (hi.owned p hp).symm)
          obtain rfl := Except.ok.inj (hu.symm.trans h)
          refine hi.relinked hsound hsn hat (fun q hq => ?_) hkeep
          obtain rfl := Option.some.inj hq
          exact hsafe
  | delete a => exact hi.delete h hkeep

/-- Everything above a live node is live. -/
theorem live_above {h : Heap} (hl : h.Linked) {a r : Addr} (ha : h.Live a)
    (hr : Above h.parentOf a r) : h.Live r := by
  cases hr with
  | refl => exact ha
  | tail _ hp => exact hl.live_parent hp

/-- **The invariant gives the forest.** -/
theorem ownershipForest_of_inv (hi : Inv e w) : OwnershipForest w where
  listed a ha := by
    have hl := hi.sound.linked
    have hb := hi.sound.balanced
    cases hr : w.heap.isRoot a with
    | true =>
        have hnone : w.heap.parentOf a = none := (hl.isRoot_iff a ha).mp hr
        have hmem : a ∈ w.execs.rootNodes e := (hb.roots e a).mpr ⟨hr, hi.owned a ha⟩
        refine Or.inl ⟨rfl, ⟨e, hi.owned a ha, ?_⟩, fun p hp => ?_⟩
        · exact List.count_eq_one_of_mem (hb.nodup e) hmem
        · rw [hl.mem_childrenOf, hnone] at hp
          exact absurd hp (by simp)
    | false =>
        have hsome : w.heap.parentOf a ≠ none := fun hnone => by
          rw [(hl.isRoot_iff a ha).mpr hnone] at hr
          exact absurd hr (by simp)
        obtain ⟨p, hp⟩ := Option.ne_none_iff_exists'.mp hsome
        have hmem : a ∈ w.heap.childrenOf p := (hl.mem_childrenOf p a).mpr hp
        refine Or.inr ⟨rfl, p, hp, ?_, fun q hq => ?_⟩
        · exact List.count_eq_one_of_mem (hl.nodup p) hmem
        · exact hl.one_owner q p a hq hmem
  rooted a ha := by
    obtain ⟨r, hr, hnone⟩ := (hi.grounded a).exists_top
    have hlive : w.heap.Live r := live_above hi.sound.linked ha hr
    exact ⟨r, hr, (hi.sound.linked.isRoot_iff r hlive).mpr hnone, hnone⟩

/-! ### Only safe operations keep the forest -/

/-- A node attached below itself is not rooted any more. -/
theorem not_above_of_rooted {h h' : Heap} {a p : Addr}
    (hat : Heap.Attached h h' a (some p)) (hr : h'.Rooted a) : ¬ Above h.parentOf p a := by
  intro hab
  obtain ⟨r, har, -, hnone⟩ := hr
  rw [hat.parentOf_eq_update] at har hnone
  exact hab.endless har hnone

/-- **The converse of the step lemma.** -/
theorem safe_of_forest (hi : Inv e w) (h : op.apply (.inside t e) w = .ok w')
    (hf : OwnershipForest w') : op.Safe w := by
  have hl := hi.sound.linked
  cases op with
  | construct a cls parent => trivial
  | delete a => trivial
  | addChild p c =>
      obtain ⟨hp, hc⟩ := World.live_of_addChild h
      cases hr : w.heap.isRoot c with
      | true =>
          obtain ⟨u, hu, -, -, hat⟩ := hi.sound.addChild_root hp hr
            ((hi.owned c hc).trans (hi.owned p hp).symm)
          obtain rfl := Except.ok.inj (hu.symm.trans h)
          exact ⟨hr, not_above_of_rooted hat (hf.rooted c ((hat.live c).mpr (Or.inl rfl)))⟩
      | false =>
          -- the former parent still lists the child
          obtain rfl := Except.ok.inj ((World.addChild_eq hp hc).symm.trans h)
          have hsome : w.heap.parentOf c ≠ none := fun hnone => by
            rw [(hl.isRoot_iff c hc).mpr hnone] at hr
            exact absurd hr (by simp)
          obtain ⟨q, hq⟩ := Option.ne_none_iff_exists'.mp hsome
          have hcq : c ∈ w.heap.childrenOf q := (hl.mem_childrenOf q c).mpr hq
          have hlive : (w.heap.adopt p c).Live c := (Heap.sameNodes_adopt.live c).mpr hc
          have hroot : (w.heap.adopt p c).isRoot c = false := by
            rw [Heap.isRoot_adopt, if_pos rfl]
          rcases hf.listed c hlive with ⟨htrue, -⟩ | ⟨-, p', -, hcount, huniq⟩
          · exact absurd (hroot.symm.trans htrue) (by simp)
          · simp only [World.heap_withExecs, World.heap_withHeap,
              Heap.childrenOf_adopt hp] at hcount huniq
            obtain rfl : p = p' := huniq p (by simp)
            obtain rfl : q = p := huniq q (List.mem_append_left _ hcq)
            have hpos : 0 < (w.heap.childrenOf q).count c := List.count_pos_iff.mpr hcq
            simp only [if_pos, List.count_append, List.count_singleton_self] at hcount
            omega
  | setParent a parent =>
      obtain ⟨ha, hp⟩ := World.live_of_setParent h
      cases parent with
      | none => trivial
      | some p =>
          obtain ⟨u, hu, -, -, hat⟩ := hi.sound.setParent_some ha (hp p rfl)
            ((hi.owned a ha).trans (hi.owned p (hp p rfl)).symm)
          obtain rfl := Except.ok.inj (hu.symm.trans h)
          exact not_above_of_rooted hat (hf.rooted a ((hat.live a).mpr (Or.inl rfl)))

end TreeOp

/-- The steps of code inside the executor `e`. -/
def TreeStep (t : ThreadId) (e : ExecutorId) : World → TreeOp → World → Prop :=
  ofFun (TreeOp.apply (.inside t e))

/-- **The ownership structure is a forest exactly as long as the callers see to it.** A run
of tree operations inside an executor, from a state without nodes, meets the condition of
`TreeOp.Safe` at every step iff every step leaves a forest behind. -/
theorem run_safe_iff_forest {t : ThreadId} {e : ExecutorId} {w₀ w : World} {ops : List TreeOp}
    (h₀ : w₀.NoNodes) (he : ∀ s, e = .strand s → s < w₀.execs.nextStrand) :
    Run (TreeStep t e) (fun v op => op.Safe v) w₀ ops w ↔
      Run (TreeStep t e) (fun v op => ∀ v', TreeStep t e v op v' → OwnershipForest v')
        w₀ ops w := by
  have hinv := TreeOp.inv_of_noNodes h₀ he
  constructor
  · refine fun hrun => hrun.strengthen (I := TreeOp.Inv e) (fun v op v' hi hok hst => ?_) hinv
    exact ⟨TreeOp.inv_apply hi hok hst, fun u hu =>
      TreeOp.ownershipForest_of_inv (TreeOp.inv_apply hi hok hu)⟩
  · refine fun hrun => hrun.strengthen (I := TreeOp.Inv e) (fun v op v' hi hok hst => ?_) hinv
    have hsafe : op.Safe v := TreeOp.safe_of_forest hi hst (hok v' hst)
    exact ⟨TreeOp.inv_apply hi hsafe hst, hsafe⟩

/-- Only a node itself is above a node without a parent. -/
theorem not_above_of_parentOf_eq_none {h : Heap} {a p : Addr} (hp : h.parentOf p = none)
    (hne : p ≠ a) : ¬ Above h.parentOf p a := by
  intro hab
  rcases Relation.ReflTransGen.cases_head hab with rfl | ⟨q, hq, -⟩
  · exact hne rfl
  · rw [hp] at hq
    exact absurd hq (by simp)

/-- `setParent` moves a child from one root to another. -/
theorem reparent_run_forest : ∃ w, Run (TreeStep 0 (.loop 0))
    (fun v op => ∀ v', TreeStep 0 (.loop 0) v op v' → OwnershipForest v') (World.initial 0 0)
    [.construct 1 .plain none, .construct 2 .plain none, .construct 3 .plain (some 1),
      .setParent 3 (some 2)] w :=
  ⟨_, (run_safe_iff_forest (World.noNodes_initial 0 0) (fun s hs => absurd hs (by simp))).mp
    (.cons trivial rfl (.cons trivial rfl (.cons trivial rfl
      (.cons (not_above_of_parentOf_eq_none rfl (by decide)) rfl (.nil _)))))⟩

/-- A child that `addChild` takes over from another parent. -/
def takeoverOps : List TreeOp :=
  [.construct 1 .plain none, .construct 2 .plain none, .construct 3 .plain (some 1),
    .addChild 2 3]

/-- **`addChild` does not take a node away from its parent**: the run of `takeoverOps` ends
with a node in the vectors of two parents. -/
theorem takeover_not_forest : ∃ w, Reaches (TreeStep 0 (.loop 0)) (World.initial 0 0)
    takeoverOps w ∧ ¬ OwnershipForest w := by
  obtain ⟨w, hrun, hw⟩ := exists_reaches_of_map takeoverOps
    (f := TreeOp.apply (.inside 0 (.loop 0))) (s := World.initial 0 0)
    (g := fun w => (w.heap.childrenOf 1, w.heap.childrenOf 2, w.heap.isRoot 3,
      decide (w.heap.Live 3)))
    (b := ([3], [3], false, true)) rfl
  simp only [Prod.mk.injEq, decide_eq_true_eq] at hw
  obtain ⟨h₁, h₂, hroot, hlive⟩ := hw
  refine ⟨w, hrun, fun hf => ?_⟩
  rcases hf.listed 3 hlive with ⟨htrue, -⟩ | ⟨-, p, -, -, huniq⟩
  · exact absurd (hroot.symm.trans htrue) (by simp)
  · have hp₁ : 1 = p := huniq 1 (by simp [h₁])
    have hp₂ : 2 = p := huniq 2 (by simp [h₂])
    exact absurd (hp₁.trans hp₂.symm) (by decide)

end SimplyNode
