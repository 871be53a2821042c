import SimplyNode.Aging
import SimplyNode.TickFrontier

/-!
# Calls during a Tick

What the calls of an `update()` do to the tick that is going on: a call that sees to what
`Tick.Respects` says leaves the tick steady.

## Main results

* `World.grafts_construct`, `World.grafts_addChild`, `World.grafts_setParent`: the three operations
  that put a node under a parent.
* `Steady.call`: the calls of user code.
-/

open Frontier PointerForest

namespace SimplyNode

/-! ### The operations that put a node under a parent -/

namespace World

variable {w w' : World} {ctx : CallContext} {a c p : Addr} {cls : NodeClass} {v : Option Addr}

/-- A forest in which a node goes under another parent, outside its own subtree. -/
theorem forested_attached (hf : Forested w) (hc : Consistent w')
    (hat : Heap.Attached w.heap w'.heap a v)
    (hv : ∀ p, v = some p → ¬ Above w.heap.parentOf p a) : Forested w' :=
  ⟨hc, TreeOp.grounded_attached hat hf.grounded hv⟩

/-- The node was there before. -/
theorem grafts_of_sameNodes (hf' : Forested w') (hs : Heap.SameNodes w.heap w'.heap)
    (hat : Heap.Attached w.heap w'.heap a v)
    (hv : ∀ p, v = some p → ¬ Above w.heap.parentOf p a)
    (hq : ∀ x, w'.heap.queueOf x = w.heap.queueOf x) : w.Grafts w' a v where
  forested := hf'
  next_le := Nat.le_of_eq hs.nextGeneration.symm
  attached := hat
  not_above := hv
  owner x _ := hs.ownerOf x
  generation x g hx _ := by rwa [hs.generationOf] at hx
  queue x := by
    rw [hq]
    exact List.Subset.refl _

/-- `Node::addChild`, for a root that is not above its new parent. -/
theorem grafts_addChild (hf : Forested w) (hroot : w.heap.isRoot c = true)
    (hnot : ¬ Above w.heap.parentOf p c) (hown : w.heap.ownerOf c = w.heap.ownerOf p)
    (h : w.addChild p c = .ok w') : w.Grafts w' c (some p) := by
  obtain ⟨hp, hc⟩ := live_of_addChild h
  obtain ⟨u, hu, hsound, hsn, hat⟩ := hf.consistent.sound.addChild_root hp hroot hown
  obtain rfl := Except.ok.inj (hu.symm.trans h)
  have hv : ∀ q, some p = some q → ¬ Above w.heap.parentOf q c := by
    intro q hq
    exact Option.some.inj hq ▸ hnot
  have hcons := hf.consistent.apply (.onLoop 0) (.addChild p c) h hsound
  refine grafts_of_sameNodes (forested_attached hf hcons hat hv) hsn hat hv fun x => ?_
  obtain rfl := Except.ok.inj ((addChild_eq hp hc).symm.trans h)
  exact Heap.queueOf_adopt

/-- `Node::setParent`, for a node that is not above its new parent. -/
theorem grafts_setParent (hf : Forested w)
    (hv : ∀ p, v = some p → ¬ Above w.heap.parentOf p a ∧
      w.heap.ownerOf a = w.heap.ownerOf p)
    (h : w.setParent a v = .ok w') : w.Grafts w' a v := by
  obtain ⟨ha, hp⟩ := live_of_setParent h
  have hnot : ∀ p, v = some p → ¬ Above w.heap.parentOf p a := fun p hvp => (hv p hvp).1
  cases v with
  | none =>
      obtain ⟨u, hu, hsound, hsn, hat⟩ := hf.consistent.sound.setParent_none ha
      obtain rfl := Except.ok.inj (hu.symm.trans h)
      have hcons := hf.consistent.apply (.onLoop 0) (.setParent a none) h hsound
      refine grafts_of_sameNodes (forested_attached hf hcons hat hnot) hsn hat hnot fun x => ?_
      obtain rfl := Except.ok.inj ((setParent_none hf.linked ha).symm.trans h)
      exact Heap.queueOf_enroot.trans Heap.queueOf_leave
  | some p =>
      have hpl := hp p rfl
      obtain ⟨u, hu, hsound, hsn, hat⟩ :=
        hf.consistent.sound.setParent_some ha hpl (hv p rfl).2
      obtain rfl := Except.ok.inj (hu.symm.trans h)
      have hcons := hf.consistent.apply (.onLoop 0) (.setParent a (some p)) h hsound
      refine grafts_of_sameNodes (forested_attached hf hcons hat hnot) hsn hat hnot fun x => ?_
      obtain rfl := Except.ok.inj ((setParent_some hf.linked ha hpl).symm.trans h)
      exact Heap.queueOf_adopt.trans Heap.queueOf_leave

/-- `Node::Node`. -/
theorem grafts_construct (hf : Forested w)
    (hctx : ∀ s, ctx.strand = some s → s < w.execs.nextStrand)
    (h : w.construct ctx a cls v = .ok w') : w.Grafts w' a v := by
  have ha := (construct_ok h).1
  have hnext := (ages_construct h).next_le
  have hne : ∀ x, w.heap.Live x → x ≠ a := by
    rintro x hx rfl
    rw [Heap.Live, ha] at hx
    exact absurd hx (by simp)
  have hborn : ∀ o : Option ExecutorId,
      (∀ x g, ((w.heap.born a cls v o).listChild v a).generationOf x = some g →
        g < w.heap.nextGeneration → w.heap.generationOf x = some g) ∧
      ∀ x, ((w.heap.born a cls v o).listChild v a).queueOf x ⊆ w.heap.queueOf x := by
    intro o
    refine ⟨fun x g hx hlt => ?_, fun x => ?_⟩
    · rw [Heap.sameNodes_listChild.generationOf, Heap.generationOf_born] at hx
      split at hx
      · obtain rfl := Option.some.inj hx
        exact absurd hlt (Nat.lt_irrefl _)
      · exact hx
    · rw [Heap.queueOf_born]
      split
      · exact List.nil_subset _
      · exact List.Subset.refl _
  cases v with
  | none =>
      have hroot := strand_of_construct h
      obtain ⟨u, hu, hsound, hat, hown⟩ :=
        hf.consistent.sound.construct_root cls ha hroot hctx
      obtain rfl := Except.ok.inj (hu.symm.trans h)
      have hv : ∀ p, none = some p → ¬ Above w.heap.parentOf p a := fun p hp =>
        absurd hp (by simp)
      have hcons := hf.consistent.apply ctx (.construct a cls none) h hsound
      have hf' := forested_attached hf hcons hat hv
      obtain rfl := Except.ok.inj ((construct_root ha hroot).symm.trans h)
      exact
        { forested := hf'
          next_le := hnext
          attached := hat
          not_above := hv
          owner := fun x hx => by rw [hown, if_neg (hne x hx)]
          generation := (hborn _).1
          queue := (hborn _).2 }
  | some p =>
      obtain ⟨hp, hcur⟩ := live_of_construct h
      obtain ⟨u, hu, hsound, hat, hown⟩ :=
        hf.consistent.sound.construct_child cls ha hp hcur
      obtain rfl := Except.ok.inj (hu.symm.trans h)
      have hv : ∀ q, some p = some q → ¬ Above w.heap.parentOf q a := by
        intro q hq
        obtain rfl := Option.some.inj hq
        exact TreeOp.not_above_of_not_live hf.linked ha hp
      have hcons := hf.consistent.apply ctx (.construct a cls (some p)) h hsound
      have hf' := forested_attached hf hcons hat hv
      obtain rfl := Except.ok.inj ((construct_child hf.named ha hp hcur).symm.trans h)
      exact
        { forested := hf'
          next_le := hnext
          attached := hat
          not_above := hv
          owner := fun x hx => by rw [hown, if_neg (hne x hx)]
          generation := (hborn _).1
          queue := (hborn _).2 }

/-! ### Calls on timers -/

/-- A call on a timer leaves the tree alone, and the queues. -/
theorem sameTree_timerCall {call : TimerCall} (h : w.timerCall ctx a call = .ok w') :
    Heap.SameTree w.heap w'.heap ∧ ∀ x, w'.heap.queueOf x = w.heap.queueOf x := by
  have hset : ∀ s, Heap.SameTree w.heap (w.setTimer a s).heap ∧
      ∀ x, (w.setTimer a s).heap.queueOf x = w.heap.queueOf x := fun s =>
    ⟨.setTimer w a s, fun x => Heap.queueOf_modifyNode _ x fun _ => rfl⟩
  have happly : ∀ o s, Heap.SameTree w.heap (w.applyTimerCall o a s call).heap ∧
      ∀ x, (w.applyTimerCall o a s call).heap.queueOf x = w.heap.queueOf x := by
    intro o s
    cases call with
    | start => exact hset _
    | startWith i => exact hset _
    | stop => exact hset _
    | setInterval i =>
        simp only [applyTimerCall]
        split <;> exact hset _
    | setSingleShot b => exact hset _
  obtain ⟨n, -, h⟩ := Outcome.bind_eq_ok.mp h
  split at h
  · dsimp only at h
    split at h
    · split at h
      · obtain rfl := Except.ok.inj h
        exact happly _ _
      · obtain rfl := Except.ok.inj h
        exact ⟨.refl _, fun _ => rfl⟩
    · obtain rfl := Except.ok.inj h
      exact happly _ _
  · obtain rfl := Except.ok.inj h
    exact ⟨.refl _, fun _ => rfl⟩

end World

/-! ### The calls of an `update()` -/

namespace Steady

variable {t : ThreadId} {w₀ w w' : World} {u : List Generation} {s : Tick} {a : Addr}
  {v : Option Addr}

/-- A node goes under a parent where it may go. -/
theorem graft (hs : s.OnCourse t w₀)
    (hg : s.world.Grafts w' a v) (hmay : s.MayGraft t w₀ a v)
    (hqueues : ∀ x, s.Ahead x → a ∉ s.world.heap.queueOf x)
    (hkeep : ∀ f ∈ s.stack, f.Undisturbed s.world.heap w'.heap) :
    Steady t w₀ w' s.stack s.frontier s.updated := by
  rcases hmay with hstay | hfree
  · exact hs.grafted hg hstay hqueues hkeep
  · refine hs.grafted_free hg (fun x hx => ?_) hqueues hkeep
    have hun := hfree x hx
    exact ⟨hun.notMem_frontier, hun.not_entered, hun.not_fromStart, hun.queueOwn⟩

/-- A root is in no queue of a node that is ahead. -/
theorem root_notMem_queue (hs : s.OnCourse t w₀)
    (ha : s.world.heap.parentOf a = none) : ∀ x, s.Ahead x → a ∉ s.world.heap.queueOf x := by
  intro x hx hmem
  rw [hs.queues x hx a hmem] at ha
  exact absurd ha (by simp)

/-- A new node is one that the tick has nothing to do with. -/
theorem mayGraft_construct (hs : s.OnCourse t w₀)
    (ha : s.world.heap.mem a = none) : s.MayGraft t w₀ a v := by
  refine Or.inr fun x hx => ?_
  have hdead : ¬ s.world.heap.Live a := by
    rw [Heap.Live, ha]
    exact Bool.false_ne_true
  obtain rfl : x = a := by
    rcases Relation.ReflTransGen.cases_tail hx with h | ⟨q, -, hq⟩
    · exact h.symm
    · exact absurd (hs.forested.linked.live_parent hq) hdead
  refine ⟨fun hmem => ?_, ?_, ?_, ?_⟩
  · exact hdead (Heap.live_of_ownerOf (hs.owned x hmem))
  · rintro ⟨f, hf, rfl⟩
    exact hdead (hs.entered f hf).1
  · rintro ⟨g, -, -, hg⟩
    exact hdead (Heap.live_iff_generationOf.mpr ⟨g, hg⟩)
  · intro c hc
    rw [Heap.queueOf, ha] at hc
    exact absurd hc List.not_mem_nil

/-- The objects stay as they are. -/
theorem stays (hs : Steady t w₀ w s.stack s.frontier u) (hst : w.Stays w')
    (hc : Consistent w') : Steady t w₀ w' s.stack s.frontier u := by
  have hheap : w'.heap = w.heap := hst.heap
  have hsame : Heap.SameTree w.heap w'.heap := hheap ▸ .refl _
  refine hs.sameTree hsame ⟨hc, fun x => ?_⟩ fun x hx => ?_
  · rw [hheap]
    exact hs.forested.grounded x
  · rw [World.QueueOwn, hheap]
    exact hx

/-- A call that sees to registrations and affinity. -/
theorem consistent_of_call {c : Call} (hf : Forested w) (hok : c.Allowed (.onLoop t) w)
    (h : c.apply (.onLoop t) w = .ok w') : Consistent w' := by
  have hop : (Op.call (.onLoop t) c).Allowed w := hok
  exact Op.consistent_of_apply hf.consistent hop h

/-- **A call that an `update()` makes** keeps the tick steady if it sees to what it has to. -/
theorem call (hs : s.OnCourse t w₀) {c : Call}
    (hc : s.Respects t w₀ c) (h : c.apply (.onLoop t) s.world = .ok w')
    (hkeep : ∀ f ∈ s.stack, f.Undisturbed s.world.heap w'.heap) :
    Steady t w₀ w' s.stack s.frontier s.updated := by
  have hf := hs.forested
  have hnext := (Call.ages h).next_le
  cases c with
  | tree op =>
      cases op with
      | construct b cls v =>
          have hb := (World.construct_ok h).1
          have hnone : s.world.heap.parentOf b = none := by simp [Heap.parentOf, hb]
          refine hs.graft (World.grafts_construct hf (fun k hk => ?_) h)
            (hs.mayGraft_construct hb) (hs.root_notMem_queue hnone) hkeep
          exact absurd hk (by simp [CallContext.onLoop])
      | addChild p b =>
          obtain ⟨hroot, hnot, hown, hmay⟩ := hc
          have hb := (World.live_of_addChild h).2
          exact hs.graft (World.grafts_addChild hf hroot hnot hown h) hmay
            (hs.root_notMem_queue ((hf.linked.isRoot_iff b hb).mp hroot)) hkeep
      | setParent b v =>
          obtain ⟨hv, hmay, hqueues⟩ := hc
          exact hs.graft (World.grafts_setParent hf hv h) hmay hqueues hkeep
      | delete b =>
          obtain ⟨x, hx, hf', hd⟩ := hf.delete (World.live_of_delete h)
          obtain rfl := Except.ok.inj (hx.symm.trans h)
          exact hs.deleted hd hf' hc hkeep
  | deleteLater b =>
      have hf' := World.forested_deleteLater hf h
      exact hs.sameTree (World.mem_deleteLater h).1 hf' fun x hx => hx.deleteLater h
  | moveToThread b target =>
      obtain ⟨r, hr, rfl⟩ := Outcome.map_eq_ok.mp h
      have hcons := consistent_of_call hf (c := .moveToThread b target) trivial h
      obtain ⟨hmoved, hstays⟩ := World.moveToThread_effect hf.consistent hr
      by_cases hmv : s.world.MovesToThread (.onLoop t) b target
      · obtain ⟨e, -, hm⟩ := hmoved hmv
        exact hs.moved hm hcons hnext (hc hmv)
      · exact hs.stays (hstays hmv) hcons
  | moveToTaskPool b p =>
      obtain ⟨r, hr, rfl⟩ := Outcome.map_eq_ok.mp h
      have hcons := consistent_of_call hf (c := .moveToTaskPool b p) trivial h
      obtain ⟨hmoved, hstays⟩ := World.moveToTaskPool_effect hf.consistent hr
      by_cases hmv : s.world.MovesToTaskPool (.onLoop t) b p
      · obtain ⟨e, -, hm⟩ := hmoved hmv
        exact hs.moved hm hcons hnext (hc hmv)
      · exact hs.stays (hstays hmv) hcons
  | timer b call =>
      have hcons := consistent_of_call hf (c := .timer b call) trivial h
      obtain ⟨hsame, hq⟩ := World.sameTree_timerCall h
      have hpar : w'.heap.parentOf = s.world.heap.parentOf := funext hsame.parentOf
      refine hs.sameTree hsame ⟨hcons, fun x => hpar ▸ hf.grounded x⟩ fun x hx => ?_
      rw [World.QueueOwn, hq, hpar]
      exact hx

end Steady

end SimplyNode
