import SimplyNode.Aging
import SimplyNode.Trees

/-!
# The Loop over the Marked Children

The first loop of `Node::run` walks `m_childrenToDelete` while the destructors it calls take
entries out of it. On a node whose queue holds children of its own it does exactly what
`SlotVector.sweep` does to the list of requests, and so `deleteMarked_iff_unskipped` says when
every marked child is deleted: the requests have to be `Unskipped`. That fails for any three
different children, where the second one survives.

## Main results

* `deleteMarkedFrom_spec`: the loop against the sweep.
* `requests_spec`: what the requests leave in the queue.
* `deleteMarked_iff_unskipped`: when all marked children are deleted.
-/

open PointerForest Transition

namespace SimplyNode

namespace World

variable {w w' : World} {a c p : Addr} {t : ThreadId}

/-! ### A request for a child -/

/-- **`deleteLater` on a child**, inside the event loop that owns it: the child is marked and
goes to the end of its parent's queue. -/
theorem deleteLater_child (hf : Forested w) (hp : w.heap.parentOf c = some p)
    (ho : w.heap.ownerOf c = some (.loop t)) :
    ∃ h, w.deleteLater (.onLoop t) c = .ok (w.withHeap h) ∧ Heap.SameTree w.heap h ∧
      h.mem p = (w.heap.mem p).map fun n =>
        { n with childrenToDelete := n.childrenToDelete.pushBack c } := by
  have hlive : w.heap.Live c := Heap.live_of_parentOf hp
  obtain ⟨n, hm⟩ := Option.isSome_iff_exists.mp hlive
  have hpar : n.parent = some p := by simpa [Heap.parentOf, hm] using hp
  have hexec : w.heap.ownerExecutor n = some (.loop t) := (Heap.ownerOf_of_mem hm).symm.trans ho
  obtain ⟨k, hk⟩ := Option.isSome_iff_exists.mp ((hf.named.aliveNodes c).mpr hlive)
  obtain ⟨m, hmp⟩ := Option.isSome_iff_exists.mp (hf.linked.live_parent hp)
  set marked := w.heap.modifyBlock n.generation fun b => { b with markedForDelete := true }
    with hmarked
  obtain ⟨h, hmark⟩ : ∃ h, marked.markToDelete c = .ok h := by
    have hk' : marked.aliveNodes c = some k := hk
    unfold Heap.markToDelete
    rw [hk']
    exact ⟨_, rfl⟩
  have hmem : h.mem = w.heap.mem := by
    unfold Heap.markToDelete at hmark
    split at hmark
    · obtain rfl := Except.ok.inj hmark
      rfl
    · exact absurd hmark (by simp)
  have hs : Heap.SameTree w.heap h :=
    (Heap.SameTree.mark w.heap n.generation).trans (.markToDelete hmark)
  have hchild : c ∈ m.children.live := by
    have hc := (hf.linked.mem_childrenOf p c).mpr hp
    rwa [Heap.childrenOf_of_mem hmp] at hc
  have hmp' : h.mem p = some m := by rw [hmem, hmp]
  have hpush : h.pushDeleteChild p c = .ok (h.modifyNode p fun n =>
      { n with childrenToDelete := n.childrenToDelete.pushBack c }) := by
    unfold Heap.pushDeleteChild
    rw [Heap.node_of_mem hmp']
    simp only [Outcome.ok_bind]
    rw [if_pos hchild]
    rfl
  refine ⟨h.modifyNode p fun n =>
    { n with childrenToDelete := n.childrenToDelete.pushBack c }, ?_, hs.trans ?_, ?_⟩
  · unfold deleteLater
    rw [Heap.node_of_mem hm]
    simp only [Outcome.ok_bind]
    rw [← hmarked, hmark, hexec, hpar]
    simp only [Outcome.ok_bind, CallContext.isCurrent, CallContext.onLoop, beq_self_eq_true,
      Bool.not_true, Bool.false_eq_true, if_false, heap_withHeap, hpush]
    rfl
  · obtain ⟨h', hpush', hs'⟩ := Heap.SameTree.pushDeleteChild (h := h) (c := c)
      (p := p) (by rw [Heap.Live, hmp']; rfl)
    obtain rfl := Except.ok.inj (hpush'.symm.trans hpush)
    exact hs'
  · rw [Heap.mem_modifyNode_self, hmem]

/-- **The requests for a list of children**, in order. -/
theorem requests_spec {cs : List Addr} (hf : Forested w) {n : Node}
    (hm : w.heap.mem p = some n)
    (hcs : ∀ c ∈ cs, w.heap.parentOf c = some p ∧ w.heap.ownerOf c = some (.loop t))
    (h : cs.foldlM (fun w c => w.deleteLater (.onLoop t) c) w = .ok w') :
    Forested w' ∧ Heap.SameTree w.heap w'.heap ∧ ∃ n', w'.heap.mem p = some n' ∧
      n'.childrenToDelete.live = n.childrenToDelete.live ++ cs := by
  induction cs generalizing w n with
  | nil =>
      obtain rfl := Except.ok.inj h
      exact ⟨hf, .refl _, n, hm, by simp⟩
  | cons c cs ih =>
      obtain ⟨u, hu, h⟩ := Outcome.bind_eq_ok.mp h
      obtain ⟨hpc, hoc⟩ := hcs c List.mem_cons_self
      obtain ⟨k, hk, hs, hmem⟩ := deleteLater_child hf hpc hoc
      obtain rfl := Except.ok.inj (hk.symm.trans hu)
      rw [hm] at hmem
      obtain ⟨hf', hs', n', hn', hlive⟩ := ih (hf.sameTree hs) hmem (fun d hd => by
        rw [heap_withHeap, hs.parentOf, hs.ownerOf]
        exact hcs d (List.mem_cons_of_mem _ hd)) h
      refine ⟨hf', hs.trans hs', n', hn', ?_⟩
      rw [hlive, SlotVector.live_pushBack, List.append_assoc]
      rfl

/-! ### The loop -/

/-- Reading a slot of the buffer that the loop started in. -/
theorem readSlot_eq {n : Node} {i : ℕ} (vector : Node → SlotVector Addr)
    (hm : w.heap.mem a = some n) (hc : (vector n).slots[i]? = some c) :
    w.readSlot a vector (vector n).buffer i = .ok c := by
  rw [readSlot]
  rw [Heap.node_of_mem hm]
  simp only [Outcome.ok_bind]
  rw [if_neg (not_not_intro rfl), hc]
  rfl

/-- What is left to delete: the children `cs` of `p` that are not in `l` still are its children,
and at the addresses in `l` there is no object. -/
structure Remaining (w : World) (p : Addr) (cs l : List Addr) : Prop where
  parent : ∀ c ∈ cs, c ∉ l → w.heap.parentOf c = some p
  dead : ∀ c ∈ l, ¬ w.heap.Live c

/-- The other children that remain are not below the one that is deleted. -/
theorem Remaining.not_below {cs l : List Addr} {d : Addr} (hr : Remaining w p cs l)
    (hf : Forested w) (hpc : w.heap.parentOf c = some p) (hdcs : d ∈ cs) (hdno : d ∉ l ++ [c]) :
    ¬ Below w.heap.childrenOf c d := by
  rw [List.mem_append, not_or, List.mem_singleton] at hdno
  exact hf.sibling_not_below hpc (hr.parent d hdcs hdno.1) (Ne.symm hdno.2)

theorem Remaining.delete {cs l : List Addr} {u : World} (hr : Remaining w p cs l)
    (hf : Forested w) (hpc : w.heap.parentOf c = some p) (hd : Deleted w.heap u.heap c) :
    Remaining u p cs (l ++ [c]) where
  parent d hdcs hdno := by
    have hdno' : d ∉ l := fun h => hdno (List.mem_append_left _ h)
    rw [hd.parentOf (hr.not_below hf hpc hdcs hdno)]
    exact hr.parent d hdcs hdno'
  dead d hdd := by
    rw [hd.live]
    rintro ⟨hdl, hnb⟩
    rcases List.mem_append.mp hdd with hdd | hdd
    · exact hr.dead d hdd hdl
    · obtain rfl := List.mem_singleton.mp hdd
      exact hnb .refl

/-- **The loop against the sweep.** The children `cs` of `p` that are not deleted yet are
deleted when the sweep removes them, and in the same order. -/
theorem deleteMarkedFrom_spec {cs : List Addr} {L : ℕ} {k i : ℕ} {l : List Addr} {n : Node}
    (hf : Forested w) (hm : w.heap.mem p = some n) (hik : i + k = L)
    (hlen : n.childrenToDelete.live.length ≤ L) (hL : L ≤ n.childrenToDelete.slots.length)
    (hslots : ∀ x ∈ n.childrenToDelete.slots.take L, x ∈ cs)
    (hr : Remaining w p cs l) :
    ∃ w', deleteMarkedFrom p n.childrenToDelete.buffer k i (w, l) =
        .ok (w', (SlotVector.sweepFrom i k (n.childrenToDelete, l)).2) ∧
      ∀ c ∈ cs, c ∉ l → c ∈ (SlotVector.sweepFrom i k (n.childrenToDelete, l)).2 →
        ∀ g, w.heap.generationOf c = some g → (w'.heap.blocks g).alive = false := by
  induction k generalizing i w l n with
  | zero => exact ⟨w, rfl, fun c _ hno hc => absurd hc hno⟩
  | succ k ih =>
      obtain ⟨c, hc⟩ : ∃ c, n.childrenToDelete.slots[i]? = some c :=
        ⟨_, List.getElem?_eq_getElem (by omega)⟩
      have hcmem : c ∈ cs := by
        refine hslots c (List.mem_of_getElem? (i := i) ?_)
        rw [List.getElem?_take_of_lt (by omega), hc]
      have hread := readSlot_eq Node.childrenToDelete hm hc
      rw [deleteMarkedFrom]
      rw [hread]
      simp only [Outcome.ok_bind, SlotVector.sweepFrom_succ]
      by_cases hcd : c ∈ l
      · -- it has been deleted before, and no object is at its address
        have hstep : SlotVector.sweepStep (n.childrenToDelete, l) i =
            (n.childrenToDelete, l) := by simp [SlotVector.sweepStep, hc, hcd]
        have hdead : ¬ w.heap.isAlive (w.heap.nodePtr c) = true := fun h =>
          hr.dead c hcd ((hf.named.isAlive_nodePtr c).mp h)
        rw [hstep, if_neg hdead]
        exact ih hf hm (by omega) hlen hL hslots hr
      · have hpc := hr.parent c hcmem hcd
        have hlive : w.heap.Live c := Heap.live_of_parentOf hpc
        obtain ⟨u, hu, hfu, hd⟩ := hf.delete hlive
        have hstep : SlotVector.sweepStep (n.childrenToDelete, l) i =
            (n.childrenToDelete.removeAll c, l ++ [c]) := by
          simp [SlotVector.sweepStep, hc, hcd]
        have hmu : u.heap.mem p = some (n.removeChild c) := by
          rw [hd.parent p hpc, hm]
          rfl
        obtain ⟨w', hw', hgone⟩ := ih (i := i + 1) (n := n.removeChild c) (l := l ++ [c]) hfu hmu
          (by omega)
          (Nat.le_trans (SlotVector.length_live_removeAll_le ..) hlen)
          (by
            have := SlotVector.length_slots_removeAll n.childrenToDelete c
            simp only [Node.removeChild]
            omega)
          (fun x hx => hslots x (SlotVector.mem_take_slots_removeAll hlen hx))
          (hr.delete hf hpc hd)
        have hages : Heap.Ages u.heap w'.heap := ages_deleteMarkedFrom hw'
        refine ⟨w', ?_, fun d hdcs hdno hdr g hg => ?_⟩
        · rw [if_pos ((hf.named.isAlive_nodePtr c).mpr hlive), hu, hstep]
          exact hw'
        · rw [hstep] at hdr
          by_cases hdc : d = c
          · subst hdc
            have hlt : g < u.heap.nextGeneration := by
              rw [hd.nextGeneration]
              exact hf.named.gen_lt d g hg
            exact hages.dead g hlt (hd.dead_of_below .refl hg)
          · have hdno' : d ∉ l ++ [c] := by simp [hdno, hdc]
            refine hgone d hdcs hdno' hdr g ?_
            rw [hd.generationOf (hr.not_below hf hpc hdcs hdno')]
            exact hg

end World

/-! ### When every marked child is deleted -/

/-- What becomes of a list `cs` of requests for children of `p`, made in `w₀` and leading to `w`:
the loop at the start of `p->run()` deletes each of the children exactly once, and none of them is
alive when `p->run()` has returned, whatever `update()` does. -/
def MarkedDeleted (t : ThreadId) (w₀ w : World) (p : Addr) (cs : List Addr) : Prop :=
  (∃ w₁ deleted, w.deleteMarked p = .ok (w₁, deleted) ∧ ∀ c ∈ cs, deleted.count c = 1) ∧
  ∀ (s : Tick) (ls : List TickStep), Reaches (Tick.Step t) (Tick.ofRun w p) ls s → s.Finished →
    ∀ c ∈ cs, ∀ g, w₀.heap.generationOf c = some g → (s.world.heap.blocks g).alive = false

/-- The first step of `p->run()` runs the loop. -/
theorem Tick.deleteMarked_of_reaches {t : ThreadId} {w : World} {p : Addr} {s : Tick}
    {ls : List TickStep} (h : Reaches (Tick.Step t) (Tick.ofRun w p) ls s) (hs : s.Finished) :
    ∃ r, w.deleteMarked p = .ok r ∧ Heap.Ages r.1.heap s.world.heap := by
  cases h with
  | nil => exact absurd hs.1 (by simp [Tick.ofRun])
  | cons _ hst hrest =>
      cases hst with
      | root henter =>
          obtain ⟨r, hr, h⟩ := Outcome.bind_eq_ok.mp henter
          obtain ⟨u, hu, h⟩ := Outcome.bind_eq_ok.mp h
          obtain ⟨n, -, h⟩ := Outcome.bind_eq_ok.mp h
          obtain ⟨rfl, -⟩ := Prod.mk.inj (Except.ok.inj h)
          exact ⟨r, hr, (World.ages_clearMarked hu).trans (Tick.ages_of_run hrest)⟩

/-- **All marked children are deleted iff no request is skipped.** The children `cs` of a
node `p` of an event loop are marked, in this order, while nothing else is in the queue of
`p`. Without repetitions that means at most two requests; requests for only two different
children are never skipped. -/
theorem deleteMarked_iff_unskipped {t : ThreadId} {w₀ w : World} {p : Addr} {n : Node}
    {cs : List Addr} (hf : Forested w₀) (hm : w₀.heap.mem p = some n)
    (ho : w₀.heap.ownerOf p = some (.loop t)) (hempty : n.childrenToDelete.live = [])
    (hcs : ∀ c ∈ cs, w₀.heap.parentOf c = some p)
    (hreq : cs.foldlM (fun w c => w.deleteLater (.onLoop t) c) w₀ = .ok w) :
    (MarkedDeleted t w₀ w p cs ↔ SlotVector.Unskipped cs) ∧
      (cs.Nodup → (SlotVector.Unskipped cs ↔ cs.length ≤ 2)) ∧
      ∀ a b, (∀ c ∈ cs, c = a ∨ c = b) → SlotVector.Unskipped cs := by
  refine ⟨?_, SlotVector.unskipped_iff_of_nodup, fun a b => SlotVector.unskipped_of_two⟩
  have haffine : ∀ c ∈ cs, w₀.heap.ownerOf c = some (.loop t) := fun c hc =>
    (hf.consistent.sound.affine c p (hcs c hc)).trans ho
  obtain ⟨hf', hs, n', hm', hlive⟩ :=
    World.requests_spec hf hm (fun c hc => ⟨hcs c hc, haffine c hc⟩) hreq
  rw [hempty, List.nil_append] at hlive
  set v := n'.childrenToDelete with hv
  have hslots : v.slots = (SlotVector.ofList cs).slots ++ v.stale := by
    rw [SlotVector.slots_ofList, ← hlive]
    rfl
  have htake : ∀ x ∈ v.slots.take cs.length, x ∈ cs := by
    rw [hslots, SlotVector.slots_ofList, List.take_left]
    exact fun x hx => hx
  -- the loop is the sweep over the list of the requests
  obtain ⟨w₁, hw₁, hgone⟩ := World.deleteMarkedFrom_spec (L := cs.length)
    (k := cs.length) (i := 0) (l := []) hf' hm' (Nat.zero_add _)
    (Nat.le_of_eq (by rw [← hv, hlive]))
    (by rw [← hv, hslots, SlotVector.slots_ofList, List.length_append]; omega) htake
    ⟨fun c hc _ => by rw [hs.parentOf]; exact hcs c hc, fun c hc => absurd hc List.not_mem_nil⟩
  have hsweep : (SlotVector.sweepFrom 0 cs.length (v, [])).2 = (SlotVector.sweep cs).2 :=
    SlotVector.sweepFrom_snd_eq hlive hslots (by simp)
  have hloop : w.deleteMarked p = .ok (w₁, (SlotVector.sweep cs).2) := by
    rw [World.deleteMarked]
    rw [Heap.node_of_mem hm']
    simp only [Outcome.ok_bind]
    rw [← hv, hlive, hw₁, ← hv, hsweep]
  have hnodup : (SlotVector.sweep cs).2.Nodup := SlotVector.nodup_sweepFrom List.nodup_nil
  rw [← SlotVector.sweep_complete_iff]
  constructor
  · rintro ⟨⟨u, deleted, hu, hcount⟩, -⟩ c hc
    obtain ⟨-, rfl⟩ := Prod.mk.inj (Except.ok.inj (hu.symm.trans hloop))
    exact List.count_pos_iff.mp (by rw [hcount c hc]; exact Nat.one_pos)
  · refine fun hall => ⟨⟨w₁, _, hloop, fun c hc => ?_⟩, fun s ls hrun hfin c hc g hg => ?_⟩
    · exact List.count_eq_one_of_mem hnodup (hall c hc)
    · obtain ⟨r, hr, hages⟩ := Tick.deleteMarked_of_reaches hrun hfin
      obtain rfl := Except.ok.inj (hloop.symm.trans hr)
      have hg' : w.heap.generationOf c = some g := (hs.generationOf c).trans hg
      refine hages.dead g ?_ (hgone c hc List.not_mem_nil (by rw [← hv, hsweep]; exact hall c hc)
        g hg')
      exact Nat.lt_of_lt_of_le (hf'.named.gen_lt c g hg') (World.ages_deleteMarkedFrom hw₁).next_le

/-- A root with three children in the event loop of thread 0. -/
def threeChildren : List TreeOp :=
  [.construct 1 .plain none, .construct 2 .plain (some 1), .construct 3 .plain (some 1),
    .construct 4 .plain (some 1)]

/-- Two children are deleted, also when one of them is marked twice. -/
theorem two_marked_deleted : ∃ w₀ w, Reaches (TreeStep 0 (.loop 0)) (World.initial 0 0)
    threeChildren w₀ ∧
      [2, 3, 2].foldlM (fun w c => w.deleteLater (.onLoop 0) c) w₀ = .ok w ∧
      MarkedDeleted 0 w₀ w 1 [2, 3, 2] := by
  have hrun : ∃ w₀, Run (TreeStep 0 (.loop 0)) (fun v op => op.Safe v) (World.initial 0 0)
      threeChildren w₀ ∧ w₀.heap.ownerOf 1 = some (.loop 0) ∧
      w₀.heap.mem 1 = some ⟨none, ⟨[2, 3, 4], [], 1, 3⟩, .empty, true, 1, .plain⟩ ∧
      ∃ w, [2, 3, 2].foldlM (fun w c => w.deleteLater (.onLoop 0) c) w₀ = .ok w := by
    refine ⟨_, .cons trivial rfl (.cons trivial rfl (.cons trivial rfl (.cons trivial rfl
      (.nil _)))), rfl, rfl, _, rfl⟩
  obtain ⟨w₀, hrun, ho, hm, w, hw⟩ := hrun
  have hf : Forested w₀ := forested_of_run (World.unused_initial 0 0)
    (fun s hs => absurd hs (by simp)) hrun
  have hkids : ∀ c ∈ [2, 3, 2], w₀.heap.parentOf c = some 1 := by
    intro c hc
    refine (hf.linked.mem_childrenOf 1 c).mp ?_
    rw [Heap.childrenOf_of_mem hm]
    revert c
    decide
  exact ⟨w₀, w, hrun.forget, hw,
    (deleteMarked_iff_unskipped hf hm ho rfl hkids hw).1.mpr (by decide)⟩

/-- **The second of three marked children survives**: the loop deletes the first and the
third, and skips the one that has moved to the slot it has read already. -/
theorem three_marked_not_deleted : ∃ w₀ w, Reaches (TreeStep 0 (.loop 0)) (World.initial 0 0)
    threeChildren w₀ ∧
      [2, 3, 4].foldlM (fun w c => w.deleteLater (.onLoop 0) c) w₀ = .ok w ∧
      (∀ c ∈ [2, 3, 4], w₀.heap.parentOf c = some 1) ∧ ¬ MarkedDeleted 0 w₀ w 1 [2, 3, 4] := by
  have hrun : ∃ w₀, Reaches (TreeStep 0 (.loop 0)) (World.initial 0 0) threeChildren w₀ ∧
      (∀ c ∈ [2, 3, 4], w₀.heap.parentOf c = some 1) ∧
      ∃ w, [2, 3, 4].foldlM (fun w c => w.deleteLater (.onLoop 0) c) w₀ = .ok w ∧
        (w.deleteMarked 1).map Prod.snd = .ok [2, 4] :=
    ⟨_, .cons trivial rfl (.cons trivial rfl (.cons trivial rfl (.cons trivial rfl
      (.nil _)))), by decide, _, rfl, rfl⟩
  obtain ⟨w₀, hrun, hkids, w, hw, hloop⟩ := hrun
  refine ⟨w₀, w, hrun, hw, hkids, ?_⟩
  rintro ⟨⟨w₁, deleted, hd, hcount⟩, -⟩
  rw [hd] at hloop
  obtain rfl : deleted = [2, 4] := Except.ok.inj hloop
  exact absurd (hcount 3 (by decide)) (by decide)

end SimplyNode
