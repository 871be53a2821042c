import SimplyNode.TickCalls

/-!
# A Tick Comes to Every Node Once

The tick of an event loop goes through a copy of the root list, and `Node::run` through the vector
of children itself, while `update()` may change the tree. As long as the calls of `update()` see to
what `Tick.Respects` says, every node whose `run()` or `update()` is called is alive and the loop's,
and when the tick is over every node that was there all the time has been updated once.

A call that does not can leave a dead node in the copy, or a node in it that is also below another
one.

## Main results

* `Steady.enter`, `Steady.update`, `Steady.leave`: the steps of the tick itself.
* `Tick.OnCourse.step`: the step lemma.
* `tick_updates_once`: whole ticks.
-/

open Frontier PointerForest Transition

namespace SimplyNode

namespace Tick

/-- The tick of the event loop of the thread `t`: the root list is copied. -/
def ofLoop (w : World) (t : ThreadId) : Tick :=
  { world := w, todo := w.execs.rootNodes (.loop t) }

/-- The next step of the tick itself calls `run()` or `update()` of the node. -/
def Invokes (s : Tick) (a : Addr) : Prop :=
  (s.stack = [] ∧ ∃ rest, s.todo = a :: rest) ∨
    ∃ f fs, s.stack = f :: fs ∧ f.updating = false ∧
      (f.next < f.stop ∧ s.world.readSlot f.node Node.children f.buffer f.next = .ok a ∨
        f.next = f.stop ∧ f.node = a)

end Tick

/-! ### The steps of the tick itself -/

namespace World

variable {w : World} {a : Addr}

/-- `m_childrenToDelete.clear()` succeeds on a live node. -/
theorem exists_clearMarked (ha : w.heap.Live a) : ∃ w', w.clearMarked a = .ok w' := by
  obtain ⟨n, hn⟩ := Option.isSome_iff_exists.mp ha
  exact ⟨_, by rw [clearMarked, Heap.node_of_mem hn]; rfl⟩

end World

namespace Steady

variable {t : ThreadId} {w₀ w w' : World} {f g : Frame} {fs : List Frame} {l : List Addr}
  {u : List Generation} {c q x : Addr} {n : Node}

/-- `m_childrenToDelete.clear()`. -/
theorem clearMarked (hs : Steady t w₀ w fs l u) (h : w.clearMarked c = .ok w') :
    Steady t w₀ w' fs l u ∧ ∀ f ∈ fs, f.Undisturbed w.heap w'.heap := by
  have hsame := (World.clearMarked_ok h).1
  have hf' := World.forested_clearMarked hs.forested h
  refine ⟨hs.sameTree hsame hf' fun x hx => hx.clearMarked h, fun f _ => ?_⟩
  exact .of_children (hsame.map_eq f.node Node.children fun _ => rfl)

/-- A child of the first node of the frontier is deleted: the tick has nothing to do with it yet. -/
theorem deleteChild (hs : Steady t w₀ w fs (c :: l) u) (hq : w.heap.parentOf q = some c)
    (hf' : Forested w') (hd : Deleted w.heap w'.heap q) :
    Steady t w₀ w' fs (c :: l) u ∧ ∀ f ∈ fs, f.Undisturbed w.heap w'.heap := by
  have hbelow : ∀ x, Above w.heap.parentOf x q → Covered w.heap.parentOf (c :: l) x :=
    fun x hx => ⟨c, List.mem_cons_self, hx.tail hq⟩
  have hkeep : ∀ f ∈ fs, f.Undisturbed w.heap w'.heap := by
    intro f hf
    have hnot := (hs.entered f hf).2
    refine .of_children (congrArg _ (hd.kept f.node (fun hb => ?_) fun hp => ?_))
    · exact hnot (hbelow f.node (hs.forested.linked.below_iff_above.mp hb))
    · obtain rfl : c = f.node := Option.some.inj (hq.symm.trans hp)
      exact hnot (.of_mem List.mem_cons_self)
  refine ⟨hs.deleted hd hf' (fun x hx => ⟨fun hmem => ?_, ?_⟩) hkeep, hkeep⟩
  · rcases List.mem_cons.mp hmem with rfl | hmem
    · exact (hs.forested.grounded q).not_cycle hq hx
    · exact ((List.pairwise_cons.mp hs.apart).1 x hmem).2 (hx.tail hq)
  · rintro ⟨f, hf, rfl⟩
    exact (hs.entered f hf).2 (hbelow f.node hx)

/-- The frame of the first node of the frontier takes its place: its children are to be walked. -/
theorem push (hs : Steady t w₀ w fs (c :: l) u) (hm : w.heap.mem c = some n) :
    Steady t w₀ w (⟨c, n.children.buffer, 0, n.children.live.length, false⟩ :: fs)
      (w.heap.childrenOf c ++ l) u := by
  have hlinked := hs.forested.linked
  have hg := hs.forested.grounded
  have hkids : ∀ d, d ∈ w.heap.childrenOf c ↔ w.heap.parentOf d = some c :=
    hlinked.mem_childrenOf c
  have hcov : ∀ x, Covered w.heap.parentOf (w.heap.childrenOf c ++ l) x ↔
      Covered w.heap.parentOf (c :: l) x ∧ x ≠ c := fun x =>
    covered_enter_iff hkids (hg c) hs.apart
  have hhead : Covered w.heap.parentOf (c :: l) c := .of_mem List.mem_cons_self
  have hopen : ∀ x, Open (⟨c, n.children.buffer, 0, n.children.live.length, false⟩ :: fs) x ↔
      x = c ∨ Open fs x := by
    intro x
    constructor
    · rintro ⟨f, hf, hfx, hu⟩
      rcases List.mem_cons.mp hf with rfl | hf
      · exact Or.inl hfx.symm
      · exact Or.inr ⟨f, hf, hfx, hu⟩
    · rintro (rfl | ⟨f, hf, hfx, hu⟩)
      · exact ⟨_, List.mem_cons_self, rfl, rfl⟩
      · exact ⟨f, List.mem_cons_of_mem _ hf, hfx, hu⟩
  exact
    { start := hs.start
      forested := hs.forested
      next_le := hs.next_le
      queues := fun x hx => hs.queues x ((hcov x).mp hx).1
      owned := by
        intro d hd
        rcases List.mem_append.mp hd with hd | hd
        · rw [hs.forested.consistent.sound.affine d c ((hkids d).mp hd)]
          exact hs.owned c List.mem_cons_self
        · exact hs.owned d (List.mem_cons_of_mem _ hd)
      apart := hs.apart.enter hkids hg (hlinked.nodup c)
      entered := by
        intro f hf
        rw [hcov]
        rcases List.mem_cons.mp hf with rfl | hf
        · exact ⟨Heap.live_of_ownerOf (hs.owned c List.mem_cons_self), fun h => h.2 rfl⟩
        · exact ⟨(hs.entered f hf).1, fun h => (hs.entered f hf).2 h.1⟩
      opened := by
        intro x hx
        rcases (hopen x).mp hx with rfl | hx
        · exact hs.owned x List.mem_cons_self
        · exact hs.opened x hx
      nodup := by
        refine List.nodup_cons.mpr ⟨fun hmem => ?_, hs.nodup⟩
        obtain ⟨f, hf, hfc⟩ := List.mem_map.mp hmem
        obtain rfl : f.node = c := hfc
        exact (hs.entered f hf).2 hhead
      loops := by
        intro f hf
        rcases List.mem_cons.mp hf with rfl | hf
        · refine ⟨Nat.zero_le _, fun _ _ m hm' => ?_⟩
          obtain rfl := Option.some.inj (hm.symm.trans hm')
          exact ⟨rfl, by simp [SlotVector.slots]⟩
        · exact hs.loops f hf
      counted := by
        intro x g hx hgx
        have hiff : Covered w.heap.parentOf (w.heap.childrenOf c ++ l) x ∨
            Open (⟨c, n.children.buffer, 0, n.children.live.length, false⟩ :: fs) x ↔
            Covered w.heap.parentOf (c :: l) x ∨ Open fs x := by
          rw [hcov, hopen]
          by_cases hxc : x = c
          · subst hxc
            simp [hhead]
          · simp [hxc]
        rw [hiff]
        exact hs.counted x g hx hgx }

/-- **The start of `run()`** of the first node of the frontier succeeds. The loops in progress find
their slots as they were. -/
theorem enter (hs : Steady t w₀ w fs (c :: l) u) : ∃ w' g, w.enterRun c = .ok (w', g) ∧
    Steady t w₀ w' (g :: fs) (g.rest w'.heap ++ l) u ∧
    ∀ f ∈ fs, f.rest w'.heap = f.rest w.heap := by
  -- what every deletion of a child of `c` keeps
  let I : World → List Addr → Prop := fun v _ => Steady t w₀ v fs (c :: l) u ∧
    ∀ f ∈ fs, f.rest v.heap = f.rest w.heap
  have hrest : ∀ {v v' : World}, I v [] → Steady t w₀ v' fs (c :: l) u →
      (∀ f ∈ fs, f.Undisturbed v.heap v'.heap) → I v' [] := by
    rintro v v' ⟨hv, hvr⟩ hv' hkeep
    refine ⟨hv', fun f hf => ?_⟩
    rw [(hkeep f hf).rest_eq (hv.entered f hf).1 (hv'.entered f hf).1, hvr f hf]
  have hI : ∀ v k q v', I v k → Forested v → v.heap.parentOf q = some c → v.delete q = .ok v' →
      Forested v' → Deleted v.heap v'.heap q → I v' (k ++ [q]) := by
    intro v k q v' hv _ hq _ hf' hd
    obtain ⟨hv', hkeep⟩ := hv.1.deleteChild hq hf' hd
    exact hrest hv hv' hkeep
  have hcl : w.heap.Live c := Heap.live_of_ownerOf (hs.owned c List.mem_cons_self)
  obtain ⟨w₁, ds, hloop, -, hw₁⟩ := World.exists_deleteMarked hI hs.forested hcl
    (hs.queues c (.of_mem List.mem_cons_self)) ⟨hs, fun _ _ => rfl⟩
  obtain ⟨w₂, hclear⟩ := World.exists_clearMarked
    (Heap.live_of_ownerOf (hw₁.1.owned c List.mem_cons_self))
  obtain ⟨hw₂, hkeep⟩ := hw₁.1.clearMarked hclear
  obtain ⟨n, hn⟩ := Option.isSome_iff_exists.mp
    (Heap.live_of_ownerOf (hw₂.owned c List.mem_cons_self))
  refine ⟨w₂, ⟨c, n.children.buffer, 0, n.children.live.length, false⟩, ?_, ?_,
    (hrest hw₁ hw₂ hkeep).2⟩
  · simp only [World.enterRun, hloop, Outcome.ok_bind, hclear, Heap.node_of_mem hn]
    rfl
  · have hkids : Frame.rest w₂.heap ⟨c, n.children.buffer, 0, n.children.live.length, false⟩ =
        w₂.heap.childrenOf c := by
      rw [Frame.rest_of_mem rfl hn, Heap.childrenOf_of_mem hn, Frame.window, SlotVector.slots,
        List.take_left, List.drop_zero]
    rw [hkids]
    exact hw₂.push hn

/-- The loop over the children goes on to the next slot. -/
theorem advance (hs : Steady t w₀ w (f :: fs) l u) (hlt : f.next < f.stop) :
    Steady t w₀ w ({ f with next := f.next + 1 } :: fs) l u := by
  have hopen : ∀ x, Open ({ f with next := f.next + 1 } :: fs) x ↔ Open (f :: fs) x := by
    intro x
    simp [Open]
  exact
    { start := hs.start
      forested := hs.forested
      next_le := hs.next_le
      queues := hs.queues
      owned := hs.owned
      apart := hs.apart
      entered := by
        intro e he
        rcases List.mem_cons.mp he with rfl | he
        · exact hs.entered f List.mem_cons_self
        · exact hs.entered e (List.mem_cons_of_mem _ he)
      opened := fun x hx => hs.opened x ((hopen x).mp hx)
      nodup := hs.nodup
      loops := by
        intro e he
        rcases List.mem_cons.mp he with rfl | he
        · exact ⟨hlt, fun hu _ => (hs.loops f List.mem_cons_self).slots hu hlt⟩
        · exact hs.loops e (List.mem_cons_of_mem _ he)
      counted := by
        intro x k hx hk
        rw [hopen]
        exact hs.counted x k hx hk }

/-- The slot that the loop reads is the first of the frontier. -/
theorem read (hs : Steady t w₀ w (f :: fs) l u) (hu : f.updating = false)
    (hlt : f.next < f.stop) : ∃ c, w.readSlot f.node Node.children f.buffer f.next = .ok c ∧
      f.rest w.heap = c :: Frame.rest w.heap { f with next := f.next + 1 } := by
  obtain ⟨n, hn⟩ := Option.isSome_iff_exists.mp (hs.entered f List.mem_cons_self).1
  obtain ⟨hbuf, hlen⟩ := (hs.loops f List.mem_cons_self).slots hu hlt n hn
  have hget : n.children.slots[f.next]? = some n.children.slots[f.next] :=
    List.getElem?_eq_getElem (by omega)
  refine ⟨n.children.slots[f.next], ?_, ?_⟩
  · simp [World.readSlot, Heap.node_of_mem hn, hbuf, hget]
  · have hstep : f.window n.children = n.children.slots[f.next] ::
        Frame.window { f with next := f.next + 1 } n.children := by
      simp only [Frame.window]
      rw [List.drop_eq_getElem_cons (by rw [List.length_take]; omega), List.getElem_take]
    have hnext := Frame.rest_of_mem (f := { f with next := f.next + 1 }) hu hn
    rw [Frame.rest_of_mem hu hn, hstep, hnext]

/-- **`update()`** of the node of the first frame is called. -/
theorem update (hs : Steady t w₀ w (f :: fs) l u) (hu : f.updating = false)
    (hm : w.heap.mem f.node = some n) :
    Steady t w₀ w ({ f with updating := true } :: fs) l (u ++ [n.generation]) := by
  have hg : w.heap.generationOf f.node = some n.generation := by simp [Heap.generationOf, hm]
  have hother : ∀ e ∈ fs, e.node ≠ f.node := fun e he heq =>
    (List.nodup_cons.mp hs.nodup).1 (heq ▸ List.mem_map_of_mem he)
  have hopen : ∀ x, Open (f :: fs) x ↔
      x = f.node ∨ Open ({ f with updating := true } :: fs) x := by
    intro x
    constructor
    · rintro ⟨e, he, hex, hue⟩
      rcases List.mem_cons.mp he with rfl | he
      · exact Or.inl hex.symm
      · exact Or.inr ⟨e, List.mem_cons_of_mem _ he, hex, hue⟩
    · rintro (rfl | ⟨e, he, hex, hue⟩)
      · exact ⟨f, List.mem_cons_self, rfl, hu⟩
      · rcases List.mem_cons.mp he with rfl | he
        · exact absurd hue (by simp)
        · exact ⟨e, List.mem_cons_of_mem _ he, hex, hue⟩
  have hclosed : ¬ Open ({ f with updating := true } :: fs) f.node := by
    rintro ⟨e, he, hex, hue⟩
    rcases List.mem_cons.mp he with rfl | he
    · exact absurd hue (by simp)
    · exact hother e he hex
  exact
    { start := hs.start
      forested := hs.forested
      next_le := hs.next_le
      queues := hs.queues
      owned := hs.owned
      apart := hs.apart
      entered := by
        intro e he
        rcases List.mem_cons.mp he with rfl | he
        · exact hs.entered f List.mem_cons_self
        · exact hs.entered e (List.mem_cons_of_mem _ he)
      opened := fun x hx => hs.opened x ((hopen x).mpr (Or.inr hx))
      nodup := hs.nodup
      loops := by
        intro e he
        rcases List.mem_cons.mp he with rfl | he
        · exact ⟨(hs.loops f List.mem_cons_self).next_le, fun h => absurd h (by simp)⟩
        · exact hs.loops e (List.mem_cons_of_mem _ he)
      counted := by
        intro x k hx hk
        rw [List.count_append, List.count_singleton]
        obtain rfl | hne := eq_or_ne x f.node
        · -- the node has not been updated before, and is done now
          obtain rfl : n.generation = k := Option.some.inj (hg.symm.trans hk)
          rcases hs.counted f.node n.generation hx hk with ⟨-, hcount⟩ | ⟨hnot, -⟩
          · refine Or.inr ⟨fun h => ?_, by simp [hcount]⟩
            exact h.elim (hs.entered f List.mem_cons_self).2 hclosed
          · exact absurd (Or.inr ((hopen f.node).mpr (Or.inl rfl))) hnot
        · have hgen : n.generation ≠ k := by
            rintro rfl
            exact hne (hs.forested.named.gen_inj x f.node _ hk hg)
          have hold := hs.counted x k hx hk
          rw [hopen] at hold
          simpa [hne, hgen] using hold }

/-- **The end of `run()`** of the node of the first frame. -/
theorem leave (hs : Steady t w₀ w (f :: fs) l u) (hu : f.updating = true) :
    Steady t w₀ w fs l u := by
  have hopen : ∀ x, Open (f :: fs) x ↔ Open fs x := by
    intro x
    constructor
    · rintro ⟨e, he, hex, hue⟩
      rcases List.mem_cons.mp he with rfl | he
      · rw [hu] at hue
        exact absurd hue (by simp)
      · exact ⟨e, he, hex, hue⟩
    · rintro ⟨e, he, hex, hue⟩
      exact ⟨e, List.mem_cons_of_mem _ he, hex, hue⟩
  exact
    { start := hs.start
      forested := hs.forested
      next_le := hs.next_le
      queues := hs.queues
      owned := hs.owned
      apart := hs.apart
      entered := fun e he => hs.entered e (List.mem_cons_of_mem _ he)
      opened := fun x hx => hs.opened x ((hopen x).mpr hx)
      nodup := (List.nodup_cons.mp hs.nodup).2
      loops := fun e he => hs.loops e (List.mem_cons_of_mem _ he)
      counted := by
        intro x k hx hk
        have hold := hs.counted x k hx hk
        rwa [hopen] at hold }

end Steady

/-! ### Whole ticks -/

namespace Tick

variable {t : ThreadId} {w₀ w w' : World} {s s' : Tick} {a : Addr} {f g : Frame}
  {fs : List Frame} {todo : List Addr} {u : List Generation} {l : TickStep}

/-- Frames whose slots are as they were have the same to read. -/
theorem flatMap_rest {h h' : Heap} (hrest : ∀ f ∈ fs, f.rest h' = f.rest h) :
    fs.flatMap (Frame.rest h') = fs.flatMap (Frame.rest h) :=
  List.flatMap_congr hrest

/-- The next root is run. -/
theorem OnCourse.root (hs : OnCourse t w₀ ⟨w, a :: todo, [], u⟩) :
    ∃ w' f, w.enterRun a = .ok (w', f) ∧ OnCourse t w₀ ⟨w', todo, [f], u⟩ := by
  have hstart : Steady t w₀ w [] (a :: todo) u := hs
  obtain ⟨w', f, henter, hs', -⟩ := hstart.enter
  refine ⟨w', f, henter, ?_⟩
  simpa only [OnCourse, frontier, List.flatMap_cons, List.flatMap_nil, List.append_nil] using hs'

/-- The next child is run. -/
theorem OnCourse.child (hs : OnCourse t w₀ ⟨w, todo, f :: fs, u⟩) (hu : f.updating = false)
    (hlt : f.next < f.stop) : ∃ c w' g,
      w.readSlot f.node Node.children f.buffer f.next = .ok c ∧ w.enterRun c = .ok (w', g) ∧
      OnCourse t w₀ ⟨w', todo, g :: { f with next := f.next + 1 } :: fs, u⟩ := by
  obtain ⟨c, hread, hrest⟩ := Steady.read hs hu hlt
  have hs' := hs.advance hlt
  simp only [frontier, List.flatMap_cons, hrest, List.cons_append] at hs'
  obtain ⟨w', g, henter, hs', hkeep⟩ := hs'.enter
  refine ⟨c, w', g, hread, henter, ?_⟩
  have hflat := flatMap_rest hkeep
  rw [List.flatMap_cons, List.flatMap_cons] at hflat
  simpa only [OnCourse, frontier, List.flatMap_cons, List.append_assoc, hflat] using hs'

/-- `update()` is called. -/
theorem OnCourse.update {n : Node} (hs : OnCourse t w₀ ⟨w, todo, f :: fs, u⟩)
    (hu : f.updating = false) (heq : f.next = f.stop) (hm : w.heap.mem f.node = some n) :
    OnCourse t w₀ ⟨w, todo, { f with updating := true } :: fs, u ++ [n.generation]⟩ := by
  have hs' := Steady.update hs hu hm
  have hold : f.rest w.heap = [] := Frame.rest_of_le (Nat.le_of_eq heq.symm)
  have hnew : Frame.rest w.heap { f with updating := true } = [] := Frame.rest_of_updating rfl
  simpa only [OnCourse, frontier, List.flatMap_cons, hold, hnew] using hs'

/-- `run()` returns. -/
theorem OnCourse.leave (hs : OnCourse t w₀ ⟨w, todo, f :: fs, u⟩) (hu : f.updating = true)
    (h : w.clearMarked f.node = .ok w') : OnCourse t w₀ ⟨w', todo, fs, u⟩ := by
  obtain ⟨hs', hkeep⟩ := Steady.clearMarked hs h
  have hrest : ∀ e ∈ fs, e.rest w'.heap = e.rest w.heap := fun e he =>
    (hkeep e (List.mem_cons_of_mem _ he)).rest_eq (hs.entered e (List.mem_cons_of_mem _ he)).1
      (hs'.entered e (List.mem_cons_of_mem _ he)).1
  have hold : f.rest w.heap = [] := Frame.rest_of_updating hu
  have hs' := hs'.leave hu
  simp only [frontier, List.flatMap_cons, hold, List.nil_append] at hs'
  simpa only [OnCourse, frontier, flatMap_rest hrest] using hs'

/-- **The step lemma.** -/
theorem OnCourse.step (hs : s.OnCourse t w₀) (hl : s.Considerate t w₀ l) (h : Step t s l s') :
    s'.OnCourse t w₀ := by
  cases h with
  | root henter =>
      obtain ⟨w', f, henter', hs'⟩ := hs.root
      obtain ⟨rfl, rfl⟩ := Prod.mk.inj (Except.ok.inj (henter'.symm.trans henter))
      exact hs'
  | child hu hlt hread henter =>
      obtain ⟨c, w', g, hread', henter', hs'⟩ := hs.child hu hlt
      obtain rfl := Except.ok.inj (hread'.symm.trans hread)
      obtain ⟨rfl, rfl⟩ := Prod.mk.inj (Except.ok.inj (henter'.symm.trans henter))
      exact hs'
  | update hu heq hm => exact hs.update hu heq hm
  | @call w w' c todo f fs u hu happly =>
      obtain ⟨hc, hkeep⟩ := hl c rfl
      have hkeep := hkeep w' happly
      have hs' := Steady.call hs hc happly hkeep
      have hrest : ∀ e ∈ f :: fs, e.rest w'.heap = e.rest w.heap := fun e he =>
        (hkeep e he).rest_eq (hs.entered e he).1 (hs'.entered e he).1
      simpa only [OnCourse, frontier, flatMap_rest hrest] using hs'
  | leave hu hclear => exact hs.leave hu hclear

/-- The tick itself does not get stuck. -/
theorem OnCourse.progress (hs : s.OnCourse t w₀) :
    s.Finished ∨ ∃ s', Step t s .advance s' := by
  obtain ⟨w, todo, stack, u⟩ := s
  cases stack with
  | nil =>
      cases todo with
      | nil => exact Or.inl ⟨rfl, rfl⟩
      | cons a todo =>
          obtain ⟨w', f, henter, -⟩ := hs.root
          exact Or.inr ⟨_, .root henter⟩
  | cons f fs =>
      have hlive := (hs.entered f List.mem_cons_self).1
      cases hu : f.updating with
      | true =>
          obtain ⟨w', hclear⟩ := World.exists_clearMarked hlive
          exact Or.inr ⟨_, .leave hu hclear⟩
      | false =>
          have hle := (hs.loops f List.mem_cons_self).next_le
          by_cases hlt : f.next < f.stop
          · obtain ⟨c, w', g, hread, henter, -⟩ := hs.child hu hlt
            exact Or.inr ⟨_, .child hu hlt hread henter⟩
          · obtain ⟨n, hn⟩ := Option.isSome_iff_exists.mp hlive
            exact Or.inr ⟨_, .update hu (by omega) hn⟩

/-- The nodes that the tick calls `run()` or `update()` of are the loop's. -/
theorem OnCourse.invokes (hs : s.OnCourse t w₀) (ha : s.Invokes a) :
    s.world.heap.ownerOf a = some (.loop t) := by
  obtain ⟨w, todo, stack, u⟩ := s
  rcases ha with ⟨hstack, rest, htodo⟩ | ⟨f, fs, hstack, hu, ⟨hlt, hread⟩ | ⟨-, rfl⟩⟩
  · obtain rfl : stack = [] := hstack
    obtain rfl : todo = a :: rest := htodo
    exact hs.owned a (by simp [frontier])
  · obtain rfl : stack = f :: fs := hstack
    obtain ⟨c, hread', hrest⟩ := Steady.read hs hu hlt
    obtain rfl := Except.ok.inj (hread'.symm.trans hread)
    exact hs.owned c (by simp [frontier, hrest])
  · obtain rfl : stack = f :: fs := hstack
    exact hs.opened f.node ⟨f, List.mem_cons_self, rfl, hu⟩

/-- When the tick is over, what was there at the start has been updated once. -/
theorem OnCourse.finished (hs : s.OnCourse t w₀) (hfin : s.Finished) {x : Addr} {k : Generation}
    (hx : FromStart t w₀ s.world x) (hk : s.world.heap.generationOf x = some k) :
    s.updated.count k = 1 := by
  obtain ⟨w, todo, stack, u⟩ := s
  obtain ⟨rfl, rfl⟩ : todo = [] ∧ stack = [] := hfin
  rcases hs.counted x k hx hk with ⟨h | ⟨f, hf, -⟩, -⟩ | ⟨-, hcount⟩
  · obtain ⟨c, hc, -⟩ := h
    exact absurd hc List.not_mem_nil
  · exact absurd hf List.not_mem_nil
  · exact hcount

/-- A tick starts on course in a forest in which the queues of the loop's nodes hold children. -/
theorem onCourse_ofLoop (hf : Forested w)
    (hq : ∀ x, w.heap.ownerOf x = some (.loop t) → w.QueueOwn x) :
    (Tick.ofLoop w t).OnCourse t w := by
  have hbooks := hf.consistent.sound.balanced
  have hroots : ∀ c, c ∈ w.execs.rootNodes (.loop t) ↔
      w.heap.isRoot c = true ∧ w.heap.ownerOf c = some (.loop t) := hbooks.roots (.loop t)
  have htop : ∀ c ∈ w.execs.rootNodes (.loop t), w.heap.parentOf c = none := by
    intro c hc
    obtain ⟨hr, -⟩ := (hroots c).mp hc
    exact (hf.linked.isRoot_iff c (Heap.live_of_isRoot hr)).mp hr
  have habove : ∀ x r, Above w.heap.parentOf x r → w.heap.ownerOf x = w.heap.ownerOf r := by
    intro x r hx
    induction hx with
    | refl => rfl
    | @tail y r _ hr ih => exact ih.trans (hf.consistent.sound.affine y r hr)
  have hnot : ∀ c ∈ w.execs.rootNodes (.loop t), ∀ d, c ≠ d → ¬ Above w.heap.parentOf c d := by
    intro c hc d hne hcd
    rcases Relation.ReflTransGen.cases_head hcd with heq | ⟨p, hp, -⟩
    · exact hne heq
    · rw [htop c hc] at hp
      exact absurd hp (by simp)
  have hfront : (Tick.ofLoop w t).frontier = w.execs.rootNodes (.loop t) := rfl
  exact
    { start := hf.named
      forested := hf
      next_le := Nat.le_refl _
      queues := by
        rintro x ⟨c, hc, hxc⟩
        exact hq x ((habove x c hxc).trans ((hroots c).mp hc).2)
      owned := fun c hc => ((hroots c).mp hc).2
      apart := (hbooks.nodup (.loop t)).imp_of_mem fun hc hd hne =>
        ⟨hnot _ hc _ hne, hnot _ hd _ (Ne.symm hne)⟩
      entered := fun f hf => absurd hf List.not_mem_nil
      opened := fun x ⟨f, hf, _⟩ => absurd hf List.not_mem_nil
      nodup := List.nodup_nil
      loops := fun f hf => absurd hf List.not_mem_nil
      counted := by
        rintro x k ⟨-, ho, -, -⟩ -
        obtain ⟨r, hr, hnone⟩ := (hf.grounded x).exists_top
        have hrown : w.heap.ownerOf r = some (.loop t) := (habove x r hr).symm.trans ho
        have hroot : w.heap.isRoot r = true :=
          (hf.linked.isRoot_iff r (Heap.live_of_ownerOf hrown)).mpr hnone
        refine Or.inl ⟨Or.inl ⟨r, (hroots r).mpr ⟨hroot, hrown⟩, hr⟩, rfl⟩ }

/-- The invariant at the end of a run. -/
theorem OnCourse.run {ls : List TickStep} (hs : s.OnCourse t w₀)
    (h : Run (Step t) (fun s l => s.Considerate t w₀ l) s ls s') : s'.OnCourse t w₀ :=
  h.invariant (fun _ _ _ hs hl hst => hs.step hl hst) hs

end Tick

/-- **A tick comes to every node once** if the calls of `update()` are considerate: it calls `run()`
and `update()` on live nodes of the loop only and does not get stuck, and when it is over every node
that the loop owned when it started, and that is still there, has been updated once. -/
theorem tick_updates_once {t : ThreadId} {w : World} {s : Tick} {ls : List TickStep}
    (hf : Forested w) (hq : ∀ x, w.heap.ownerOf x = some (.loop t) → w.QueueOwn x)
    (hrun : Run (Tick.Step t) (fun s l => s.Considerate t w l) (Tick.ofLoop w t) ls s) :
    (∀ a, s.Invokes a →
      s.world.heap.Live a ∧ s.world.heap.ownerOf a = some (.loop t)) ∧
    (s.Finished ∨ ∃ s', Tick.Step t s .advance s') ∧
    (s.Finished → ∀ x g, w.heap.ownerOf x = some (.loop t) → w.heap.generationOf x = some g →
      s.world.heap.generationOf x = some g → s.updated.count g = 1) := by
  have hs := (Tick.onCourse_ofLoop hf hq).run hrun
  refine ⟨fun a ha => ?_, hs.progress, fun hfin x g ho hg₀ hg => ?_⟩
  · have hown := hs.invokes ha
    exact ⟨Heap.live_of_ownerOf hown, hown⟩
  · exact hs.finished hfin ⟨g, ho, hg₀, hg⟩ hg

/-- A root with a child, and two more roots, in the event loop of thread 0. -/
def threeRoots : List TreeOp :=
  [.construct 1 .plain none, .construct 2 .plain (some 1), .construct 3 .plain none,
    .construct 4 .plain none]

theorem considerate_advance (s : Tick) (t : ThreadId) (w : World) : s.Considerate t w .advance :=
  fun _ h => absurd h (by simp)

/-- The first root deletes its child when the child has been updated: the other nodes are updated
once. -/
theorem child_deleted_after_update : ∃ w s,
    Run (Tick.Step 0) (fun s l => s.Considerate 0 w l) (Tick.ofLoop w 0)
      (List.replicate 5 .advance ++ .call (.tree (.delete 2)) :: List.replicate 7 .advance) s ∧
    s.Finished ∧ s.updated.count 1 = 1 ∧ s.updated.count 3 = 1 ∧ s.updated.count 4 = 1 := by
  have hbuilt : ∃ w, Run (TreeStep 0 (.loop 0)) World.Unqueued (World.initial 0 0) threeRoots w ∧
      (∀ x ∈ [1, 3, 4], w.heap.ownerOf x = some (.loop 0) ∧ w.heap.generationOf x = some x) ∧
      ∃ v v' s, Run (Tick.Step 0) (fun s l => s.Considerate 0 w l) (Tick.ofLoop w 0)
          (List.replicate 5 .advance) v ∧
        v.frontier = [3, 4] ∧ (∃ f, v.stack = [f] ∧ f.node = 1 ∧ f.updating = true) ∧
        v.world.heap.childrenOf 2 = [] ∧ Tick.Step 0 v (.call (.tree (.delete 2))) v' ∧
        Run (Tick.Step 0) (fun s l => s.Considerate 0 w l) v' (List.replicate 7 .advance) s ∧
        s.Finished ∧ ∀ x ∈ [1, 3, 4], s.world.heap.generationOf x = some x := by
    have adv := fun s w => considerate_advance s 0 w
    have node := World.unqueued_construct
    exact ⟨_, .cons (node ..) rfl (.cons (node ..) rfl (.cons (node ..) rfl
      (.cons (node ..) rfl (.nil _)))), by decide, _, _, _,
      .cons (adv _ _) (.root rfl) (.cons (adv _ _) (.child rfl (by decide) rfl rfl)
      (.cons (adv _ _) (.update rfl rfl rfl) (.cons (adv _ _) (.leave rfl rfl)
      (.cons (adv _ _) (.update rfl rfl rfl) (.nil _))))), rfl, ⟨_, rfl, rfl, rfl⟩, rfl,
      .call rfl rfl,
      .cons (adv _ _) (.leave rfl rfl) (.cons (adv _ _) (.root rfl)
      (.cons (adv _ _) (.update rfl rfl rfl) (.cons (adv _ _) (.leave rfl rfl)
      (.cons (adv _ _) (.root rfl) (.cons (adv _ _) (.update rfl rfl rfl)
      (.cons (adv _ _) (.leave rfl rfl) (.nil _))))))), ⟨rfl, rfl⟩, by decide⟩
  obtain ⟨w, hbuild, hstart, v, v', s, h₁, hfront, ⟨f, hstack, hnode, hupd⟩, hkids, hcall, h₂, hfin,
    hend⟩ := hbuilt
  obtain ⟨hf, hq⟩ := World.queuesOwn_of_run (World.unused_initial 0 0)
    (fun s hs => absurd hs (by simp)) hbuild
  have hq : ∀ x, w.heap.ownerOf x = some (.loop 0) → w.QueueOwn x := fun x _ =>
    World.queuesOwn_iff.mp hq x
  have hv := (Tick.onCourse_ofLoop hf hq).run h₁
  have hcons : v.Considerate 0 w (.call (.tree (.delete 2))) := by
    intro c hc
    obtain rfl := TickStep.call.inj hc
    constructor
    · intro x hx
      obtain rfl : x = 2 := by
        rcases Relation.ReflTransGen.cases_tail hx with h | ⟨y, -, hy⟩
        · exact h.symm
        · have hmem := (hv.forested.linked.mem_childrenOf 2 y).mpr hy
          rw [hkids] at hmem
          exact absurd hmem List.not_mem_nil
      rw [hfront, hstack]
      refine ⟨by decide, ?_⟩
      rintro ⟨e, he, hex⟩
      rw [List.mem_singleton.mp he, hnode] at hex
      exact absurd hex (by decide)
    · intro u _ e he hue
      rw [hstack] at he
      rw [List.mem_singleton.mp he, hupd] at hue
      exact absurd hue (by simp)
  have hrun := h₁.trans (.cons hcons hcall h₂)
  have honce := (tick_updates_once hf hq hrun).2.2 hfin
  have hall : ∀ x ∈ [1, 3, 4], s.updated.count x = 1 := fun x hx =>
    honce x x (hstart x hx).1 (hstart x hx).2 (hend x hx)
  exact ⟨w, s, hrun, hfin, hall 1 (by simp), hall 3 (by simp), hall 4 (by simp)⟩

/-- **What an inconsiderate `update()` does**: the first root deletes the second one, and the tick
comes to it all the same, where it gets stuck; or it puts the second one under the third, and the
second one is updated twice. -/
theorem deleted_root_run : ∃ w,
    Reaches (TreeStep 0 (.loop 0)) (World.initial 0 0) threeRoots w ∧
    (∃ s, Reaches (Tick.Step 0) (Tick.ofLoop w 0)
        (List.replicate 5 .advance ++ [.call (.tree (.delete 3)), .advance]) s ∧
      s.Invokes 3 ∧ ¬ s.world.heap.Live 3 ∧ ∀ s', ¬ Tick.Step 0 s .advance s') ∧
    ∃ s, Reaches (Tick.Step 0) (Tick.ofLoop w 0)
        (List.replicate 5 .advance ++ .call (.tree (.setParent 3 (some 4))) ::
          List.replicate 10 .advance) s ∧
      s.Finished ∧ w.heap.ownerOf 3 = some (.loop 0) ∧ w.heap.generationOf 3 = some 3 ∧
      s.world.heap.ownerOf 3 = some (.loop 0) ∧ s.world.heap.generationOf 3 = some 3 ∧
      s.updated.count 3 = 2 := by
  have hrun : ∃ w, Reaches (TreeStep 0 (.loop 0)) (World.initial 0 0) threeRoots w ∧
      (∃ v todo u, Reaches (Tick.Step 0) (Tick.ofLoop w 0)
          (List.replicate 5 .advance ++ [.call (.tree (.delete 3)), .advance])
          ⟨v, 3 :: todo, [], u⟩ ∧ v.heap.mem 3 = none) ∧
      ∃ s, Reaches (Tick.Step 0) (Tick.ofLoop w 0)
          (List.replicate 5 .advance ++ .call (.tree (.setParent 3 (some 4))) ::
            List.replicate 10 .advance) s ∧
        s.Finished ∧ w.heap.ownerOf 3 = some (.loop 0) ∧ w.heap.generationOf 3 = some 3 ∧
        s.world.heap.ownerOf 3 = some (.loop 0) ∧ s.world.heap.generationOf 3 = some 3 ∧
        s.updated.count 3 = 2 :=
    ⟨_, .cons trivial rfl (.cons trivial rfl (.cons trivial rfl (.cons trivial rfl (.nil _)))),
      ⟨_, _, _, .cons trivial (.root rfl) (.cons trivial (.child rfl (by decide) rfl rfl)
        (.cons trivial (.update rfl rfl rfl) (.cons trivial (.leave rfl rfl)
        (.cons trivial (.update rfl rfl rfl) (.cons trivial (.call rfl rfl)
        (.cons trivial (.leave rfl rfl) (.nil _))))))), rfl⟩,
      _, .cons trivial (.root rfl) (.cons trivial (.child rfl (by decide) rfl rfl)
        (.cons trivial (.update rfl rfl rfl) (.cons trivial (.leave rfl rfl)
        (.cons trivial (.update rfl rfl rfl) (.cons trivial (.call rfl rfl)
        (.cons trivial (.leave rfl rfl) (.cons trivial (.root rfl)
        (.cons trivial (.update rfl rfl rfl) (.cons trivial (.leave rfl rfl)
        (.cons trivial (.root rfl) (.cons trivial (.child rfl (by decide) rfl rfl)
        (.cons trivial (.update rfl rfl rfl) (.cons trivial (.leave rfl rfl)
        (.cons trivial (.update rfl rfl rfl) (.cons trivial (.leave rfl rfl)
        (.nil _)))))))))))))))), ⟨rfl, rfl⟩, rfl, rfl, rfl, rfl, rfl⟩
  obtain ⟨w, hbuild, ⟨v, todo, u, hdeleted, hdead⟩, hmoved⟩ := hrun
  have hnot : ¬ v.heap.Live 3 := by
    rw [Heap.Live, hdead]
    exact Bool.false_ne_true
  refine ⟨w, hbuild, ⟨_, hdeleted, Or.inl ⟨rfl, todo, rfl⟩, hnot, fun s' hst => ?_⟩, hmoved⟩
  cases hst with
  | root henter => exact hnot (World.live_of_enterRun henter)

end SimplyNode
