import SimplyNode.ChildQueues

/-!
# Requests Made during a Tick

What becomes of a `deleteLater()` that an `update()` calls while `P->run()` is in progress,
on a child of `P`: the request goes into the queue of `P`, the loop over that queue is over,
and the `clear()` at the end of `P->run()` drops it. The child is still alive when the next
`P->run()` returns.

`Inside` is the invariant of a `P->run()` in which user code only calls `deleteLater`: the
nodes in progress are `P` and nodes below it.

## Main results

* `Tick.Inside.step`: the step lemma.
* `Tick.Spares.run`: a child of `P` with no request in the queue lives on.
* `requests_honoured_iff`: requests of a tick are honoured iff none is for a child of `P`.
-/

open PointerForest Transition

namespace SimplyNode

/-! ### The invariant -/

/-- The world inside `p->run()`, with frames `fs`: the nodes in progress are `p` and nodes
below it, their loops read children of theirs, and the nodes that are left are the nodes of
`w₀`, under their parents. -/
structure World.Inside (w₀ : World) (p : Addr) (fs : List Frame) (w : World) : Prop where
  forested : Forested w
  queuesOwn : w.QueuesOwn
  above : ∀ f ∈ fs, w.heap.Live f.node → Above w.heap.parentOf f.node p
  slots : w.SlotsOwn fs
  origin : ∀ x, w.heap.Live x →
    w.heap.parentOf x = w₀.heap.parentOf x ∧ w.heap.generationOf x = w₀.heap.generationOf x

namespace World.Inside

variable {w₀ w w' : World} {p q c d : Addr} {fs : List Frame}

/-- Deleting a node. -/
theorem delete (hi : Inside w₀ p fs w) (hf' : Forested w') (hd : Deleted w.heap w'.heap q) :
    Inside w₀ p fs w' where
  forested := hf'
  queuesOwn := hi.queuesOwn.delete hi.forested hd
  above f hf hl := by
    obtain ⟨hl, hb⟩ := (hd.live _).mp hl
    exact hd.above hi.forested.linked hb (hi.above f hf hl)
  slots := hi.slots.delete hd
  origin x hx := by
    obtain ⟨hxl, hxb⟩ := (hd.live x).mp hx
    rw [hd.parentOf hxb, hd.generationOf hxb]
    exact hi.origin x hxl

/-- Marks and queues. -/
theorem sameTree (hi : Inside w₀ p fs w) (hs : Heap.SameTree w.heap w'.heap)
    (hf' : Forested w') (hq' : w'.QueuesOwn) : Inside w₀ p fs w' where
  forested := hf'
  queuesOwn := hq'
  above f hf hl := by
    have hpar : w'.heap.parentOf = w.heap.parentOf := funext hs.parentOf
    rw [hpar]
    exact hi.above f hf ((hs.live _).mp hl)
  slots := hi.slots.congr (fun x => hs.map_eq x Node.children fun _ => rfl) hs.parentOf
  origin x hx := by
    rw [hs.parentOf, hs.generationOf]
    exact hi.origin x ((hs.live x).mp hx)

/-- `m_childrenToDelete.clear()`. -/
theorem clearMarked (hi : Inside w₀ p fs w) (h : w.clearMarked q = .ok w') :
    Inside w₀ p fs w' := by
  exact hi.sameTree (clearMarked_ok h).1 (forested_clearMarked hi.forested h)
    (queuesOwn_clearMarked hi.queuesOwn h)

/-- `deleteLater()`. -/
theorem deleteLater (hi : Inside w₀ p fs w) {ctx : CallContext}
    (h : w.deleteLater ctx q = .ok w') : Inside w₀ p fs w' :=
  hi.sameTree (mem_deleteLater h).1 (forested_deleteLater hi.forested h)
    (queuesOwn_deleteLater hi.queuesOwn h)

/-- A frame is added for a node below `p`. -/
theorem push (hi : Inside w₀ p fs w) (hd : Above w.heap.parentOf d p) {n : Node}
    (hm : w.heap.mem d = some n) (b i : ℕ) (u : Bool) :
    Inside w₀ p (⟨d, b, i, n.children.live.length, u⟩ :: fs) w where
  forested := hi.forested
  queuesOwn := hi.queuesOwn
  above f hf hl := by
    rcases List.mem_cons.mp hf with rfl | hf
    · exact hd
    · exact hi.above f hf hl
  slots := hi.slots.push hi.forested.linked hm b i u
  origin := hi.origin

/-- Only the nodes and the ends of the frames matter. -/
theorem frames (hi : Inside w₀ p fs w) {fs' : List Frame}
    (h : ∀ f ∈ fs', ∃ g ∈ fs, f.node = g.node ∧ f.stop = g.stop) : Inside w₀ p fs' w where
  forested := hi.forested
  queuesOwn := hi.queuesOwn
  above f hf hl := by
    obtain ⟨g, hg, hn, -⟩ := h f hf
    rw [hn] at hl ⊢
    exact hi.above g hg hl
  slots := hi.slots.frames h
  origin := hi.origin

/-- **The start of `run()`** of a node below `p`. A child of `p` is not deleted by it, unless
the node is `p` itself. -/
theorem enterRun (hi : Inside w₀ p fs w) (hd : Above w.heap.parentOf d p) {f : Frame}
    (h : w.enterRun d = .ok (w', f)) : Inside w₀ p (f :: fs) w' ∧
      ∀ c, d ≠ p → w.heap.parentOf c = some p → w'.heap.Live c := by
  obtain ⟨r, n, hr, hclear, hm, rfl⟩ := enterRun_ok h
  -- what every deletion of a child of `d` keeps
  let I : World → List Addr → Prop := fun u _ => Inside w₀ p fs u ∧
    (u.heap.Live d → Above u.heap.parentOf d p) ∧
    ∀ c, d ≠ p → w.heap.parentOf c = some p → u.heap.parentOf c = some p
  have hI : ∀ u l q u', I u l → Forested u → u.heap.parentOf q = some d → u.delete q = .ok u' →
      Forested u' → Deleted u.heap u'.heap q → I u' (l ++ [q]) := by
    rintro u l q u' ⟨hu, habove, hkids⟩ hfu hqd - hfu' hdel
    refine ⟨hu.delete hfu' hdel, fun hl => ?_, fun c hdp hc => ?_⟩
    · obtain ⟨hl, hb⟩ := (hdel.live d).mp hl
      exact hdel.above hfu.linked hb (habove hl)
    · have hcp := hkids c hdp hc
      rw [hdel.parentOf fun hb => ?_]
      · exact hcp
      · -- otherwise `p` would be above one of its own children
        have hdl : u.heap.Live d := hfu.linked.live_parent hqd
        rw [hfu.linked.below_iff_above] at hb
        rcases Relation.ReflTransGen.cases_head hb with rfl | ⟨y, hy, hyq⟩
        · exact hdp (Option.some.inj (hqd.symm.trans hcp))
        · obtain rfl := Option.some.inj (hy.symm.trans hcp)
          exact hdp (hfu.above_antisymm (habove hdl) (hyq.tail hqd))
  obtain ⟨hfr, hir, habove, hkids⟩ := deleteMarked_rule hI hi.forested hi.queuesOwn
    ⟨hi, fun _ => hd, fun _ _ hc => hc⟩ hr
  obtain ⟨hs, -⟩ := clearMarked_ok hclear
  have hpar : w'.heap.parentOf = r.1.heap.parentOf := funext hs.parentOf
  have hlive : r.1.heap.Live d := (hs.live d).mp (by rw [Heap.Live, hm]; rfl)
  refine ⟨(hir.clearMarked hclear).push (hpar ▸ habove hlive) hm _ _ _, fun c hdp hc => ?_⟩
  exact (hs.live c).mpr (Heap.live_of_parentOf (hkids c hdp hc))

end World.Inside

/-! ### Whole runs -/

/-- A behaviour of `update()` in which each of its calls is a `deleteLater`. -/
def OnlyRequests (_ : Tick) (l : TickStep) : Prop := ∀ c, l = .call c → ∃ a, c = .deleteLater a

/-- The invariant of `p->run()`, as a tick. -/
structure Tick.Inside (w₀ : World) (p : Addr) (s : Tick) : Prop where
  world : World.Inside w₀ p s.stack s.world
  todo : s.todo = [] ∨ s.todo = [p] ∧ s.stack = []
  bottom : ∀ f, s.stack.getLast? = some f → f.node = p

/-- The node at `c` is left alone: it is alive, and when no `run()` is in progress the queue
of `p` is empty. -/
structure Tick.Spares (p c : Addr) (s : Tick) : Prop where
  live : s.world.heap.Live c
  empty : s.stack = [] → ∀ n, s.world.heap.mem p = some n → n.childrenToDelete.live = []

namespace Tick

variable {w₀ w : World} {p c : Addr} {s s' : Tick} {t : ThreadId} {l : TickStep}
  {ls : List TickStep}

/-- `p->run()` is about to be called. -/
theorem inside_ofRun (hw : World.Inside w₀ p [] w) : Inside w₀ p (Tick.ofRun w p) where
  world := hw
  todo := Or.inr ⟨rfl, rfl⟩
  bottom _ hf := absurd hf (by simp [Tick.ofRun])

/-- The child that the loop of a `run()` reads is a node below `p`. -/
theorem Inside.read {f : Frame} {fs : List Frame} {todo : List Addr} {u : List Generation}
    (hi : Inside w₀ p ⟨w, todo, f :: fs, u⟩) (hlt : f.next < f.stop)
    (hread : w.readSlot f.node Node.children f.buffer f.next = .ok c) (hc : w.heap.Live c) :
    Above w.heap.parentOf c p ∧ c ≠ p := by
  have hpc := hi.world.slots.read List.mem_cons_self hlt hread hc
  obtain ⟨n, hn, -⟩ := World.readSlot_ok hread
  have hfl : w.heap.Live f.node := by
    rw [Heap.Live, hn]
    rfl
  have habove := hi.world.above f List.mem_cons_self hfl
  refine ⟨.head hpc habove, ?_⟩
  rintro rfl
  exact (hi.world.forested.grounded c).not_cycle hpc habove

/-- The node at the bottom, when the frame on top goes on. -/
theorem bottom_head {f f' x : Frame} {fs : List Frame}
    (h : ∀ x, (f :: fs).getLast? = some x → x.node = p) (hx : (f' :: fs).getLast? = some x)
    (hn : f'.node = f.node) : x.node = p := by
  cases fs with
  | nil =>
      obtain rfl : f' = x := by simpa using hx
      exact hn.trans (h f rfl)
  | cons e fs =>
      rw [List.getLast?_cons_cons] at hx
      exact h x (by rw [List.getLast?_cons_cons]; exact hx)

/-- **The step lemma of the invariant.** -/
theorem Inside.step (hi : Inside w₀ p s) (hl : OnlyRequests s l) (hst : Step t s l s') :
    Inside w₀ p s' := by
  cases hst with
  | @root w w' a todo f u henter =>
      obtain ⟨rfl, rfl⟩ : a = p ∧ todo = [] := by simpa using hi.todo
      exact
        { world := (hi.world.enterRun .refl henter).1
          todo := Or.inl rfl
          bottom := fun g hg => by
            obtain rfl : f = g := by simpa using hg
            obtain ⟨r, n, -, -, -, hfr⟩ := World.enterRun_ok henter
            rw [hfr] }
  | @child w w' d todo f g fs u _ hlt hread henter =>
      obtain ⟨habove, -⟩ := hi.read hlt hread (World.live_of_enterRun henter)
      refine ⟨((hi.world.enterRun habove henter).1).frames fun x hx => ?_, ?_, fun x hx => ?_⟩
      · rcases List.mem_cons.mp hx with rfl | hx
        · exact ⟨x, List.mem_cons_self, rfl, rfl⟩
        · rcases List.mem_cons.mp hx with rfl | hx
          · exact ⟨f, by simp, rfl, rfl⟩
          · exact ⟨x, by simp [hx], rfl, rfl⟩
      · exact hi.todo.imp_right fun h => absurd h.2 (by simp)
      · rw [List.getLast?_cons_cons] at hx
        exact bottom_head hi.bottom hx rfl
  | @update w n todo f fs u _ _ hm =>
      refine ⟨hi.world.frames fun x hx => ?_, ?_, fun x hx => ?_⟩
      · rcases List.mem_cons.mp hx with rfl | hx
        · exact ⟨f, by simp, rfl, rfl⟩
        · exact ⟨x, by simp [hx], rfl, rfl⟩
      · exact hi.todo.imp_right fun h => absurd h.2 (by simp)
      · exact bottom_head hi.bottom hx rfl
  | @call w w' c todo f fs u _ happly =>
      obtain ⟨a, rfl⟩ := hl c rfl
      exact ⟨hi.world.deleteLater happly, hi.todo, hi.bottom⟩
  | @leave w w' todo f fs u _ hclear =>
      refine ⟨(hi.world.clearMarked hclear).frames fun x hx => ⟨x, by simp [hx], rfl, rfl⟩,
        Or.inl ?_, fun x hx => hi.bottom x ?_⟩
      · exact hi.todo.resolve_right fun h => absurd h.2 (by simp)
      · cases fs with
        | nil => exact absurd hx (by simp)
        | cons e fs =>
            rw [List.getLast?_cons_cons]
            exact hx

/-- **No step deletes a child of `p`** for which there is no request when `p->run()` starts. -/
theorem Spares.step (hs : Spares p c s) (hi : Inside w₀ p s) (hc : w₀.heap.parentOf c = some p)
    (hl : OnlyRequests s l) (hst : Step t s l s') : Spares p c s' := by
  have hpc : s.world.heap.parentOf c = some p := (hi.world.origin c hs.live).1.trans hc
  cases hst with
  | @root w w' a todo f u henter =>
      obtain ⟨rfl, -⟩ : a = p ∧ todo = [] := by simpa using hi.todo
      obtain ⟨n, hn⟩ := Option.isSome_iff_exists.mp (World.live_of_enterRun henter)
      obtain ⟨r, m, hr, hclear, -, -⟩ := World.enterRun_ok henter
      obtain rfl := Except.ok.inj
        ((World.deleteMarked_of_empty hn (hs.empty rfl n hn)).symm.trans hr)
      exact ⟨((World.clearMarked_ok hclear).1.live c).mpr hs.live, fun h => absurd h (by simp)⟩
  | @child w w' d todo f g fs u _ hlt hread henter =>
      obtain ⟨habove, hne⟩ := hi.read hlt hread (World.live_of_enterRun henter)
      exact ⟨(hi.world.enterRun habove henter).2 c hne hpc, fun h => absurd h (by simp)⟩
  | update => exact ⟨hs.live, fun h => absurd h (by simp)⟩
  | @call w w' c' todo f fs u _ happly =>
      obtain ⟨a, rfl⟩ := hl c' rfl
      exact ⟨((World.mem_deleteLater happly).1.live c).mpr hs.live, fun h => absurd h (by simp)⟩
  | @leave w w' todo f fs u _ hclear =>
      obtain ⟨hsame, hw⟩ := World.clearMarked_ok hclear
      refine ⟨(hsame.live c).mpr hs.live, fun hfs n hn => ?_⟩
      obtain rfl : fs = [] := hfs
      have hfp : f.node = p := hi.bottom f rfl
      simp only [hw, ← hfp, World.heap_modifyNode, Heap.mem_modifyNode_self] at hn
      obtain ⟨m, -, rfl⟩ := Option.map_eq_some_iff.mp hn
      rfl

/-- The invariant at the end of a run. -/
theorem Inside.run (hi : Inside w₀ p s) (h : Run (Step t) OnlyRequests s ls s') :
    Inside w₀ p s' :=
  h.invariant (fun _ _ _ hi hl hst => hi.step hl hst) hi

/-- **A child of `p` that is spared lives on** to the end of the run. -/
theorem Spares.run (hs : Spares p c s) (hi : Inside w₀ p s) (hc : w₀.heap.parentOf c = some p)
    (h : Run (Step t) OnlyRequests s ls s') : Spares p c s' :=
  (h.invariant (I := fun s => Inside w₀ p s ∧ Spares p c s)
    (fun _ _ _ hI hl hst => ⟨hI.1.step hl hst, hI.2.step hI.1 hc hl hst⟩) ⟨hi, hs⟩).2

/-- **A request for a child of `p` is dropped**: at the end of the run the child is alive,
and the queue of `p` is empty. -/
theorem spares_of_request (hi : Inside w₀ p s) (hc : w₀.heap.parentOf c = some p)
    (h : Run (Step t) OnlyRequests s ls s') (hmem : .call (.deleteLater c) ∈ ls) :
    Spares p c s' := by
  obtain ⟨u, u', ls₁, ls₂, h₁, hl, hst, h₂⟩ := h.exists_step_of_mem hmem
  have hu := hi.run h₁
  refine Spares.run ?_ (hu.step hl hst) hc h₂
  cases hst with
  | @call w w' c' todo f fs v _ happly =>
      obtain ⟨n, hn, -⟩ := Outcome.bind_eq_ok.mp happly
      refine ⟨((World.mem_deleteLater happly).1.live c).mpr ?_, fun h => absurd h (by simp)⟩
      rw [Heap.Live, (Heap.node_eq_ok _).mp hn]
      rfl

end Tick

/-! ### The requests of a tick -/

/-- Every child of `p` for which the steps `ls` make a request is destroyed when the state
`s` is reached. -/
def RequestsHonoured (w : World) (p : Addr) (ls : List TickStep) (s : Tick) : Prop :=
  ∀ c, .call (.deleteLater c) ∈ ls → w.heap.parentOf c = some p →
    ∀ g, w.heap.generationOf c = some g → (s.world.heap.blocks g).alive = false

/-- **The requests of a tick are honoured iff none is for a child of `p`**: the `clear()` at
the end of `p->run()` drops every such request, and the child is still alive when the next
`p->run()` returns. `s₂` is any state of that run, its end in particular. -/
theorem requests_honoured_iff {t : ThreadId} {w : World} {p : Addr} {s₁ s₂ : Tick}
    {ls₁ ls₂ : List TickStep} (hf : Forested w) (hq : w.QueuesOwn)
    (h₁ : Run (Tick.Step t) OnlyRequests (Tick.ofRun w p) ls₁ s₁) (hs₁ : s₁.Finished)
    (h₂ : Run (Tick.Step t) OnlyRequests (Tick.ofRun s₁.world p) ls₂ s₂) :
    RequestsHonoured w p ls₁ s₂ ↔
      ∀ c, .call (.deleteLater c) ∈ ls₁ → w.heap.parentOf c ≠ some p := by
  constructor
  · intro hall c hc hpc
    have hstart : World.Inside w p [] w :=
      ⟨hf, hq, fun f hf => absurd hf List.not_mem_nil, fun f hf => absurd hf List.not_mem_nil,
        fun x _ => ⟨rfl, rfl⟩⟩
    have hi₁ := (Tick.inside_ofRun hstart).run h₁
    have hspare := Tick.spares_of_request (Tick.inside_ofRun hstart) hpc h₁ hc
    have hagain : Tick.Inside w p (Tick.ofRun s₁.world p) :=
      Tick.inside_ofRun (hs₁.2 ▸ hi₁.world)
    have hbetween : Tick.Spares p c (Tick.ofRun s₁.world p) :=
      ⟨hspare.live, fun _ => hspare.empty hs₁.2⟩
    have hlast : Tick.Spares p c s₂ := hbetween.run hagain hpc h₂
    obtain ⟨g, hg⟩ : ∃ g, s₂.world.heap.generationOf c = some g :=
      Option.isSome_iff_exists.mp (by rw [Heap.generationOf, Option.isSome_map]; exact hlast.live)
    have hi₂ := hagain.run h₂
    have hg₀ : w.heap.generationOf c = some g :=
      (hi₂.world.origin c hlast.live).2.symm.trans hg
    have halive := hi₂.world.forested.named.alive c g hg
    rw [hall c hc hpc g hg₀] at halive
    exact absurd halive (by simp)
  · intro hnone c hc hpc
    exact absurd hpc (hnone c hc)

/-- A root, its child, and a child of the child, in the event loop of thread 0. -/
def chain : List TreeOp :=
  [.construct 1 .plain none, .construct 2 .plain (some 1), .construct 3 .plain (some 2)]

theorem onlyRequests_advance (s : Tick) : OnlyRequests s .advance :=
  fun _ h => absurd h (by simp)

theorem onlyRequests_call (s : Tick) (a : Addr) : OnlyRequests s (.call (.deleteLater a)) :=
  fun _ h => ⟨a, (TickStep.call.inj h).symm⟩

/-- The `update()` of the root requests the deletion of the child of its child: the next
`run()` of the root honours it. -/
theorem grandchild_request_honoured : ∃ w s₁ s₂, w.heap.generationOf 3 = some 3 ∧
    Reaches (Tick.Step 0) (Tick.ofRun w 1) [.advance, .advance, .advance, .advance, .advance,
      .advance, .advance, .advance, .call (.deleteLater 3), .advance] s₁ ∧ s₁.Finished ∧
    Reaches (Tick.Step 0) (Tick.ofRun s₁.world 1) (List.replicate 6 .advance) s₂ ∧
    s₂.Finished ∧ (s₂.world.heap.blocks 3).alive = false ∧
    RequestsHonoured w 1 [.advance, .advance, .advance, .advance, .advance,
      .advance, .advance, .advance, .call (.deleteLater 3), .advance] s₂ := by
  have hbuilt : ∃ w, Run (TreeStep 0 (.loop 0)) World.Unqueued (World.initial 0 0) chain w ∧
      w.heap.generationOf 3 = some 3 ∧ w.heap.parentOf 3 = some 2 ∧
      ∃ s₁, Run (Tick.Step 0) OnlyRequests (Tick.ofRun w 1) [.advance, .advance, .advance,
        .advance, .advance, .advance, .advance, .advance, .call (.deleteLater 3), .advance] s₁ ∧
        s₁.Finished ∧
      ∃ s₂, Run (Tick.Step 0) OnlyRequests (Tick.ofRun s₁.world 1)
        (List.replicate 6 .advance) s₂ ∧ s₂.Finished ∧
        (s₂.world.heap.blocks 3).alive = false := by
    have adv := onlyRequests_advance
    refine ⟨_, .cons (World.unqueued_construct ..) rfl (.cons (World.unqueued_construct ..) rfl
      (.cons (World.unqueued_construct ..) rfl (.nil _))), rfl, rfl, _,
      .cons (adv _) (.root rfl) (.cons (adv _) (.child rfl (by decide) rfl rfl)
      (.cons (adv _) (.child rfl (by decide) rfl rfl) (.cons (adv _) (.update rfl rfl rfl)
      (.cons (adv _) (.leave rfl rfl) (.cons (adv _) (.update rfl rfl rfl)
      (.cons (adv _) (.leave rfl rfl) (.cons (adv _) (.update rfl rfl rfl)
      (.cons (onlyRequests_call _ 3) (.call rfl rfl) (.cons (adv _) (.leave rfl rfl)
      (.nil _)))))))))), ⟨rfl, rfl⟩, _,
      .cons (adv _) (.root rfl) (.cons (adv _) (.child rfl (by decide) rfl rfl)
      (.cons (adv _) (.update rfl rfl rfl) (.cons (adv _) (.leave rfl rfl)
      (.cons (adv _) (.update rfl rfl rfl) (.cons (adv _) (.leave rfl rfl) (.nil _)))))),
      ⟨rfl, rfl⟩, rfl⟩
  obtain ⟨w, hrun, hgen, hpar, s₁, h₁, hs₁, s₂, h₂, hs₂, hdead⟩ := hbuilt
  obtain ⟨hf, hq⟩ := World.queuesOwn_of_run (World.unused_initial 0 0)
    (fun s hs => absurd hs (by simp)) hrun
  refine ⟨w, s₁, s₂, hgen, h₁.forget, hs₁, h₂.forget, hs₂, hdead,
    (requests_honoured_iff hf hq h₁ hs₁ h₂).mpr fun c hc hpc => ?_⟩
  obtain rfl : c = 3 := by simpa using hc
  rw [hpar] at hpc
  exact absurd hpc (by decide)

/-- **A child that requests its own deletion in its `update()` lives on**: `clear()` drops the
request at the end of the same `run()`, and the next `run()` updates the child again. -/
theorem own_request_dropped : ∃ w s₁ s₂,
    Reaches (TreeStep 0 (.loop 0)) (World.initial 0 0) (chain.take 2) w ∧
    w.heap.parentOf 2 = some 1 ∧
    Reaches (Tick.Step 0) (Tick.ofRun w 1) [.advance, .advance, .advance,
      .call (.deleteLater 2), .advance, .advance, .advance] s₁ ∧ s₁.Finished ∧
    (s₁.world.heap.blocks 2).markedForDelete = true ∧
    Reaches (Tick.Step 0) (Tick.ofRun s₁.world 1) (List.replicate 6 .advance) s₂ ∧
    s₂.Finished ∧
    ¬ RequestsHonoured w 1 [.advance, .advance, .advance, .call (.deleteLater 2), .advance,
      .advance, .advance] s₂ := by
  have hbuilt : ∃ w, Reaches (TreeStep 0 (.loop 0)) (World.initial 0 0) (chain.take 2) w ∧
      w.heap.parentOf 2 = some 1 ∧ w.heap.generationOf 2 = some 2 ∧
      ∃ s₁, Reaches (Tick.Step 0) (Tick.ofRun w 1) [.advance, .advance, .advance,
        .call (.deleteLater 2), .advance, .advance, .advance] s₁ ∧ s₁.Finished ∧
        (s₁.world.heap.blocks 2).markedForDelete = true ∧
      ∃ s₂, Reaches (Tick.Step 0) (Tick.ofRun s₁.world 1) (List.replicate 6 .advance) s₂ ∧
        s₂.Finished ∧ (s₂.world.heap.blocks 2).alive = true := by
    refine ⟨_, .cons trivial rfl (.cons trivial rfl (.nil _)), rfl, rfl, _,
      .cons trivial (.root rfl) (.cons trivial (.child rfl (by decide) rfl rfl)
      (.cons trivial (.update rfl rfl rfl) (.cons trivial (.call rfl rfl)
      (.cons trivial (.leave rfl rfl) (.cons trivial (.update rfl rfl rfl)
      (.cons trivial (.leave rfl rfl) (.nil _))))))), ⟨rfl, rfl⟩, rfl, _,
      .cons trivial (.root rfl) (.cons trivial (.child rfl (by decide) rfl rfl)
      (.cons trivial (.update rfl rfl rfl) (.cons trivial (.leave rfl rfl)
      (.cons trivial (.update rfl rfl rfl) (.cons trivial (.leave rfl rfl) (.nil _)))))),
      ⟨rfl, rfl⟩, rfl⟩
  obtain ⟨w, hrun, hpar, hgen, s₁, h₁, hs₁, hmark, s₂, h₂, hs₂, halive⟩ := hbuilt
  refine ⟨w, s₁, s₂, hrun, hpar, h₁, hs₁, hmark, h₂, hs₂, fun hall => ?_⟩
  have hdead := hall 2 (by simp) hpar 2 hgen
  rw [halive] at hdead
  exact absurd hdead (by simp)

end SimplyNode
