import SimplyNode.TickRequests

/-!
# Deferred Deletes and Reused Addresses

The lists of pending deletes hold plain addresses. Between a request and the moment an
executor works through its list, the node may be deleted directly, and the allocator may hand
its address to a new node; the liveness check of the executor only sees that an object is at
the address.

`Drain` is a state of any number of executors in the middle of their lists, `DrainStep` what
can happen next: constructions, direct deletes, requests from inside and outside the owners,
the tasks that are posted for them, and single entries of the lists.

## Main results

* `Drain.Step.effect`: what a step can do.
* `Drain.onlyRequested_step`: the step lemma.
* `Drain.construct_breaks`: constructing at a listed address makes the executor hold a node
  that nobody asked to delete.
* `run_unlisted_iff_onlyRequested`: lists hold requested nodes only iff no node is constructed
  at a listed address.
-/

open Transition

namespace SimplyNode

/-! ### The system -/

/-- Executors that work through their lists of pending deletes. `batch e` is what is left of
the lists that `e` has taken, the last one first. The code keeps no record of the requests:
`requested` lists the generations of the nodes that `deleteLater` has been called on. -/
structure Drain where
  world : World
  batch : ExecutorId → List Addr := fun _ => []
  requested : List Generation := []

/-- What can happen next. -/
inductive DrainStep
  /-- `new` of a node. -/
  | construct (ctx : CallContext) (a : Addr) (cls : NodeClass) (parent : Option Addr)
  /-- `delete` of a node. -/
  | delete (a : Addr)
  /-- `deleteLater()`. -/
  | deleteLater (ctx : CallContext) (a : Addr)
  /-- An executor runs its next task. -/
  | runTask (e : ExecutorId)
  /-- An executor takes its list of pending deletes. -/
  | take (e : ExecutorId)
  /-- An executor comes to the next entry of the list it has taken. -/
  | deleteNext (e : ExecutorId)
  deriving DecidableEq

namespace Drain

/-- The effect of a step. -/
def apply (s : Drain) : DrainStep → Outcome Drain
  | .construct ctx a cls parent => do
      let w ← s.world.construct ctx a cls parent
      pure { s with world := w }
  | .delete a => do
      let w ← s.world.delete a
      pure { s with world := w }
  | .deleteLater ctx a => do
      let w ← s.world.deleteLater ctx a
      pure { s with world := w, requested := (s.world.heap.generationOf a).toList ++ s.requested }
  | .runTask e => do
      let w ← s.world.runNextTask e
      pure { s with world := w }
  | .take e =>
      let (list, x) := s.world.execs.takePendingDeletes e
      pure { s with
        world := s.world.withExecs x
        batch := Function.update s.batch e (list ++ s.batch e) }
  | .deleteNext e =>
      match s.batch e with
      | [] => pure s
      | a :: rest => do
          let w ← s.world.deleteIfAlive a
          pure { s with world := w, batch := Function.update s.batch e rest }

/-- Code that constructs a node inside a strand runs in a strand that exists. -/
def Possible (s : Drain) : DrainStep → Prop
  | .construct ctx _ _ _ => ∀ t, ctx.strand = some t → t < s.world.execs.nextStrand
  | _ => True

/-- A step of the system. -/
def Step (s : Drain) (l : DrainStep) (s' : Drain) : Prop := s.Possible l ∧ s.apply l = .ok s'

/-- The executor has the address in its list, or in what is left of a list it has taken. -/
def Listed (s : Drain) (e : ExecutorId) (a : Addr) : Prop :=
  a ∈ s.world.execs.pendingDeletes e ∨ a ∈ s.batch e

/-- Every node that an executor has listed has been requested. -/
def OnlyRequested (s : Drain) : Prop :=
  ∀ e a, s.Listed e a → ∀ g, s.world.heap.generationOf a = some g → g ∈ s.requested

/-- If the step deletes a node out of a list, `deleteLater` was called on this very node. -/
def DeletesRequested (s : Drain) (l : DrainStep) : Prop :=
  ∀ e a rest, l = .deleteNext e → s.batch e = a :: rest →
    ∀ g, s.world.heap.generationOf a = some g → g ∈ s.requested

/-- No node is constructed at an address that an executor has listed. -/
def Unlisted (s : Drain) : DrainStep → Prop
  | .construct _ a _ _ => ∀ e, ¬ s.Listed e a
  | _ => True

/-- The invariant apart from the lists: the state is consistent, what is posted are requests
that have been made, and the record of requests holds generations that have been given. -/
structure Recorded (s : Drain) : Prop where
  consistent : Consistent s.world
  posted : ∀ e t, t ∈ s.world.execs.tasks e → ∃ a g, t = .deleteNode a g ∧ g ∈ s.requested
  given : ∀ g ∈ s.requested, g < s.world.heap.nextGeneration

variable {s s' : Drain} {l : DrainStep} {e : ExecutorId} {a : Addr}

/-! ### What the steps do -/

/-- An object that is there after a tree has been taken down was there before. -/
theorem generationOf_delete {w w' : World} (hc : Consistent w) (h : w.delete a = .ok w')
    {x : Addr} {g : Generation} (hg : w'.heap.generationOf x = some g) :
    w.heap.generationOf x = some g := by
  obtain ⟨u, hu, -, rfl⟩ := hc.sound.delete (World.live_of_delete h)
  obtain rfl := Except.ok.inj (hu.symm.trans h)
  rw [World.heap_without, Heap.generationOf_without] at hg
  split at hg
  · exact absurd hg (by simp)
  · rwa [(w.sameNodes_unlink a).generationOf] at hg

theorem nextGeneration_delete {w w' : World} (hc : Consistent w) (h : w.delete a = .ok w') :
    w'.heap.nextGeneration = w.heap.nextGeneration := by
  obtain ⟨u, hu, -, rfl⟩ := hc.sound.delete (World.live_of_delete h)
  obtain rfl := Except.ok.inj (hu.symm.trans h)
  exact (w.sameNodes_unlink a).nextGeneration

/-- A new node has the next generation; the others stay. -/
theorem generationOf_construct {w w' : World} {ctx : CallContext} {cls : NodeClass}
    {v : Option Addr} (hc : Consistent w) (h : w.construct ctx a cls v = .ok w') :
    (∀ x, w'.heap.generationOf x =
      if x = a then some w.heap.nextGeneration else w.heap.generationOf x) ∧
      w'.heap.nextGeneration = w.heap.nextGeneration + 1 := by
  have ha := (World.construct_ok h).1
  cases v with
  | none =>
      obtain rfl := Except.ok.inj
        ((World.construct_root ha (World.strand_of_construct h)).symm.trans h)
      exact ⟨Heap.generationOf_born, rfl⟩
  | some p =>
      obtain ⟨hp, hctx⟩ := World.live_of_construct h
      obtain rfl := Except.ok.inj
        ((World.construct_child hc.sound.named ha hp hctx).symm.trans h)
      have hs : Heap.SameNodes (w.heap.born a cls (some p) (w.heap.ownerOf p)) _ :=
        Heap.sameNodes_listChild (v := some p) (a := a)
      refine ⟨fun x => ?_, hs.nextGeneration⟩
      rw [hs.generationOf, Heap.generationOf_born]

/-- A successful step on the world. -/
theorem bind_world_ok {o : Outcome World} {f : World → Drain}
    (h : (do let w ← o; pure (f w)) = Except.ok s') : ∃ w, o = .ok w ∧ s' = f w := by
  obtain ⟨w, hw, h⟩ := Outcome.bind_eq_ok.mp h
  exact ⟨w, hw, (Except.ok.inj h).symm⟩

/-- What `deleteLater` does to the lists and the tasks. -/
theorem deleteLater_queues {w w' : World} {ctx : CallContext}
    (h : w.deleteLater ctx a = .ok w') :
    Heap.SameTree w.heap w'.heap ∧
      (∀ e x, x ∈ w'.execs.pendingDeletes e → x = a ∨ x ∈ w.execs.pendingDeletes e) ∧
      ∀ e t, t ∈ w'.execs.tasks e → t ∈ w.execs.tasks e ∨
        ∃ g, w.heap.generationOf a = some g ∧ t = .deleteNode a g := by
  obtain ⟨n, k, hm, hs, -, hcases⟩ := World.deleteLater_cases h
  have hg : w.heap.generationOf a = some n.generation := by simp [Heap.generationOf, hm]
  rcases hcases with ⟨o, -, rfl⟩ | ⟨o, -, -, rfl⟩ | ⟨p, k', -, hk', rfl⟩
  · refine ⟨hs, fun e x hx => Or.inr (Executors.pendingDeletes_post e hx), fun e t ht => ?_⟩
    rcases Executors.mem_tasks_post ht with rfl | ht
    · exact Or.inr ⟨n.generation, hg, rfl⟩
    · exact Or.inl ht
  · refine ⟨hs, fun e x hx => ?_, fun e t ht => Or.inl ?_⟩
    · exact (Executors.mem_pendingDeletes_enqueueDelete hx).imp_left And.left
    · rwa [World.execs_withExecs, Executors.tasks_enqueueDelete] at ht
  · exact ⟨hs.trans (Heap.pushDeleteChild_ok hk').1, fun e x hx => Or.inr hx,
      fun e t ht => Or.inl ht⟩

/-- What the task of a request does: it is dropped, forwarded, or the node that it was made
for is listed. -/
theorem runDeleteTask_queues {w : World} (g : Generation) (hn : w.heap.Names a g) :
    (w.runDeleteTask e a g).heap = w.heap ∧
      (∀ o x, x ∈ (w.runDeleteTask e a g).execs.pendingDeletes o →
        (x = a ∧ w.heap.generationOf a = some g) ∨ x ∈ w.execs.pendingDeletes o) ∧
      ∀ o t, t ∈ (w.runDeleteTask e a g).execs.tasks o →
        t = .deleteNode a g ∨ t ∈ w.execs.tasks o := by
  have henqueue : (w.heap.blocks g).alive = true →
      (∀ o x, x ∈ (w.execs.enqueueDelete e a).pendingDeletes o →
        (x = a ∧ w.heap.generationOf a = some g) ∨ x ∈ w.execs.pendingDeletes o) ∧
      ∀ o t, t ∈ (w.execs.enqueueDelete e a).tasks o →
        t = .deleteNode a g ∨ t ∈ w.execs.tasks o := by
    intro halive
    refine ⟨fun o x hx => ?_, fun o t ht => Or.inr ?_⟩
    · rcases Executors.mem_pendingDeletes_enqueueDelete hx with ⟨rfl, -⟩ | hx
      · exact Or.inl ⟨rfl, hn.2 halive⟩
      · exact Or.inr hx
    · rwa [Executors.tasks_enqueueDelete] at ht
  rw [World.runDeleteTask]
  split <;> rename_i halive
  · exact ⟨rfl, fun o x hx => Or.inr hx, fun o t ht => Or.inr ht⟩
  · have halive : (w.heap.blocks g).alive = true := by simpa using halive
    split
    · split
      · exact ⟨rfl, fun o x hx => Or.inr (Executors.pendingDeletes_post o hx),
          fun o t ht => Executors.mem_tasks_post ht⟩
      · exact ⟨rfl, henqueue halive⟩
    · exact ⟨rfl, henqueue halive⟩

/-- What the next task of an executor does, when all tasks are requests. -/
theorem runNextTask_queues {w w' : World} {R : List Generation} (hc : Consistent w)
    (hR : ∀ e t, t ∈ w.execs.tasks e → ∃ a g, t = .deleteNode a g ∧ g ∈ R)
    (h : w.runNextTask e = .ok w') :
    w'.heap = w.heap ∧
      (∀ o x, x ∈ w'.execs.pendingDeletes o → x ∈ w.execs.pendingDeletes o ∨
        ∃ g ∈ R, w.heap.generationOf x = some g) ∧
      ∀ o t, t ∈ w'.execs.tasks o → ∃ a g, t = .deleteNode a g ∧ g ∈ R := by
  unfold World.runNextTask at h
  split at h
  · obtain rfl := Except.ok.inj h
    exact ⟨rfl, fun o x hx => Or.inl hx, hR⟩
  · rename_i t x hpop
    obtain ⟨hq, hmem⟩ := Executors.nothingQueued_popTask hpop
    obtain ⟨a, g, rfl, hg⟩ := hR e t hmem
    obtain rfl := Except.ok.inj h
    obtain ⟨hheap, hpend, htask⟩ :=
      runDeleteTask_queues (w := w.withExecs x) (e := e) g (hc.names e _ hmem)
    refine ⟨hheap, fun o y hy => ?_, fun o t ht => ?_⟩
    · rcases hpend o y hy with ⟨rfl, hgen⟩ | hy
      · exact Or.inr ⟨g, hg, hgen⟩
      · exact Or.inl (hq.pendingDeletes o hy)
    · rcases htask o t ht with rfl | ht
      · exact ⟨a, g, rfl, hg⟩
      · exact hR o t (hq.tasks o ht)

/-- **What a step can do**: apart from constructions no object is new, and what is newly listed
has been requested. -/
structure Effect (s : Drain) (l : DrainStep) (s' : Drain) : Prop where
  recorded : Recorded s'
  generation : ∀ x g, s'.world.heap.generationOf x = some g →
    s.world.heap.generationOf x = some g ∨ ∃ ctx cls v, l = .construct ctx x cls v
  listed : ∀ e x, s'.Listed e x → s.Listed e x ∨
    ∀ g, s.world.heap.generationOf x = some g → g ∈ s'.requested
  requested : s.requested ⊆ s'.requested

/-- A step that makes no request and constructs nothing. -/
theorem Effect.of_same (hr : Recorded s) (hreq : s'.requested = s.requested)
    (hc : Consistent s'.world)
    (hgen : ∀ x g, s'.world.heap.generationOf x = some g →
      s.world.heap.generationOf x = some g)
    (hnext : s'.world.heap.nextGeneration = s.world.heap.nextGeneration)
    (hpend : ∀ e x, x ∈ s'.world.execs.pendingDeletes e → x ∈ s.world.execs.pendingDeletes e ∨
      ∃ g ∈ s.requested, s.world.heap.generationOf x = some g)
    (hbatch : ∀ e x, x ∈ s'.batch e → s.Listed e x)
    (htask : ∀ e t, t ∈ s'.world.execs.tasks e → ∃ a g, t = .deleteNode a g ∧ g ∈ s.requested) :
    Effect s l s' where
  recorded :=
    { consistent := hc
      posted := fun e t ht => hreq ▸ htask e t ht
      given := fun g hg => hnext ▸ hr.given g (hreq ▸ hg) }
  generation x g hg := Or.inl (hgen x g hg)
  listed e x hx := by
    rcases hx with hx | hx
    · rcases hpend e x hx with hx | ⟨g, hg, hxg⟩
      · exact Or.inl (Or.inl hx)
      · refine Or.inr fun g' hg' => ?_
        obtain rfl := Option.some.inj (hxg.symm.trans hg')
        exact hreq ▸ hg
    · exact Or.inl (hbatch e x hx)
  requested := hreq ▸ List.Subset.refl _

/-- Taking down the node at an address. -/
theorem Effect.delete {w : World} (hr : Recorded s) (hw : s.world.delete a = .ok w)
    (hworld : s'.world = w) (hreq : s'.requested = s.requested)
    (hbatch : ∀ e x, x ∈ s'.batch e → s.Listed e x) : Effect s l s' := by
  subst hworld
  obtain ⟨u, hu, hc⟩ := hr.consistent.delete (World.live_of_delete hw)
  obtain rfl := Except.ok.inj (hu.symm.trans hw)
  have hq := World.nothingQueued_delete hw
  exact .of_same hr hreq hc (fun x g => generationOf_delete hr.consistent hw)
    (nextGeneration_delete hr.consistent hw) (fun e x hx => Or.inl (hq.pendingDeletes e hx))
    hbatch fun e t ht => hr.posted e t (hq.tasks e ht)

/-- A new node. -/
theorem Effect.construct {w : World} {ctx : CallContext} {cls : NodeClass} {v : Option Addr}
    (hr : Recorded s) (hposs : s.Possible (.construct ctx a cls v))
    (hw : s.world.construct ctx a cls v = .ok w) :
    Effect s (.construct ctx a cls v) { s with world := w } := by
  have hok : (Call.tree (.construct a cls v)).Allowed ctx s.world := hposs
  obtain ⟨u, hu, hcu⟩ := Call.consistent_tree hr.consistent hok (World.construct_ok hw)
  obtain rfl := Except.ok.inj (hu.symm.trans hw)
  obtain ⟨hgen, hnext⟩ := generationOf_construct hr.consistent hw
  have hq := World.nothingQueued_construct hw
  refine ⟨⟨hcu, fun e t ht => hr.posted e t (hq.tasks e ht), fun g hg => ?_⟩, ?_, ?_,
    List.Subset.refl _⟩
  · rw [hnext]
    exact Nat.lt_succ_of_lt (hr.given g hg)
  · intro x g hg
    rw [hgen] at hg
    split at hg <;> rename_i hx
    · exact Or.inr ⟨ctx, cls, v, by rw [hx]⟩
    · exact Or.inl hg
  · rintro e x (hx | hx)
    · exact Or.inl (Or.inl (hq.pendingDeletes e hx))
    · exact Or.inl (Or.inr hx)

/-- A request, which is recorded. -/
theorem Effect.deleteLater {w : World} {ctx : CallContext} (hr : Recorded s)
    (hw : s.world.deleteLater ctx a = .ok w) :
    Effect s l { s with
      world := w
      requested := (s.world.heap.generationOf a).toList ++ s.requested } := by
  have hc := hr.consistent
  obtain ⟨n, hn, -⟩ := Outcome.bind_eq_ok.mp hw
  have hlive : s.world.heap.Live a :=
    Option.isSome_iff_exists.mpr ⟨n, (Heap.node_eq_ok _).mp hn⟩
  obtain ⟨u, hu, hcu⟩ := hc.deleteLater ctx hlive
  obtain rfl := Except.ok.inj (hu.symm.trans hw)
  obtain ⟨hs, hpend, htask⟩ := deleteLater_queues hw
  have hnew : ∀ g, s.world.heap.generationOf a = some g →
      g ∈ (s.world.heap.generationOf a).toList ++ s.requested := by
    intro g hg
    simp [hg]
  refine ⟨⟨hcu, fun e t ht => ?_, fun g hg => ?_⟩, fun x g hg => Or.inl ?_, ?_,
    List.subset_append_right _ _⟩
  · rcases htask e t ht with ht | ⟨g, hg, rfl⟩
    · obtain ⟨b, g, rfl, hg⟩ := hr.posted e t ht
      exact ⟨b, g, rfl, List.mem_append_right _ hg⟩
    · exact ⟨a, g, rfl, hnew g hg⟩
  · rw [hs.nextGeneration]
    rcases List.mem_append.mp hg with hg | hg
    · exact hc.sound.named.gen_lt a g (by simpa using hg)
    · exact hr.given g hg
  · rwa [hs.generationOf] at hg
  · rintro e x (hx | hx)
    · rcases hpend e x hx with rfl | hx
      · exact Or.inr hnew
      · exact Or.inl (Or.inl hx)
    · exact Or.inl (Or.inr hx)

/-- **The effect of every step.** -/
theorem Step.effect (hst : Step s l s') (hr : Recorded s) : Effect s l s' := by
  obtain ⟨hposs, h⟩ := hst
  have hc := hr.consistent
  cases l with
  | construct ctx a cls v =>
      obtain ⟨w, hw, rfl⟩ := bind_world_ok h
      exact .construct hr hposs hw
  | delete a =>
      obtain ⟨w, hw, rfl⟩ := bind_world_ok h
      exact .delete hr hw rfl rfl fun e x hx => Or.inr hx
  | deleteLater ctx a =>
      obtain ⟨w, hw, rfl⟩ := bind_world_ok h
      exact .deleteLater hr hw
  | runTask e =>
      obtain ⟨w, hw, rfl⟩ := bind_world_ok h
      obtain ⟨u, hu, hcu⟩ := hc.runNextTask e
      obtain rfl := Except.ok.inj (hu.symm.trans hw)
      obtain ⟨hheap, hpend, htask⟩ := runNextTask_queues hc hr.posted hw
      refine .of_same hr rfl hcu (fun x g hg => ?_) ?_ hpend (fun e x hx => Or.inr hx) htask
      · rwa [hheap] at hg
      · rw [hheap]
  | take e =>
      obtain rfl := Except.ok.inj h
      have hq := Executors.nothingQueued_takePendingDeletes (x := s.world.execs) (e := e)
      refine .of_same hr rfl (hc.sameBooks Executors.sameBooks_takePendingDeletes
        Executors.sameStrands_takePendingDeletes hq) (fun x g hg => hg) rfl
        (fun o x hx => Or.inl (hq.pendingDeletes o hx)) (fun o x hx => ?_)
        fun o t ht => hr.posted o t (hq.tasks o ht)
      by_cases ho : o = e
      · subst ho
        have hx : x ∈ Function.update s.batch o
            ((s.world.execs.takePendingDeletes o).1 ++ s.batch o) o := hx
        rw [Function.update_self, List.mem_append, Executors.takePendingDeletes_fst] at hx
        exact hx
      · have hx : x ∈ Function.update s.batch e
            ((s.world.execs.takePendingDeletes e).1 ++ s.batch e) o := hx
        rw [Function.update_of_ne ho] at hx
        exact Or.inr hx
  | deleteNext e =>
      cases hb : s.batch e with
      | nil =>
          simp only [apply, hb] at h
          obtain rfl := Except.ok.inj h
          exact .of_same hr rfl hc (fun x g hg => hg) rfl (fun o x hx => Or.inl hx)
            (fun o x hx => Or.inr hx) hr.posted
      | cons a rest =>
          simp only [apply, hb] at h
          obtain ⟨w, hw, rfl⟩ := bind_world_ok h
          have hbatch : ∀ o x, x ∈ Function.update s.batch e rest o → s.Listed o x := by
            intro o x hx
            by_cases ho : o = e
            · subst ho
              rw [Function.update_self] at hx
              exact Or.inr (hb ▸ List.mem_cons_of_mem a hx)
            · rw [Function.update_of_ne ho] at hx
              exact Or.inr hx
          unfold World.deleteIfAlive at hw
          split at hw
          · exact .delete hr hw rfl rfl hbatch
          · obtain rfl := Except.ok.inj hw
            exact .of_same hr rfl hc (fun x g hg => hg) rfl (fun o x hx => Or.inl hx) hbatch
              hr.posted

/-! ### Whole runs -/

/-- **The step lemma.** As long as no node is constructed at a listed address, executors list
requested nodes only. -/
theorem onlyRequested_step (ho : OnlyRequested s) (hr : Recorded s) (hl : s.Unlisted l)
    (hst : Step s l s') : OnlyRequested s' := by
  have heff := hst.effect hr
  intro e x hx g hg
  rcases heff.generation x g hg with hg | ⟨ctx, cls, v, rfl⟩
  · rcases heff.listed e x hx with hx | hx
    · exact heff.requested (ho e x hx g hg)
    · exact hx g hg
  · obtain ⟨w, hw, rfl⟩ := bind_world_ok hst.2
    have hq := World.nothingQueued_construct hw
    exact absurd (hx.imp_left fun h => hq.pendingDeletes e h) (hl e)

/-- A construction leaves the lists alone. -/
theorem pendingDeletes_construct {w w' : World} {ctx : CallContext} {cls : NodeClass}
    {v : Option Addr} (hc : Consistent w) (h : w.construct ctx a cls v = .ok w') :
    w'.execs.pendingDeletes e = w.execs.pendingDeletes e := by
  have ha := (World.construct_ok h).1
  cases v with
  | none =>
      obtain rfl := Except.ok.inj
        ((World.construct_root ha (World.strand_of_construct h)).symm.trans h)
      exact Executors.pendingDeletes_newRootExecs
  | some p =>
      obtain ⟨hp, hctx⟩ := World.live_of_construct h
      obtain rfl := Except.ok.inj
        ((World.construct_child hc.sound.named ha hp hctx).symm.trans h)
      exact Executors.pendingDeletes_addNodeTo

/-- **A new node at a listed address** is a node that nobody has asked to delete. -/
theorem construct_breaks {ctx : CallContext} {cls : NodeClass} {v : Option Addr}
    (hr : Recorded s) (hl : s.Listed e a) (hst : Step s (.construct ctx a cls v) s') :
    ¬ OnlyRequested s' := by
  obtain ⟨w, hw, rfl⟩ := bind_world_ok hst.2
  obtain ⟨hgen, -⟩ := generationOf_construct hr.consistent hw
  intro ho
  have hl' : Listed { s with world := w } e a := by
    refine hl.imp_left fun h => ?_
    rw [pendingDeletes_construct hr.consistent hw]
    exact h
  have hmem := ho e a hl' s.world.heap.nextGeneration (by rw [hgen, if_pos rfl])
  exact absurd (hr.given _ hmem) (Nat.lt_irrefl _)

/-- No executor works yet, in a state without nodes. -/
theorem recorded_start {w : World} (h : w.Unused) : Recorded { world := w } where
  consistent := h.consistent
  posted e t ht := by
    rw [h.tasks] at ht
    exact absurd ht List.not_mem_nil
  given g hg := absurd hg List.not_mem_nil

theorem onlyRequested_start {w : World} (h : w.Unused) : OnlyRequested { world := w } := by
  intro e a _ g hg
  rw [Heap.generationOf, h.noNodes.mem a] at hg
  exact absurd hg (by simp)

end Drain

/-- **Executors delete requested nodes only iff no node is constructed at a listed address.**
In a run from a state without nodes, every step keeps to that condition iff after every step
the lists hold requested nodes only, and then every node that is deleted out of a list is one
that `deleteLater` was called on. -/
theorem run_unlisted_iff_onlyRequested {w : World} {s : Drain} {ls : List DrainStep}
    (h₀ : w.Unused) :
    (Run Drain.Step Drain.Unlisted { world := w } ls s ↔
      Run Drain.Step (fun v l => ∀ v', Drain.Step v l v' → v'.OnlyRequested)
        { world := w } ls s) ∧
      (Run Drain.Step Drain.Unlisted { world := w } ls s →
        Run Drain.Step Drain.DeletesRequested { world := w } ls s) := by
  have hstart : Drain.Recorded { world := w } ∧ Drain.OnlyRequested { world := w } :=
    ⟨Drain.recorded_start h₀, Drain.onlyRequested_start h₀⟩
  refine ⟨⟨fun hrun => ?_, fun hrun => ?_⟩, fun hrun => ?_⟩
  · refine hrun.strengthen (I := fun v => v.Recorded ∧ v.OnlyRequested)
      (fun v l v' hi hl hst => ?_) hstart
    have hkeep : ∀ u, Drain.Step v l u → u.OnlyRequested := fun u hu =>
      Drain.onlyRequested_step hi.2 hi.1 hl hu
    exact ⟨⟨(hst.effect hi.1).recorded, hkeep v' hst⟩, hkeep⟩
  · refine hrun.strengthen (I := fun v => v.Recorded ∧ v.OnlyRequested)
      (fun v l v' hi hl hst => ⟨⟨(hst.effect hi.1).recorded, hl v' hst⟩, ?_⟩) hstart
    cases l with
    | construct ctx a cls p => exact fun e he => Drain.construct_breaks hi.1 he hst (hl v' hst)
    | delete a => trivial
    | deleteLater ctx a => trivial
    | runTask e => trivial
    | take e => trivial
    | deleteNext e => trivial
  · refine hrun.strengthen (I := fun v => v.Recorded ∧ v.OnlyRequested)
      (fun v l v' hi hl hst => ⟨⟨(hst.effect hi.1).recorded,
        Drain.onlyRequested_step hi.2 hi.1 hl hst⟩, ?_⟩) hstart
    intro e a rest _ hb g hg
    exact hi.2 e a (Or.inr (hb ▸ List.mem_cons_self)) g hg

/-- A node of thread 0 is deleted on a request from thread 1. -/
def remoteSteps : List DrainStep :=
  [.construct (.onLoop 0) 1 .plain none, .deleteLater (.onLoop 1) 1, .runTask (.loop 0),
    .take (.loop 0), .deleteNext (.loop 0)]

/-- The request is carried out on the node that it was made for. -/
theorem remote_deletes_requested : ∃ s, s.requested = [1] ∧
    (s.world.heap.blocks 1).alive = false ∧
    Run Drain.Step Drain.DeletesRequested { world := World.initial 0 0 } remoteSteps s := by
  have hrun : ∃ s, s.requested = [1] ∧ (s.world.heap.blocks 1).alive = false ∧
      Run Drain.Step Drain.Unlisted { world := World.initial 0 0 } remoteSteps s := by
    refine ⟨_, rfl, rfl, .cons ?_ ⟨fun t ht => absurd ht (by simp [CallContext.onLoop]), rfl⟩
      (.cons trivial ⟨trivial, rfl⟩ (.cons trivial ⟨trivial, rfl⟩
      (.cons trivial ⟨trivial, rfl⟩ (.cons trivial ⟨trivial, rfl⟩ (.nil _)))))⟩
    intro e he
    rcases e with t | k <;> rcases he with he | he <;> exact absurd he List.not_mem_nil
  obtain ⟨s, hreq, hdead, hrun⟩ := hrun
  exact ⟨s, hreq, hdead, (run_unlisted_iff_onlyRequested (World.unused_initial 0 0)).2 hrun⟩

/-- A root asks for its deletion and is then deleted directly; a new root gets its address
before the event loop has worked through its list. -/
def reuseSteps : List DrainStep :=
  [.construct (.onLoop 0) 1 .plain none, .deleteLater (.onLoop 0) 1, .delete 1,
    .construct (.onLoop 0) 1 .plain none, .take (.loop 0)]

/-- **The event loop deletes a node that nobody has asked to delete**: the new one. -/
theorem reuse_deletes_unrequested : ∃ s s', Reaches Drain.Step
    { world := World.initial 0 0 } reuseSteps s ∧ s.requested = [1] ∧
    s.world.heap.generationOf 1 = some 2 ∧ (s.world.heap.blocks 2).markedForDelete = false ∧
    ¬ s.DeletesRequested (.deleteNext (.loop 0)) ∧
    Drain.Step s (.deleteNext (.loop 0)) s' ∧ (s'.world.heap.blocks 2).alive = false := by
  have hrun : ∃ s s', Reaches Drain.Step { world := World.initial 0 0 } reuseSteps s ∧
      s.requested = [1] ∧ s.batch (.loop 0) = [1] ∧ s.world.heap.generationOf 1 = some 2 ∧
      (s.world.heap.blocks 2).markedForDelete = false ∧
      Drain.Step s (.deleteNext (.loop 0)) s' ∧ (s'.world.heap.blocks 2).alive = false := by
    have hfree : ∀ n : ℕ, ∀ t : StrandId, (CallContext.onLoop 0).strand = some t → t < n :=
      fun n t ht => absurd ht (by simp [CallContext.onLoop])
    refine ⟨_, _, .cons trivial ⟨hfree _, rfl⟩ (.cons trivial ⟨trivial, rfl⟩
      (.cons trivial ⟨trivial, rfl⟩ (.cons trivial ⟨hfree _, rfl⟩
      (.cons trivial ⟨trivial, rfl⟩ (.nil _))))), rfl, rfl, rfl, rfl, ⟨trivial, rfl⟩, rfl⟩
  obtain ⟨s, s', hrun, hreq, hbatch, hgen, hmark, hst, hdead⟩ := hrun
  refine ⟨s, s', hrun, hreq, hgen, hmark, fun hall => ?_, hst, hdead⟩
  have hmem := hall (.loop 0) 1 [] rfl hbatch 2 hgen
  rw [hreq] at hmem
  exact absurd hmem (by decide)

end SimplyNode
