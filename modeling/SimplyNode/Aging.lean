import SimplyNode.NodeRun

/-!
# Dead Blocks Stay Dead

A lifetime block that says dead never says alive again, whatever the program does: nothing
but the construction of a node makes a block say alive, and that is a new block. This needs
no assumption about the state or about what user code calls.

## Main results

* `Call.ages`: the calls of user code.
* `Tick.ages_of_run`: whole ticks.
-/

open Transition

namespace SimplyNode

/-- The counter has gone on, and blocks that said dead say dead. -/
structure Heap.Ages (h h' : Heap) : Prop where
  next_le : h.nextGeneration ≤ h'.nextGeneration
  dead : ∀ g < h.nextGeneration, (h.blocks g).alive = false → (h'.blocks g).alive = false

namespace Heap.Ages

variable {h h' h'' : Heap}

/-- A heap has aged by nothing. -/
theorem refl (h : Heap) : Ages h h := ⟨Nat.le_refl _, fun _ _ hg => hg⟩

/-- A heap ages step by step. -/
theorem trans (ha : Ages h h') (ha' : Ages h' h'') : Ages h h'' where
  next_le := Nat.le_trans ha.next_le ha'.next_le
  dead g hlt hg := ha'.dead g (Nat.lt_of_lt_of_le hlt ha.next_le) (ha.dead g hlt hg)

/-- The same blocks and the same counter. -/
theorem of_eq (hb : h'.blocks = h.blocks) (hn : h'.nextGeneration = h.nextGeneration) :
    Ages h h' :=
  ⟨Nat.le_of_eq hn.symm, fun g _ hg => by rw [hb, hg]⟩

/-- Objects do not matter. -/
theorem modifyNode (h : Heap) (a : Addr) (f : Node → Node) : Ages h (h.modifyNode a f) :=
  of_eq rfl rfl

/-- A change of a block that does not bring it to life. -/
theorem modifyBlock (h : Heap) (g : Generation) (f : NodeLifetimeBlock → NodeLifetimeBlock)
    (hf : ∀ b, b.alive = false → (f b).alive = false) : Ages h (h.modifyBlock g f) := by
  refine ⟨Nat.le_refl _, fun k _ hk => ?_⟩
  rw [blocks_modifyBlock]
  split <;> rename_i hkg
  · exact hf _ (hkg ▸ hk)
  · exact hk

/-- A block with another owner says alive or dead as before. -/
theorem setOwnerExecutor (h : Heap) (g : Generation) (e : Option ExecutorId) :
    Ages h (h.setOwnerExecutor g e) :=
  modifyBlock h g _ fun _ hb => hb

/-- A block that is marked says alive or dead as before. -/
theorem mark (h : Heap) (g : Generation) :
    Ages h (h.modifyBlock g fun b => { b with markedForDelete := true }) :=
  modifyBlock h g _ fun _ hb => hb

/-- The block of a new node is a new one. -/
theorem allocate (h : Heap) (a : Addr) (cls : NodeClass) (v : Option Addr) :
    Ages h (h.allocate a cls v) := by
  refine ⟨Nat.le_succ _, fun g hlt hg => ?_⟩
  have hblock : (h.allocate a cls v).blocks g = h.blocks g :=
    Function.update_of_ne (Nat.ne_of_lt hlt) ..
  rw [hblock]
  exact hg

/-- `markToDelete` kills no block. -/
theorem markToDelete {a : Addr} (hm : h.markToDelete a = .ok h') : Ages h h' := by
  unfold Heap.markToDelete at hm
  split at hm
  · obtain rfl := Except.ok.inj hm
    exact of_eq rfl rfl
  · exact absurd hm (by simp)

/-- `unregisterAliveNode` kills no block. -/
theorem unregisterAliveNode {a : Addr} (hm : h.unregisterAliveNode a = .ok h') :
    Ages h h' := by
  unfold Heap.unregisterAliveNode at hm
  split at hm
  · obtain rfl := Except.ok.inj hm
    exact of_eq rfl rfl
  · exact absurd hm (by simp)

/-- `pushDeleteChild` kills no block. -/
theorem pushDeleteChild {p c : Addr} (hm : h.pushDeleteChild p c = .ok h') : Ages h h' := by
  obtain ⟨n, -, hm⟩ := Outcome.bind_eq_ok.mp hm
  split at hm
  · obtain rfl := Except.ok.inj hm
    exact modifyNode ..
  · obtain rfl := Except.ok.inj hm
    exact refl h

end Heap.Ages

namespace World

open Heap

variable {w w' : World} {a c p : Addr} {ctx : CallContext}

/-! ### The tree operations -/

/-- `addChild`. -/
theorem ages_addChild (h : w.addChild p c = .ok w') : Ages w.heap w'.heap := by
  obtain ⟨child, -, h⟩ := Outcome.bind_eq_ok.mp h
  obtain ⟨-, -, h⟩ := Outcome.bind_eq_ok.mp h
  obtain rfl := Except.ok.inj h
  refine .of_eq ?_ ?_
  · simp only [heap_modifyNode, blocks_modifyNode]
    split <;> rfl
  · simp only [heap_modifyNode, nextGeneration_modifyNode]
    split <;> rfl

/-- `leaveParent`. -/
theorem ages_leaveParent {n : Node} (h : w.leaveParent a n = .ok w') :
    Ages w.heap w'.heap := by
  unfold leaveParent at h
  split at h
  · obtain ⟨-, -, h⟩ := Outcome.bind_eq_ok.mp h
    obtain rfl := Except.ok.inj h
    exact .modifyNode ..
  · obtain rfl := Except.ok.inj h
    exact .refl _

/-- `setParent`. -/
theorem ages_setParent {parent : Option Addr} (h : w.setParent a parent = .ok w') :
    Ages w.heap w'.heap := by
  obtain ⟨n, -, h⟩ := Outcome.bind_eq_ok.mp h
  obtain ⟨u, hu, h⟩ := Outcome.bind_eq_ok.mp h
  refine (ages_leaveParent hu).trans ?_
  cases parent with
  | none =>
      obtain rfl := Except.ok.inj h
      exact .modifyNode ..
  | some p =>
      have hadd := ages_addChild (w := u.modifyNode a fun m => { m with isRoot := false }) h
      exact (Ages.modifyNode u.heap a _).trans hadd

/-- The constructor: the block that it creates is a new one. -/
theorem ages_construct {cls : NodeClass} {parent : Option Addr}
    (h : w.construct ctx a cls parent = .ok w') : Ages w.heap w'.heap := by
  obtain ⟨ha, hallowed⟩ := construct_ok h
  unfold construct at h
  rw [ha, hallowed] at h
  have hnew : ∀ e, Ages w.heap
      ((w.heap.allocate a cls parent).setOwnerExecutor w.heap.nextGeneration e) := fun e =>
    (Ages.allocate w.heap a cls parent).trans (.setOwnerExecutor ..)
  cases parent with
  | none =>
      obtain rfl := Except.ok.inj h
      exact (hnew (some (newRootOwner ctx))).trans (.of_eq rfl rfl)
  | some p =>
      obtain ⟨b, hb, h⟩ := Outcome.bind_eq_ok.mp h
      obtain rfl := Except.ok.inj hb
      obtain ⟨k, -, h⟩ := Outcome.bind_eq_ok.mp h
      obtain ⟨u, hu, h⟩ := Outcome.bind_eq_ok.mp h
      obtain rfl := Except.ok.inj h
      exact ((hnew _).trans (ages_addChild hu)).trans (.of_eq rfl rfl)

/-- What each step of a fold keeps, the fold keeps. -/
theorem ages_foldlM {α : Type} {f : World → α → Outcome World}
    (hf : ∀ u b u', f u b = .ok u' → Ages u.heap u'.heap) {l : List α}
    (h : l.foldlM f w = .ok w') : Ages w.heap w'.heap := by
  induction l generalizing w with
  | nil =>
      obtain rfl := Except.ok.inj h
      exact .refl _
  | cons b l ih =>
      obtain ⟨u, hu, h⟩ := Outcome.bind_eq_ok.mp h
      exact (hf w b u hu).trans (ih h)

/-- `~Timer`. -/
theorem ages_timerDestructor {n : Node} : Ages w.heap (w.timerDestructor a n).heap := by
  rw [timerDestructor]
  split
  · exact .modifyNode ..
  · exact .refl _

/-- `detach`. -/
theorem ages_detach {n : Node} (h : w.detach a n = .ok w') : Ages w.heap w'.heap := by
  unfold detach at h
  split at h
  · obtain rfl := Except.ok.inj h
    exact .refl _
  · split at h
    · obtain ⟨-, -, h⟩ := Outcome.bind_eq_ok.mp h
      obtain rfl := Except.ok.inj h
      exact .modifyNode ..
    · obtain rfl := Except.ok.inj h
      exact .refl _

/-- A block expires, and says dead from now on. -/
theorem ages_expire {n : Node} : Ages w.heap (w.heap.expire a n) :=
  (Ages.modifyBlock w.heap n.generation (fun b => { b with alive := false })
    fun _ _ => rfl).trans (.of_eq rfl rfl)

/-- The destructors of a subtree. -/
theorem ages_destroy {fuel : ℕ} (h : destroy fuel w a = .ok w') : Ages w.heap w'.heap := by
  induction fuel generalizing w w' a with
  | zero => exact absurd h (by simp [destroy])
  | succ fuel ih =>
      obtain ⟨n, -, h⟩ := Outcome.bind_eq_ok.mp h
      obtain ⟨u, hu, h⟩ := Outcome.bind_eq_ok.mp h
      obtain ⟨v, hv, h⟩ := Outcome.bind_eq_ok.mp h
      obtain ⟨k, hk, h⟩ := Outcome.bind_eq_ok.mp h
      obtain rfl := Except.ok.inj h
      set w₁ := w.timerDestructor a n
      have hdetach : Ages (w₁.heap.expire a n) u.heap :=
        ages_detach (w := w₁.withHeap (w₁.heap.expire a n)) hu
      have hkids : Ages u.heap v.heap :=
        (Ages.modifyNode u.heap a _).trans (ages_foldlM (fun _ _ _ => ih) hv)
      have hfree : Ages v.heap (k.free a) :=
        (Ages.unregisterAliveNode hk).trans (.of_eq rfl rfl)
      exact (((ages_timerDestructor.trans ages_expire).trans hdetach).trans hkids).trans hfree

/-- `delete`. -/
theorem ages_delete (h : w.delete a = .ok w') : Ages w.heap w'.heap := ages_destroy h

/-! ### Requests, migration and timers -/

/-- `deleteLater`. -/
theorem ages_deleteLater (h : w.deleteLater ctx a = .ok w') : Ages w.heap w'.heap := by
  obtain ⟨n, -, h⟩ := Outcome.bind_eq_ok.mp h
  obtain ⟨k, hk, h⟩ := Outcome.bind_eq_ok.mp h
  have hmark : Ages w.heap k :=
    (Ages.mark w.heap n.generation).trans (.markToDelete hk)
  refine hmark.trans ?_
  split at h
  · split at h
    · obtain rfl := Except.ok.inj h
      exact .refl _
    · split at h
      · obtain rfl := Except.ok.inj h
        exact .refl _
      · obtain ⟨k', hk', h⟩ := Outcome.bind_eq_ok.mp h
        obtain rfl := Except.ok.inj h
        exact .pushDeleteChild hk'
      · obtain rfl := Except.ok.inj h
        exact .refl _
  · obtain ⟨k', hk', h⟩ := Outcome.bind_eq_ok.mp h
    obtain rfl := Except.ok.inj h
    exact .pushDeleteChild hk'
  · exact absurd h (by simp)

/-- `applyMoveTo`. -/
theorem ages_applyMoveTo {fuel : ℕ} {target : ExecutorId}
    (h : applyMoveTo fuel w a target = .ok w') : Ages w.heap w'.heap := by
  induction fuel generalizing w w' a with
  | zero => exact absurd h (by simp [applyMoveTo])
  | succ fuel ih =>
      obtain ⟨n, -, h⟩ := Outcome.bind_eq_ok.mp h
      split at h
      · obtain rfl := Except.ok.inj h
        exact .refl _
      · refine Ages.trans ?_ (ages_foldlM (fun _ _ _ => ih) h)
        have habout : (w.onAboutToMoveToThread a n).heap = w.heap := by
          rw [onAboutToMoveToThread]
          split <;> rfl
        have hmoved : ∀ u : World, (u.onMovedToThread a n).heap = u.heap := by
          intro u
          rw [onMovedToThread]
          split
          · split <;> rfl
          · rfl
        rw [hmoved, enterExecutor, heap_withExecs, heap_withHeap, leaveExecutor, heap_withExecs,
          habout]
        exact .setOwnerExecutor ..

/-- `moveToThread`. -/
theorem ages_moveToThread {t : ThreadId} {r : Bool × World}
    (h : w.moveToThread ctx a t = .ok r) : Ages w.heap r.2.heap := by
  unfold moveToThread at h
  split at h
  · obtain rfl := Except.ok.inj h
    exact .refl _
  · obtain ⟨n, -, h⟩ := Outcome.bind_eq_ok.mp h
    split at h
    · obtain rfl := Except.ok.inj h
      exact .refl _
    · obtain ⟨b, -, h⟩ := Outcome.bind_eq_ok.mp h
      split at h
      · obtain rfl := Except.ok.inj h
        exact .refl _
      · split at h
        · obtain ⟨u, hu, h⟩ := Outcome.bind_eq_ok.mp h
          obtain rfl := Except.ok.inj h
          exact ages_applyMoveTo hu
        · obtain rfl := Except.ok.inj h
          exact .refl _

/-- `applyMoveToTaskPool`. -/
theorem ages_applyMoveToTaskPool {p : PoolId} {r : Bool × World}
    (h : w.applyMoveToTaskPool a p = .ok r) : Ages w.heap r.2.heap := by
  obtain ⟨n, -, h⟩ := Outcome.bind_eq_ok.mp h
  split at h
  · obtain rfl := Except.ok.inj h
    exact .refl _
  · obtain ⟨b, -, h⟩ := Outcome.bind_eq_ok.mp h
    split at h
    · obtain rfl := Except.ok.inj h
      exact .refl _
    · split at h
      · obtain rfl := Except.ok.inj h
        exact .refl _
      · split at h
        · obtain rfl := Except.ok.inj h
          exact .refl _
        · rename_i s x _
          obtain ⟨u, hu, h⟩ := Outcome.bind_eq_ok.mp h
          obtain rfl := Except.ok.inj h
          have hmove : Ages w.heap u.heap := ages_applyMoveTo (w := w.withExecs x) hu
          exact hmove

/-- `moveToTaskPool`. -/
theorem ages_moveToTaskPool {p : PoolId} {r : Bool × World}
    (h : w.moveToTaskPool ctx a p = .ok r) : Ages w.heap r.2.heap := by
  unfold moveToTaskPool at h
  split at h
  · obtain rfl := Except.ok.inj h
    exact .refl _
  · obtain ⟨n, -, h⟩ := Outcome.bind_eq_ok.mp h
    split at h
    · exact absurd h (by simp)
    · split at h
      · exact ages_applyMoveToTaskPool h
      · obtain rfl := Except.ok.inj h
        exact .refl _

/-- A member function of `Timer`, inside the owner. -/
theorem ages_applyTimerCall {o : Option ExecutorId} {t : TimerState} {call : TimerCall} :
    Ages w.heap (w.applyTimerCall o a t call).heap := by
  cases call with
  | start => exact .modifyNode ..
  | startWith interval => exact .modifyNode ..
  | stop => exact .modifyNode ..
  | setInterval interval =>
      simp only [applyTimerCall]
      split <;> exact .modifyNode ..
  | setSingleShot singleShot => exact .modifyNode ..

/-- A member function of `Timer`. -/
theorem ages_timerCall {call : TimerCall} (h : w.timerCall ctx a call = .ok w') :
    Ages w.heap w'.heap := by
  obtain ⟨n, -, h⟩ := Outcome.bind_eq_ok.mp h
  split at h
  · dsimp only at h
    split at h
    · split at h
      · obtain rfl := Except.ok.inj h
        exact ages_applyTimerCall
      · obtain rfl := Except.ok.inj h
        exact .refl _
    · obtain rfl := Except.ok.inj h
      exact ages_applyTimerCall
  · obtain rfl := Except.ok.inj h
    exact .refl _

end World

/-- **No call of user code** brings a dead block to life. -/
theorem Call.ages {ctx : CallContext} {w w' : World} {c : Call} (h : c.apply ctx w = .ok w') :
    Heap.Ages w.heap w'.heap := by
  cases c with
  | tree op =>
      cases op with
      | construct a cls parent => exact World.ages_construct h
      | addChild p c => exact World.ages_addChild h
      | setParent a parent => exact World.ages_setParent h
      | delete a => exact World.ages_delete h
  | deleteLater a => exact World.ages_deleteLater h
  | moveToThread a t =>
      obtain ⟨r, hr, rfl⟩ := Outcome.map_eq_ok.mp h
      exact World.ages_moveToThread hr
  | moveToTaskPool a p =>
      obtain ⟨r, hr, rfl⟩ := Outcome.map_eq_ok.mp h
      exact World.ages_moveToTaskPool hr
  | timer a c => exact World.ages_timerCall h

/-! ### Ticks -/

namespace World

open Heap

variable {w w' : World} {a : Addr}

/-- The deletion of the marked children from an index on. -/
theorem ages_deleteMarkedFrom {buffer k i : ℕ} {ds ds' : List Addr}
    (h : deleteMarkedFrom a buffer k i (w, ds) = .ok (w', ds')) : Ages w.heap w'.heap := by
  induction k generalizing i w ds with
  | zero =>
      obtain ⟨rfl, -⟩ := Prod.mk.inj (Except.ok.inj h)
      exact .refl _
  | succ k ih =>
      obtain ⟨c, -, h⟩ := Outcome.bind_eq_ok.mp h
      split at h
      · obtain ⟨u, hu, h⟩ := Outcome.bind_eq_ok.mp h
        exact (ages_delete hu).trans (ih h)
      · exact ih h

/-- The end of the loop over the marked children. -/
theorem ages_clearMarked (h : w.clearMarked a = .ok w') : Ages w.heap w'.heap := by
  obtain ⟨n, -, h⟩ := Outcome.bind_eq_ok.mp h
  obtain rfl := Except.ok.inj h
  exact .modifyNode ..

/-- The deletion of the marked children. -/
theorem ages_deleteMarked {r : World × List Addr} (h : w.deleteMarked a = .ok r) :
    Ages w.heap r.1.heap := by
  obtain ⟨n, -, h⟩ := Outcome.bind_eq_ok.mp h
  exact ages_deleteMarkedFrom h

/-- `run` enters a node. -/
theorem ages_enterRun {f : Frame} (h : w.enterRun a = .ok (w', f)) : Ages w.heap w'.heap := by
  obtain ⟨r, hr, h⟩ := Outcome.bind_eq_ok.mp h
  obtain ⟨u, hu, h⟩ := Outcome.bind_eq_ok.mp h
  obtain ⟨n, -, h⟩ := Outcome.bind_eq_ok.mp h
  obtain ⟨rfl, -⟩ := Prod.mk.inj (Except.ok.inj h)
  exact (ages_deleteMarked hr).trans (ages_clearMarked hu)

end World

namespace Tick

variable {t : ThreadId} {s s' : Tick}

/-- **A step of a tick.** -/
theorem Step.ages {l : TickStep} (h : Step t s l s') :
    Heap.Ages s.world.heap s'.world.heap := by
  cases h with
  | root hr => exact World.ages_enterRun hr
  | child _ _ _ hr => exact World.ages_enterRun hr
  | update => exact .refl _
  | call _ hc => exact Call.ages hc
  | leave _ hc => exact World.ages_clearMarked hc

/-- **Whole ticks.** -/
theorem ages_of_run {ok : Tick → TickStep → Prop} {ls : List TickStep}
    (h : Run (Step t) ok s ls s') : Heap.Ages s.world.heap s'.world.heap := by
  induction h with
  | nil s => exact .refl _
  | cons _ hst _ ih => exact hst.ages.trans ih

end Tick

end SimplyNode
