import SimplyNode.Trees

/-!
# Which Requests Move What

For each of the two migration requests, the condition on the state under which it is applied
to a node at once, the condition under which a posted request is applied, and what happens to
the owners in either case.

## Main results

* `moveToThread_effect`, `moveToTaskPool_effect`: the requests.
* `runNextTask_effect`: the tasks that they and `deleteLater` post.
-/

open PointerForest

namespace SimplyNode

/-- The tasks of requests for a migration. -/
def Task.IsMove : Task → Prop
  | .moveToThread _ _ _ => True
  | .moveToTaskPool _ _ _ => True
  | _ => False

/-- The tasks of the three requests. -/
def Task.IsRequest : Task → Prop
  | .deleteNode _ _ => True
  | t => t.IsMove

namespace World

variable {w w' : World} {a : Addr} {ctx : CallContext} {t : ThreadId} {p : PoolId}

/-- The objects stay, with their owners; what is newly posted are requests for migrations. -/
structure Stays (w w' : World) : Prop where
  heap : w'.heap = w.heap
  pendingDeletes : ∀ e, w'.execs.pendingDeletes e ⊆ w.execs.pendingDeletes e
  tasks : ∀ e k, k ∈ w'.execs.tasks e → k ∈ w.execs.tasks e ∨ k.IsMove

theorem Stays.refl (w : World) : w.Stays w :=
  ⟨rfl, fun _ => List.Subset.refl _, fun _ _ h => Or.inl h⟩

/-- A request is posted. -/
theorem Stays.post {k : Task} (hk : k.IsMove) (e : ExecutorId) :
    w.Stays (w.withExecs (w.execs.post e k)) where
  heap := rfl
  pendingDeletes := Executors.pendingDeletes_post
  tasks o k' hk' := by
    rcases Executors.mem_tasks_post hk' with rfl | hk'
    · exact Or.inr hk
    · exact Or.inl hk'

/-- Nothing is queued, and the objects stay. -/
theorem Stays.of_nothingQueued (hh : w'.heap = w.heap)
    (hq : Executors.NothingQueued w.execs w'.execs) : w.Stays w' where
  heap := hh
  pendingDeletes := hq.pendingDeletes
  tasks e _ hk := Or.inl (hq.tasks e hk)

/-! ### When a request is applied -/

/-- The request to move to a thread moves the node when its owner applies it. -/
def AppliesMoveToThread (w : World) (a : Addr) (t : ThreadId) : Prop :=
  (w.execs.loops t).retired = false ∧ w.heap.parentOf a = none ∧
    w.heap.ownerOf a ≠ some (.loop t)

/-- The request to move to a task pool moves the node when its owner applies it: the strand
that it gets is not the one it has. -/
def AppliesMoveToTaskPool (w : World) (a : Addr) (p : PoolId) : Prop :=
  w.heap.parentOf a = none ∧
    subtreeRequiresEventLoop w.heap.nextGeneration w.heap a = .ok false ∧
    (∀ n, w.heap.mem a = some n → w.hasOwnStrandOf n p = false) ∧
    ∃ s x, w.execs.acquireStrand p = some (s, x) ∧ w.heap.ownerOf a ≠ some (.strand s)

/-- The call is made inside the owner of the node. -/
def InsideOwner (w : World) (ctx : CallContext) (a : Addr) : Prop :=
  ∃ e, w.heap.ownerOf a = some e ∧ ctx.isCurrent e = true

/-- `moveToThread` moves the node at once. -/
def MovesToThread (w : World) (ctx : CallContext) (a : Addr) (t : ThreadId) : Prop :=
  (w.execs.loops t).created = true ∧ w.InsideOwner ctx a ∧ w.AppliesMoveToThread a t

/-- `moveToTaskPool` moves the node at once. -/
def MovesToTaskPool (w : World) (ctx : CallContext) (a : Addr) (p : PoolId) : Prop :=
  (w.execs.pools p).workers ≠ 0 ∧ w.InsideOwner ctx a ∧ w.AppliesMoveToTaskPool a p

/-! ### What it does then -/

/-- A subtree has moved to an owner that it did not have. -/
def MovedAway (w w' : World) (a : Addr) : Prop :=
  ∃ e, w.heap.ownerOf a ≠ some e ∧ w.Moved w' a e

/-- Moving a subtree that the target does not own. -/
theorem moveSubtree_effect (hc : Consistent w) (e : ExecutorId) (ha : w.heap.Live a)
    (hok : w.heap.parentOf a = none ∨ w.heap.ownerOf a = some e)
    (he : ∀ s, e = .strand s → s < w.execs.nextStrand) (h : w.moveSubtree a e = .ok w') :
    Consistent w' ∧ (w.heap.ownerOf a ≠ some e → w.Moved w' a e) ∧
      (w.heap.ownerOf a = some e → w' = w) := by
  obtain ⟨u, hu, hc', -, hmoved, hsame⟩ := hc.moveSubtree e ha hok he
  obtain rfl := Except.ok.inj (hu.symm.trans h)
  exact ⟨hc', fun _ => hmoved, hsame⟩

/-- The parent of a root is no obstacle to a thread. -/
theorem parentOnThread_of_root {n : Node} {b : Bool} (hm : w.heap.mem a = some n)
    (hb : w.parentOnThread n t = .ok b) (hroot : w.heap.parentOf a = none) : b = true := by
  have hnone : n.parent = none := by simpa [Heap.parentOf, hm] using hroot
  rw [parentOnThread, hnone] at hb
  exact (Except.ok.inj hb).symm

/-- What the owner does with a request to move to a thread. -/
theorem applyMoveToThread_effect (hc : Consistent w) (h : w.applyMoveToThread a t = .ok w') :
    (w.AppliesMoveToThread a t → w.MovedAway w' a) ∧
      (¬ w.AppliesMoveToThread a t → w.Stays w') := by
  obtain ⟨n, hn, h⟩ := Outcome.bind_eq_ok.mp h
  have hm := (Heap.node_eq_ok _).mp hn
  have ha : w.heap.Live a := Option.isSome_iff_exists.mpr ⟨n, hm⟩
  obtain ⟨b, hb, h⟩ := Outcome.bind_eq_ok.mp h
  obtain ⟨b', hb', hpar⟩ := Consistent.parentOnThread_spec hc.sound hm t
  obtain rfl := Except.ok.inj (hb.symm.trans hb')
  split at h <;> rename_i hcond
  · obtain rfl := Except.ok.inj h
    refine ⟨fun hap => ?_, fun _ => .refl w⟩
    rw [parentOnThread_of_root hm hb hap.2.1, hap.1] at hcond
    exact absurd hcond (by simp)
  · obtain ⟨rfl, hret⟩ : b = true ∧ (w.execs.loops t).retired = false := by
      simpa using hcond
    obtain ⟨-, hmoved, hsame⟩ := moveSubtree_effect hc (.loop t) ha (hpar rfl)
      (fun s hs => absurd hs (by simp)) h
    refine ⟨fun hap => ⟨.loop t, hap.2.2, hmoved hap.2.2⟩, fun hnot => ?_⟩
    have hown : w.heap.ownerOf a = some (.loop t) := by
      by_contra hne
      rcases hpar rfl with hnone | hown
      · exact hnot ⟨hret, hnone, hne⟩
      · exact hne hown
    rw [hsame hown]
    exact .refl w

/-- What `moveToThread` does. -/
theorem moveToThread_effect (hc : Consistent w) {b : Bool}
    (h : w.moveToThread ctx a t = .ok (b, w')) :
    (w.MovesToThread ctx a t → w.MovedAway w' a) ∧
      (¬ w.MovesToThread ctx a t → w.Stays w') := by
  unfold moveToThread at h
  split at h <;> rename_i hloop
  · obtain ⟨-, rfl⟩ := Prod.mk.inj (Except.ok.inj h)
    refine ⟨fun hmv => ?_, fun _ => .refl w⟩
    rw [hmv.1, hmv.2.2.1] at hloop
    exact absurd hloop (by simp)
  · obtain ⟨hcreated, hret⟩ : (w.execs.loops t).created = true ∧
        (w.execs.loops t).retired = false := by simpa using hloop
    obtain ⟨n, hn, h⟩ := Outcome.bind_eq_ok.mp h
    have hm := (Heap.node_eq_ok _).mp hn
    have ha : w.heap.Live a := Option.isSome_iff_exists.mpr ⟨n, hm⟩
    have hexec : w.heap.ownerOf a = w.heap.ownerExecutor n := Heap.ownerOf_of_mem hm
    obtain ⟨owner, ho⟩ := Option.isSome_iff_exists.mp (hc.sound.named.owned a ha)
    rw [← hexec, ho] at h
    obtain ⟨b, hb, h⟩ := Outcome.bind_eq_ok.mp h
    obtain ⟨b', hb', hpar⟩ := Consistent.parentOnThread_spec hc.sound hm t
    obtain rfl := Except.ok.inj (hb.symm.trans hb')
    split at h <;> rename_i hbt
    · obtain ⟨-, rfl⟩ := Prod.mk.inj (Except.ok.inj h)
      refine ⟨fun hmv => ?_, fun _ => .refl w⟩
      rw [parentOnThread_of_root hm hb hmv.2.2.2.1] at hbt
      exact absurd hbt (by simp)
    · obtain rfl : b = true := by simpa using hbt
      split at h <;> rename_i hctx
      · obtain ⟨u, hu, h⟩ := Outcome.bind_eq_ok.mp h
        obtain ⟨-, rfl⟩ := Prod.mk.inj (Except.ok.inj h)
        obtain ⟨-, hmoved, hsame⟩ := moveSubtree_effect hc (.loop t) ha (hpar rfl)
          (fun s hs => absurd hs (by simp)) hu
        refine ⟨fun hmv => ⟨.loop t, hmv.2.2.2.2, hmoved hmv.2.2.2.2⟩, fun hnot => ?_⟩
        have hown : w.heap.ownerOf a = some (.loop t) := by
          by_contra hne
          rcases hpar rfl with hnone | hown
          · exact hnot ⟨hcreated, ⟨owner, ho, hctx⟩, hret, hnone, hne⟩
          · exact hne hown
        rw [hsame hown]
        exact .refl w
      · obtain ⟨-, rfl⟩ := Prod.mk.inj (Except.ok.inj h)
        refine ⟨fun hmv => ?_,
          fun _ => .post (k := .moveToThread a n.generation t) trivial owner⟩
        obtain ⟨e, he, hcur⟩ := hmv.2.1
        obtain rfl := Option.some.inj (ho.symm.trans he)
        exact absurd hcur hctx

/-- What the owner does with a request to move to a task pool. -/
theorem applyMoveToTaskPool_effect (hc : Consistent w) {b : Bool}
    (h : w.applyMoveToTaskPool a p = .ok (b, w')) :
    (w.AppliesMoveToTaskPool a p → w.MovedAway w' a) ∧
      (¬ w.AppliesMoveToTaskPool a p → w.Stays w') := by
  obtain ⟨n, hn, h⟩ := Outcome.bind_eq_ok.mp h
  have hm := (Heap.node_eq_ok _).mp hn
  have ha : w.heap.Live a := Option.isSome_iff_exists.mpr ⟨n, hm⟩
  have hpar : w.heap.parentOf a = n.parent := by simp [Heap.parentOf, hm]
  split at h <;> rename_i hnp
  · obtain ⟨-, rfl⟩ := Prod.mk.inj (Except.ok.inj h)
    refine ⟨fun hap => ?_, fun _ => .refl w⟩
    rw [← hpar, hap.1] at hnp
    exact absurd hnp (by simp)
  · have hnone : w.heap.parentOf a = none := by
      rw [hpar]
      simpa using hnp
    obtain ⟨r, hr, h⟩ := Outcome.bind_eq_ok.mp h
    split at h <;> rename_i hrt
    · obtain ⟨-, rfl⟩ := Prod.mk.inj (Except.ok.inj h)
      refine ⟨fun hap => ?_, fun _ => .refl w⟩
      obtain rfl := Except.ok.inj (hr.symm.trans hap.2.1)
      exact absurd hrt (by simp)
    · obtain rfl : r = false := by simpa using hrt
      split at h <;> rename_i hown
      · obtain ⟨-, rfl⟩ := Prod.mk.inj (Except.ok.inj h)
        refine ⟨fun hap => ?_, fun _ => .refl w⟩
        rw [hap.2.2.1 n hm] at hown
        exact absurd hown (by simp)
      · have hown : ∀ k, w.heap.mem a = some k → w.hasOwnStrandOf k p = false := by
          intro k hk
          obtain rfl := Option.some.inj (hm.symm.trans hk)
          simpa using hown
        split at h <;> rename_i hs
        · obtain ⟨-, rfl⟩ := Prod.mk.inj (Except.ok.inj h)
          refine ⟨fun hap => ?_, fun _ => .refl w⟩
          obtain ⟨s, x, hsx, -⟩ := hap.2.2.2
          rw [hs] at hsx
          exact absurd hsx (by simp)
        · rename_i s x
          obtain ⟨u, hu, h⟩ := Outcome.bind_eq_ok.mp h
          obtain ⟨-, rfl⟩ := Prod.mk.inj (Except.ok.inj h)
          obtain ⟨hcx, hlt⟩ := hc.acquireStrand hs
          have hq := Executors.nothingQueued_acquireStrand hs
          have hrel : Executors.NothingQueued u.execs (u.execs.releaseStrandReservation s) :=
            Executors.nothingQueued_releaseStrandReservation
          obtain ⟨-, hmoved, hsame⟩ := moveSubtree_effect hcx (.strand s) ha (Or.inl hnone)
            (fun k hk => ExecutorId.strand.inj hk ▸ hlt) hu
          constructor
          · rintro ⟨-, -, -, s', x', hs', hne⟩
            obtain ⟨rfl, rfl⟩ := Prod.mk.inj (Option.some.inj (hs.symm.trans hs'))
            have hmv := hmoved hne
            exact ⟨.strand s, hne, ⟨hmv.mem, hmv.inside, hmv.outside,
              (hq.trans hmv.queues).trans hrel⟩⟩
          · intro hnot
            have howner : w.heap.ownerOf a = some (.strand s) := by
              by_contra hne
              exact hnot ⟨hnone, hr, hown, s, x, hs, hne⟩
            obtain rfl := hsame howner
            exact .of_nothingQueued rfl (hq.trans hrel)

/-- What `moveToTaskPool` does. -/
theorem moveToTaskPool_effect (hc : Consistent w) {b : Bool}
    (h : w.moveToTaskPool ctx a p = .ok (b, w')) :
    (w.MovesToTaskPool ctx a p → w.MovedAway w' a) ∧
      (¬ w.MovesToTaskPool ctx a p → w.Stays w') := by
  unfold moveToTaskPool at h
  split at h <;> rename_i hw
  · obtain ⟨-, rfl⟩ := Prod.mk.inj (Except.ok.inj h)
    exact ⟨fun hmv => absurd (beq_iff_eq.mp hw) hmv.1, fun _ => .refl w⟩
  · have hworkers : (w.execs.pools p).workers ≠ 0 := by simpa using hw
    obtain ⟨n, hn, h⟩ := Outcome.bind_eq_ok.mp h
    have hm := (Heap.node_eq_ok _).mp hn
    have hexec : w.heap.ownerOf a = w.heap.ownerExecutor n := Heap.ownerOf_of_mem hm
    obtain ⟨owner, ho⟩ := Option.isSome_iff_exists.mp
      (hc.sound.named.owned a (Option.isSome_iff_exists.mpr ⟨n, hm⟩))
    rw [← hexec, ho] at h
    dsimp only at h
    split at h <;> rename_i hctx
    · obtain ⟨hmoved, hstays⟩ := applyMoveToTaskPool_effect hc h
      exact ⟨fun hmv => hmoved hmv.2.2,
        fun hnot => hstays fun hap => hnot ⟨hworkers, ⟨owner, ho, hctx⟩, hap⟩⟩
    · obtain ⟨-, rfl⟩ := Prod.mk.inj (Except.ok.inj h)
      refine ⟨fun hmv => ?_,
        fun _ => .post (k := .moveToTaskPool a n.generation p) trivial owner⟩
      obtain ⟨e, he, hcur⟩ := hmv.2.1
      obtain rfl := Option.some.inj (ho.symm.trans he)
      exact absurd hcur hctx

/-! ### The posted tasks -/

/-- The next task of the executor moves the node: it is a request, the node is alive and the
executor owns it. -/
def TaskMoves (w : World) (e : ExecutorId) (a : Addr) : Prop :=
  ∃ k x, w.execs.popTask e = some (k, x) ∧
    ((∃ g t, k = .moveToThread a g t ∧ (w.heap.blocks g).alive = true ∧
        (w.heap.blocks g).owner = some e ∧ (w.withExecs x).AppliesMoveToThread a t) ∨
      ∃ g p, k = .moveToTaskPool a g p ∧ (w.heap.blocks g).alive = true ∧
        (w.heap.blocks g).owner = some e ∧ (w.withExecs x).AppliesMoveToTaskPool a p)

/-- The objects stay; the next task may have listed a node that the executor owns. -/
structure Serves (w w' : World) (e : ExecutorId) : Prop where
  heap : w'.heap = w.heap
  pendingDeletes : ∀ o x, x ∈ w'.execs.pendingDeletes o → x ∈ w.execs.pendingDeletes o ∨
    (o = e ∧ w.heap.ownerOf x = some e)
  tasks : ∀ o k, k ∈ w'.execs.tasks o → k ∈ w.execs.tasks o ∨ k.IsRequest

theorem Stays.serves (hs : w.Stays w') (e : ExecutorId) : w.Serves w' e where
  heap := hs.heap
  pendingDeletes o x hx := Or.inl (hs.pendingDeletes o hx)
  tasks o k hk := (hs.tasks o k hk).imp_right fun h => by
    cases k <;> first | exact h | exact h.elim

/-- The owner that a block names is that of the node it stands for. -/
theorem ownerOf_of_names {g : Generation} (hn : w.heap.Names a g)
    (hg : (w.heap.blocks g).alive = true) : w.heap.ownerOf a = (w.heap.blocks g).owner := by
  obtain ⟨n, hm, rfl⟩ := Option.map_eq_some_iff.mp (hn.2 hg)
  exact Heap.ownerOf_of_mem hm

/-- What the task of `deleteLater` does. -/
theorem runDeleteTask_serves (hc : Consistent w) {e : ExecutorId} {g : Generation}
    (hn : w.heap.Names a g) : w.Serves (w.runDeleteTask e a g) e := by
  rw [runDeleteTask]
  split <;> rename_i halive
  · exact (Stays.refl w).serves e
  · have halive : (w.heap.blocks g).alive = true := by simpa using halive
    have hown := ownerOf_of_names hn halive
    obtain ⟨o, ho⟩ := Option.isSome_iff_exists.mp
      (hc.sound.named.owned a (Consistent.live_of_names hn halive))
    rw [← hown, ho]
    dsimp only
    split <;> rename_i hne
    · refine ⟨rfl, fun o x hx => Or.inl (Executors.pendingDeletes_post o hx), fun o k hk => ?_⟩
      rcases Executors.mem_tasks_post hk with rfl | hk
      · exact Or.inr trivial
      · exact Or.inl hk
    · obtain rfl : o = e := not_not.mp hne
      refine ⟨rfl, fun o' x hx => ?_, fun o' k hk => Or.inl ?_⟩
      · rcases Executors.mem_pendingDeletes_enqueueDelete hx with ⟨rfl, rfl⟩ | hx
        · exact Or.inr ⟨rfl, ho⟩
        · exact Or.inl hx
      · rwa [execs_withExecs, Executors.tasks_enqueueDelete] at hk

/-- What a task of a migration request does: it is dropped, forwarded or applied. -/
theorem runMoveTask_effect (hc : Consistent w) {e : ExecutorId} {g : Generation} {k : Task}
    (apply : World → Outcome World) (P : Prop) (hk : k.IsMove) (hn : w.heap.Names a g)
    (happly : apply w = .ok w' → (P → w.MovedAway w' a) ∧ (¬ P → w.Stays w'))
    (h : w.runMoveTask e g k apply = .ok w') :
    ((w.heap.blocks g).alive = true ∧ (w.heap.blocks g).owner = some e ∧ P →
        w.MovedAway w' a) ∧
      (¬ ((w.heap.blocks g).alive = true ∧ (w.heap.blocks g).owner = some e ∧ P) →
        w.Stays w') := by
  unfold runMoveTask at h
  split at h <;> rename_i halive
  · obtain rfl := Except.ok.inj h
    refine ⟨fun hmv => ?_, fun _ => .refl w⟩
    rw [hmv.1] at halive
    exact absurd halive (by simp)
  · have halive : (w.heap.blocks g).alive = true := by simpa using halive
    obtain ⟨o, ho⟩ := Option.isSome_iff_exists.mp
      (hc.sound.named.owned a (Consistent.live_of_names hn halive))
    rw [ownerOf_of_names hn halive] at ho
    rw [ho] at h
    dsimp only at h
    split at h <;> rename_i hne
    · obtain rfl := Except.ok.inj h
      refine ⟨fun hmv => ?_, fun _ => .post hk o⟩
      exact absurd (Option.some.inj (ho.symm.trans hmv.2.1)) hne
    · obtain rfl : o = e := not_not.mp hne
      obtain ⟨hmoved, hstays⟩ := happly h
      exact ⟨fun hmv => hmoved hmv.2.2, fun hnot => hstays fun hP => hnot ⟨halive, ho, hP⟩⟩

/-- Whatever was taken from the queues before. -/
theorem MovedAway.of_execs {x : Executors} (hq : Executors.NothingQueued w.execs x)
    (hm : (w.withExecs x).MovedAway w' a) : w.MovedAway w' a := by
  obtain ⟨e, hne, hmv⟩ := hm
  exact ⟨e, hne, hmv.mem, hmv.inside, hmv.outside, hq.trans hmv.queues⟩

theorem Serves.of_execs {x : Executors} {e : ExecutorId}
    (hq : Executors.NothingQueued w.execs x) (hs : (w.withExecs x).Serves w' e) :
    w.Serves w' e where
  heap := hs.heap
  pendingDeletes o y hy := (hs.pendingDeletes o y hy).imp_left fun h => hq.pendingDeletes o h
  tasks o k hk := (hs.tasks o k hk).imp_left fun h => hq.tasks o h

/-- **What the next task of an executor does**, when all tasks are requests: it moves one
subtree, or the objects stay as they are. -/
theorem runNextTask_effect {e : ExecutorId} (hc : Consistent w)
    (hreq : ∀ o k, k ∈ w.execs.tasks o → k.IsRequest) (h : w.runNextTask e = .ok w') :
    (∀ a, w.TaskMoves e a → w.MovedAway w' a) ∧
      ((∀ a, ¬ w.TaskMoves e a) → w.Serves w' e) := by
  unfold runNextTask at h
  cases hpop : w.execs.popTask e with
  | none =>
      rw [hpop] at h
      obtain rfl := Except.ok.inj h
      refine ⟨?_, fun _ => (Stays.refl w).serves e⟩
      rintro a ⟨k, x, hk, -⟩
      rw [hpop] at hk
      exact absurd hk (by simp)
  | some r =>
      obtain ⟨k, x⟩ := r
      rw [hpop] at h
      obtain ⟨hb, hs⟩ := Executors.sameBooks_popTask hpop
      obtain ⟨hq, hmem⟩ := Executors.nothingQueued_popTask hpop
      have hcx : Consistent (w.withExecs x) := hc.sameBooks hb hs hq
      have hn := hc.names e k hmem
      have hpopped : ∀ k' x', w.execs.popTask e = some (k', x') → k' = k ∧ x' = x := by
        intro k' x' h'
        rw [hpop] at h'
        obtain ⟨rfl, rfl⟩ := Prod.mk.inj (Option.some.inj h')
        exact ⟨rfl, rfl⟩
      cases k with
      | deleteNode a g =>
          obtain rfl := Except.ok.inj h
          refine ⟨fun b hb => ?_, fun _ => (runDeleteTask_serves hcx hn).of_execs hq⟩
          obtain ⟨k', x', hk', hcase⟩ := hb
          obtain ⟨rfl, rfl⟩ := hpopped k' x' hk'
          rcases hcase with ⟨g', t, hk, -⟩ | ⟨g', p, hk, -⟩
          · exact absurd hk (by simp)
          · exact absurd hk (by simp)
      | moveToThread a g t =>
          have h : (w.withExecs x).runMoveTask e g (.moveToThread a g t)
              (fun w => w.applyMoveToThread a t) = .ok w' := h
          obtain ⟨hmoved, hstays⟩ := runMoveTask_effect (k := .moveToThread a g t) hcx _
            ((w.withExecs x).AppliesMoveToThread a t) trivial hn (applyMoveToThread_effect hcx) h
          constructor
          · rintro b ⟨k', x', hk', hcase⟩
            obtain ⟨rfl, rfl⟩ := hpopped k' x' hk'
            rcases hcase with ⟨g', t', hk, hmv⟩ | ⟨g', p, hk, -⟩
            · obtain ⟨rfl, rfl, rfl⟩ := Task.moveToThread.inj hk
              exact (hmoved hmv).of_execs hq
            · exact absurd hk (by simp)
          · intro hnot
            refine ((hstays fun hmv => hnot a ?_).serves e).of_execs hq
            exact ⟨_, x, hpop, Or.inl ⟨g, t, rfl, hmv⟩⟩
      | moveToTaskPool a g p =>
          change (w.withExecs x).runTask e (.moveToTaskPool a g p) = .ok w' at h
          rw [runTask] at h
          obtain ⟨hmoved, hstays⟩ := runMoveTask_effect (k := .moveToTaskPool a g p) hcx _
            ((w.withExecs x).AppliesMoveToTaskPool a p) trivial hn (fun hu => by
              obtain ⟨r, hr, hu⟩ := Outcome.bind_eq_ok.mp hu
              obtain rfl := Except.ok.inj hu
              exact applyMoveToTaskPool_effect hcx hr) h
          constructor
          · rintro b ⟨k', x', hk', hcase⟩
            obtain ⟨rfl, rfl⟩ := hpopped k' x' hk'
            rcases hcase with ⟨g', t', hk, -⟩ | ⟨g', p', hk, hmv⟩
            · exact absurd hk (by simp)
            · obtain ⟨rfl, rfl, rfl⟩ := Task.moveToTaskPool.inj hk
              exact (hmoved hmv).of_execs hq
          · intro hnot
            refine ((hstays fun hmv => hnot a ?_).serves e).of_execs hq
            exact ⟨_, x, hpop, Or.inr ⟨g, p, rfl, hmv⟩⟩
      | slot a g c => exact (hreq e _ hmem).elim
      | timer q c => exact (hreq e _ hmem).elim
      | timeout q g => exact (hreq e _ hmem).elim
      | call c => exact (hreq e _ hmem).elim

end World

end SimplyNode
