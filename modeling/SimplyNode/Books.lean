import SimplyNode.Edits

/-!
# The Executors' Books

Every executor keeps two records of the nodes it owns: its root list, and a registration of
every node, by address in an event loop (`m_nodes`) and as a number in a strand
(`m_nodeCount`). The books are **balanced** when both agree with the owners that the nodes'
lifetime blocks name: each live node is registered once with its owner and nowhere else, and
each live root stands once in its owner's root list.

## Main results

* `Balanced.setRoot`, `Balanced.attached`, `Balanced.without`, `Balanced.move`: the books
  under the changes that the operations make.
* `Executors.sameBooks_post` and its companions: what does not touch the books.
-/

namespace SimplyNode

namespace Executors

/-- The registrations of an executor are the nodes of a list: by address in an event loop,
by number in a strand. -/
def Registers (x : Executors) : ExecutorId → List Addr → Prop
  | .loop t, l => (x.loops t).nodes = l
  | .strand s, l => (x.strands s).nodeCount = l.length

/-- The registrations and root lists of the two are the same. -/
structure SameBooks (x y : Executors) : Prop where
  nodes : ∀ t, (y.loops t).nodes = (x.loops t).nodes
  nodeCount : ∀ s, (y.strands s).nodeCount = (x.strands s).nodeCount
  rootNodes : ∀ e, y.rootNodes e = x.rootNodes e

variable {x y z : Executors} {e : ExecutorId} {o : Option ExecutorId} {l : List Addr} {a : Addr}

/-- The same books register the same nodes. -/
theorem SameBooks.registers (hs : SameBooks x y) : y.Registers e l ↔ x.Registers e l := by
  cases e with
  | loop t => simp only [Registers, hs.nodes]
  | strand s => simp only [Registers, hs.nodeCount]

/-- The root nodes after `removeRootNode`. -/
theorem rootNodes_removeRootFrom (e : ExecutorId) :
    (x.removeRootFrom o a).rootNodes e =
      if o = some e then (x.rootNodes e).filter (· ≠ a) else x.rootNodes e := by
  cases e with
  | loop t =>
      simp only [rootNodes, loops_removeRootFrom]
      split <;> rfl
  | strand s =>
      simp only [rootNodes, strands_removeRootFrom]
      split <;> rfl

/-- `removeRootNode` registers and forgets no node. -/
theorem registers_removeRootFrom :
    (x.removeRootFrom o a).Registers e l ↔ x.Registers e l := by
  cases e with
  | loop t =>
      simp only [Registers, loops_removeRootFrom]
      split <;> rfl
  | strand s =>
      simp only [Registers, strands_removeRootFrom]
      split <;> rfl

/-- `addRootNode`, on either kind of executor. -/
theorem addRootTo_eq :
    x.addRootTo o a = x.modifyExecutor o (·.addRootNode a) (·.addRootNode a) := by
  rcases o with - | - | -
  all_goals rfl

/-- `addRootNode` leaves the strands to their pools. -/
theorem sameStrands_addRootTo : SameStrands x (x.addRootTo o a) := by
  rw [addRootTo_eq]
  exact .modifyExecutor ..

/-- The root nodes after `addRootNode`. -/
theorem rootNodes_addRootTo (e : ExecutorId) :
    (x.addRootTo o a).rootNodes e =
      if o = some e then x.rootNodes e ++ [a] else x.rootNodes e := by
  cases e with
  | loop t =>
      simp only [rootNodes, addRootTo_eq, loops_modifyExecutor]
      split <;> rfl
  | strand s =>
      simp only [rootNodes, addRootTo_eq, strands_modifyExecutor]
      split <;> rfl

/-- `addRootNode` registers and forgets no node. -/
theorem registers_addRootTo : (x.addRootTo o a).Registers e l ↔ x.Registers e l := by
  cases e with
  | loop t =>
      simp only [Registers, addRootTo_eq, loops_modifyExecutor]
      split <;> rfl
  | strand s =>
      simp only [Registers, addRootTo_eq, strands_modifyExecutor]
      split <;> rfl

/-- `addNode`, on either kind of executor. -/
theorem addNodeTo_eq : x.addNodeTo o a = x.modifyExecutor o (·.addNode a) (·.addNode) := by
  rcases o with - | - | -
  all_goals rfl

/-- `addNode` leaves the strands to their pools. -/
theorem sameStrands_addNodeTo : SameStrands x (x.addNodeTo o a) := by
  rw [addNodeTo_eq]
  exact .modifyExecutor ..

/-- `addNode` adds no root node. -/
theorem rootNodes_addNodeTo (e : ExecutorId) :
    (x.addNodeTo o a).rootNodes e = x.rootNodes e := by
  cases e with
  | loop t =>
      simp only [rootNodes, addNodeTo_eq, loops_modifyExecutor]
      split <;> rfl
  | strand s =>
      simp only [rootNodes, addNodeTo_eq, strands_modifyExecutor]
      split <;> rfl

/-- The nodes that are registered after `addNode`. -/
theorem registers_addNodeTo (hr : x.Registers e l) :
    (x.addNodeTo o a).Registers e (if o = some e then l ++ [a] else l) := by
  cases e with
  | loop t =>
      simp only [Registers, addNodeTo_eq, loops_modifyExecutor] at hr ⊢
      split
      · simp [EventLoop.addNode, hr]
      · exact hr
  | strand s =>
      simp only [Registers, addNodeTo_eq, strands_modifyExecutor] at hr ⊢
      split
      · simp [Strand.addNode, hr]
      · exact hr

/-- The root nodes are the same when nodes are forgotten. -/
@[simp] theorem rootNodes_without {owner : Addr → Option ExecutorId} {timer : Addr → Bool}
    {S : List Addr} (e : ExecutorId) :
    (x.without owner timer S).rootNodes e = x.rootNodes e := by
  cases e <;> rfl

/-- Removing nodes takes them off the registrations of their owners. -/
theorem registers_without {owner : Addr → Option ExecutorId} {timer : Addr → Bool}
    {S : List Addr} (hr : x.Registers e l) (hl : l.Nodup) (hS : S.Nodup)
    (hown : ∀ a, a ∈ l ↔ owner a = some e) :
    (x.without owner timer S).Registers e (l.filter (· ∉ S)) := by
  cases e with
  | loop t =>
      simp only [Registers] at hr
      simp only [Registers, loops_without, EventLoop.forget, hr]
      refine List.filter_congr fun a ha => ?_
      have hoa : owner a = some (.loop t) := (hown a).mp ha
      simp [hoa]
  | strand s =>
      simp only [Registers] at hr
      simp only [Registers, strands_without, Strand.forget, hr]
      have hperm : List.Perm (S.filter fun a => owner a = some (.strand s))
          (l.filter (· ∈ S)) := by
        refine (List.perm_ext_iff_of_nodup (hS.filter _) (hl.filter _)).mpr fun a => ?_
        simp only [List.mem_filter, decide_eq_true_eq, hown]
        exact And.comm
      have hcount : S.countP (fun a => owner a = some (.strand s)) =
          l.countP (· ∈ S) := by
        rw [List.countP_eq_length_filter, List.countP_eq_length_filter, hperm.length_eq]
      have hsplit := List.length_eq_countP_add_countP (p := fun a => decide (a ∈ S)) (l := l)
      have hlen : (l.filter (· ∉ S)).length = l.countP fun a => ¬ decide (a ∈ S) = true := by
        rw [List.countP_eq_length_filter]
        simp
      rw [hcount, hlen]
      omega

/-- The nodes that are registered after `removeNode`. -/
theorem registers_removeNodeFrom (hr : x.Registers e l) (hl : l.Nodup)
    (ha : o = some e → a ∈ l) :
    (x.removeNodeFrom o a).Registers e (if o = some e then l.filter (· ≠ a) else l) := by
  rw [removeNodeFrom_eq]
  cases e with
  | loop t =>
      simp only [Registers, loops_modifyExecutor] at hr ⊢
      split
      · simp [EventLoop.removeNode, hr]
      · exact hr
  | strand s =>
      simp only [Registers, strands_modifyExecutor] at hr ⊢
      split <;> rename_i ho
      · have hlen : (l.erase a).length = l.length - 1 := List.length_erase_of_mem (ha ho)
        have hpos : 0 < l.length := List.length_pos_of_mem (ha ho)
        have herase : l.filter (· ≠ a) = l.erase a := by
          rw [hl.erase_eq_filter]
          refine List.filter_congr fun c _ => ?_
          by_cases hc : c = a <;> simp [hc]
        rw [herase, hlen, Strand.removeNode, hr]
        push_cast
        omega
      · exact hr

/-- `removeNode` removes no root node. -/
theorem rootNodes_removeNodeFrom (e : ExecutorId) :
    (x.removeNodeFrom o a).rootNodes e = x.rootNodes e := by
  rw [removeNodeFrom_eq]
  cases e with
  | loop t =>
      simp only [rootNodes, loops_modifyExecutor]
      split <;> rfl
  | strand s =>
      simp only [rootNodes, strands_modifyExecutor]
      split <;> rfl

/-- `removeNode` leaves the strands to their pools. -/
theorem sameStrands_removeNodeFrom : SameStrands x (x.removeNodeFrom o a) := by
  rw [removeNodeFrom_eq]
  exact .modifyExecutor ..

/-! ### What does not touch the books -/

/-- The books are the same. -/
theorem SameBooks.refl (x : Executors) : SameBooks x x := ⟨fun _ => rfl, fun _ => rfl, fun _ => rfl⟩

/-- The books stay the same step by step. -/
theorem SameBooks.trans (h : SameBooks x y) (h' : SameBooks y z) : SameBooks x z :=
  ⟨fun t => (h'.nodes t).trans (h.nodes t), fun s => (h'.nodeCount s).trans (h.nodeCount s),
    fun e => (h'.rootNodes e).trans (h.rootNodes e)⟩

/-- A change of one loop that keeps its registrations and its root list. -/
theorem SameBooks.modifyLoop (x : Executors) (t : ThreadId) {f : EventLoop → EventLoop}
    (hn : ∀ l, (f l).nodes = l.nodes)
    (hr : ∀ l, (f l).rootNodes = l.rootNodes) :
    SameBooks x (x.modifyLoop t f) where
  nodes t' := by
    by_cases ht : t' = t
    · subst ht
      simp [Executors.modifyLoop, hn]
    · simp [Executors.modifyLoop, ht]
  nodeCount _ := rfl
  rootNodes e := by
    cases e with
    | strand s => rfl
    | loop t' =>
        by_cases ht : t' = t
        · subst ht
          simp [Executors.rootNodes, Executors.modifyLoop, hr]
        · simp [Executors.rootNodes, Executors.modifyLoop, ht]

/-- A change of one strand that keeps its count and its root list. -/
theorem SameBooks.modifyStrand (x : Executors) (s : StrandId) {f : Strand → Strand}
    (hn : ∀ l, (f l).nodeCount = l.nodeCount)
    (hr : ∀ l, (f l).rootNodes = l.rootNodes) :
    SameBooks x (x.modifyStrand s f) where
  nodes _ := rfl
  nodeCount s' := by
    by_cases hs : s' = s
    · subst hs
      simp [Executors.modifyStrand, hn]
    · simp [Executors.modifyStrand, hs]
  rootNodes e := by
    cases e with
    | loop t => rfl
    | strand s' =>
        by_cases hs : s' = s
        · subst hs
          simp [Executors.rootNodes, Executors.modifyStrand, hr]
        · simp [Executors.rootNodes, Executors.modifyStrand, hs]

/-- A pool has no books. -/
theorem SameBooks.modifyPool (x : Executors) (p : PoolId) (f : TaskPool → TaskPool) :
    SameBooks x (x.modifyPool p f) :=
  ⟨fun _ => rfl, fun _ => rfl, fun e => by cases e <;> rfl⟩

/-- `cancelTimer` keeps the books. -/
theorem sameBooks_cancelTimerWith : SameBooks x (x.cancelTimerWith o a) := by
  rcases o with - | t | s
  · exact .refl x
  · exact SameBooks.modifyLoop x t (f := (·.cancelTimer a)) (fun _ => rfl) fun _ => rfl
  · exact SameBooks.modifyPool x (x.strands s).pool (·.cancelTimer a)

/-- `scheduleTimer` keeps the books. -/
theorem sameBooks_scheduleTimerWith {p : NodePtr} {d : TimePoint} {g : ℕ} :
    SameBooks x (x.scheduleTimerWith o p d g) := by
  rcases o with - | t | s
  · exact .refl x
  · exact SameBooks.modifyLoop x t (f := (·.scheduleTimer p.node d g)) (fun _ => rfl) fun _ => rfl
  · exact SameBooks.modifyPool x (x.strands s).pool (·.scheduleTimer ⟨d, s, p, g⟩)

/-- A change of one pool that keeps its free strands. -/
theorem SameStrands.modifyPool (x : Executors) (p : PoolId) {f : TaskPool → TaskPool}
    (hf : ∀ q, (f q).freeStrands = q.freeStrands) : SameStrands x (x.modifyPool p f) where
  nextStrand := rfl
  freeStrands p' := by
    by_cases hp : p' = p
    · subst hp
      simp [Executors.modifyPool, hf]
    · simp [Executors.modifyPool, hp]

/-- `cancelTimer` leaves the strands to their pools. -/
theorem sameStrands_cancelTimerWith : SameStrands x (x.cancelTimerWith o a) := by
  rcases o with - | t | s
  · exact .refl x
  · exact ⟨rfl, fun _ => rfl⟩
  · exact SameStrands.modifyPool x (x.strands s).pool (f := (·.cancelTimer a)) fun _ => rfl

/-- `scheduleTimer` leaves the strands to their pools. -/
theorem sameStrands_scheduleTimerWith {p : NodePtr} {d : TimePoint} {g : ℕ} :
    SameStrands x (x.scheduleTimerWith o p d g) := by
  rcases o with - | t | s
  · exact .refl x
  · exact ⟨rfl, fun _ => rfl⟩
  · refine SameStrands.modifyPool x (x.strands s).pool
      (f := (·.scheduleTimer ⟨d, s, p, g⟩)) fun q => ?_
    rw [TaskPool.scheduleTimer]
    split <;> rfl

/-- An offered drain keeps the books. -/
theorem sameBooks_scheduleStrand {s : StrandId} : SameBooks x (x.scheduleStrand s) := by
  rw [scheduleStrand]
  split
  · exact .modifyPool x _ _
  · exact .modifyStrand x s (fun _ => rfl) fun _ => rfl

/-- `post` keeps the books. -/
theorem sameBooks_post {t : Task} : SameBooks x (x.post e t) := by
  cases e with
  | loop th => exact SameBooks.modifyLoop x th (f := (·.post t)) (fun _ => rfl) fun _ => rfl
  | strand s =>
      simp only [post, postStrand]
      split
      · exact .refl x
      · split
        · exact .modifyStrand x s (fun _ => rfl) fun _ => rfl
        · exact SameBooks.trans (.modifyStrand x s (by intro; rfl) (by intro; rfl))
            sameBooks_scheduleStrand

/-- A pending delete keeps the books. -/
theorem sameBooks_enqueueDelete : SameBooks x (x.enqueueDelete e a) := by
  cases e with
  | loop t =>
      refine SameBooks.modifyLoop x t (f := (·.enqueueDelete a)) (fun l => ?_) fun l => ?_
      · rw [EventLoop.enqueueDelete]
        split <;> rfl
      · rw [EventLoop.enqueueDelete]
        split <;> rfl
  | strand s =>
      exact SameBooks.modifyStrand x s (f := (·.enqueueDelete a)) (fun _ => rfl) fun _ => rfl

/-- A strand that is recycled keeps the books. -/
theorem sameBooks_recycleStrandIfIdle {s : StrandId} :
    SameBooks x (x.recycleStrandIfIdle s) := by
  rw [recycleStrandIfIdle]
  split
  · exact SameBooks.trans (.modifyStrand x s (by intro; rfl) (by intro; rfl)) (.modifyPool _ _ _)
  · exact .refl x

end Executors

/-- The executors' books agree with the owners of the live nodes. -/
structure Balanced (h : Heap) (x : Executors) : Prop where
  nodes : ∀ e, ∃ l : List Addr, l.Nodup ∧ (∀ a, a ∈ l ↔ h.ownerOf a = some e) ∧
    x.Registers e l
  nodup : ∀ e, (x.rootNodes e).Nodup
  roots : ∀ e a, a ∈ x.rootNodes e ↔ h.isRoot a = true ∧ h.ownerOf a = some e

namespace Balanced

variable {h h' : Heap} {x y : Executors} {a : Addr} {e : ExecutorId}

/-- The books are about the books only. -/
theorem sameBooks (hb : Balanced h x) (hs : Executors.SameBooks x y) : Balanced h y where
  nodes e := by
    obtain ⟨l, hl, hm, hr⟩ := hb.nodes e
    exact ⟨l, hl, hm, hs.registers.mpr hr⟩
  nodup e := by
    rw [hs.rootNodes]
    exact hb.nodup e
  roots e a := by
    rw [hs.rootNodes]
    exact hb.roots e a

/-- The owners and the roots are all that matters of the heap. -/
theorem congr (hb : Balanced h x) (ho : ∀ a, h'.ownerOf a = h.ownerOf a)
    (hr : ∀ a, h'.isRoot a = h.isRoot a) : Balanced h' x where
  nodes e := by
    simp only [ho]
    exact hb.nodes e
  nodup := hb.nodup
  roots e a := by
    rw [hr, ho]
    exact hb.roots e a

/-- **A node becomes a root or ceases to be one**: it leaves its owner's root list, and
enters it again if it is one. -/
theorem setRoot {b : Bool} (hb : Balanced h x) (ho : ∀ c, h'.ownerOf c = h.ownerOf c)
    (hr : ∀ c, h'.isRoot c = if c = a then b else h.isRoot c) (hown : h.ownerOf a = some e)
    (hreg : ∀ e l, x.Registers e l → y.Registers e l)
    (hroots : ∀ e', y.rootNodes e' = (x.rootNodes e').filter (· ≠ a) ++
      if b = true ∧ e' = e then [a] else []) : Balanced h' y where
  nodes e' := by
    obtain ⟨l, hl, hm, hlr⟩ := hb.nodes e'
    exact ⟨l, hl, fun c => by rw [ho, hm], hreg e' l hlr⟩
  nodup e' := by
    rw [hroots]
    exact Heap.nodup_filter_append_ite (hb.nodup e') a (b = true ∧ e' = e)
  roots e' c := by
    rw [hroots, List.mem_append, List.mem_filter, hb.roots, hr, ho]
    by_cases hc : c = a
    · subst hc
      rw [hown]
      by_cases hbe : b = true ∧ e' = e
      · obtain ⟨rfl, rfl⟩ := hbe
        simp
      · rw [if_neg hbe, if_pos rfl]
        simp only [ne_eq, not_true_eq_false, decide_false, Bool.false_eq_true, and_false,
          List.not_mem_nil, or_self, false_iff]
        rintro ⟨rfl, he⟩
        exact hbe ⟨rfl, (Option.some.inj he).symm⟩
    · have hno : c ∉ (if b = true ∧ e' = e then [a] else []) := by
        split
        · simpa using hc
        · exact List.not_mem_nil
      simp [hc, hno]

/-- A node that is no root stands in no root list. -/
theorem filter_rootNodes (hb : Balanced h x) (hr : h.isRoot a = false ∨ h.ownerOf a ≠ some e) :
    (x.rootNodes e).filter (· ≠ a) = x.rootNodes e := by
  refine List.filter_eq_self.mpr fun c hc => ?_
  have hca : c ≠ a := by
    rintro rfl
    obtain ⟨hroot, hown⟩ := (hb.roots e c).mp hc
    rcases hr with h | h
    · rw [h] at hroot
      exact Bool.false_ne_true hroot
    · exact h hown
  simpa using hca

/-- Leaving the owner's root list, in the form of `setRoot`. -/
theorem rootNodes_removeRootFrom (hb : Balanced h x) (e : ExecutorId) :
    (x.removeRootFrom (h.ownerOf a) a).rootNodes e = (x.rootNodes e).filter (· ≠ a) := by
  rw [Executors.rootNodes_removeRootFrom]
  split <;> rename_i he
  · rfl
  · exact (hb.filter_rootNodes (Or.inr he)).symm

/-- **A new node** enters the registrations of its owner, and its root list if it is a
root. -/
theorem attached (hb : Balanced h x) {b : Bool} (ha : h.mem a = none)
    (ho : ∀ c, h'.ownerOf c = if c = a then some e else h.ownerOf c)
    (hr : ∀ c, h'.isRoot c = if c = a then b else h.isRoot c)
    (hreg : ∀ e' l, x.Registers e' l → y.Registers e' (if e = e' then l ++ [a] else l))
    (hroots : ∀ e', y.rootNodes e' = x.rootNodes e' ++ if b = true ∧ e = e' then [a] else []) :
    Balanced h' y where
  nodes e' := by
    obtain ⟨l, hl, hm, hlr⟩ := hb.nodes e'
    have hal : a ∉ l := fun hmem => by
      have hlive := Heap.live_of_ownerOf ((hm a).mp hmem)
      rw [Heap.Live, ha] at hlive
      exact absurd hlive (by simp)
    refine ⟨if e = e' then l ++ [a] else l, ?_, fun c => ?_, hreg e' l hlr⟩
    · split
      · exact List.Nodup.append hl (List.nodup_singleton a) (by simpa using hal)
      · exact hl
    · rw [ho]
      by_cases hc : c = a
      · subst hc
        by_cases he : e = e'
        · simp [he]
        · simp [he, hal]
      · by_cases he : e = e'
        · subst he
          simp [hc, hm]
        · simp [hc, he, hm]
  nodup e' := by
    rw [hroots]
    refine List.Nodup.append (hb.nodup e') ?_ ?_
    · split
      · exact List.nodup_singleton a
      · exact List.nodup_nil
    · intro c hc hca
      split at hca
      · obtain rfl := List.mem_singleton.mp hca
        have hlive := Heap.live_of_ownerOf ((hb.roots e' c).mp hc).2
        rw [Heap.Live, ha] at hlive
        exact absurd hlive (by simp)
      · exact List.not_mem_nil hca
  roots e' c := by
    rw [hroots, List.mem_append, hb.roots, hr, ho]
    have hno : h.ownerOf a = none := by simp [Heap.ownerOf, ha]
    by_cases hc : c = a
    · subst hc
      rw [if_pos rfl, if_pos rfl, hno]
      simp only [reduceCtorEq, and_false, false_or, Option.some.injEq]
      split <;> rename_i hbe
      · simpa using hbe
      · simpa using hbe
    · have hna : c ∉ (if b = true ∧ e = e' then [a] else []) := by
        split
        · simpa using hc
        · exact List.not_mem_nil
      simp [hc, hna]

/-- **Nodes are removed**: their registrations go, and so do the roots among them. -/
theorem without (hb : Balanced h x) {S : List Addr} (hS : S.Nodup) (ha : a ∈ S)
    (honly : ∀ c ∈ S, c ≠ a → h.isRoot c = false) {timer : Addr → Bool}
    (ho : ∀ c, h'.ownerOf c = if c ∈ S then none else h.ownerOf c)
    (hr : ∀ c, h'.isRoot c = if c ∈ S then false else h.isRoot c)
    (hreg : ∀ e l, x.Registers e l → y.Registers e l)
    (hroots : ∀ e, y.rootNodes e = (x.rootNodes e).filter (· ≠ a)) :
    Balanced h' (y.without h.ownerOf timer S) where
  nodes e := by
    obtain ⟨l, hl, hm, hlr⟩ := hb.nodes e
    refine ⟨_, hl.filter _, fun c => ?_, Executors.registers_without (hreg e l hlr) hl hS hm⟩
    rw [List.mem_filter, hm, ho]
    by_cases hc : c ∈ S
    · simp [hc]
    · simp [hc]
  nodup e := by
    rw [Executors.rootNodes_without, hroots]
    exact (hb.nodup e).filter _
  roots e c := by
    rw [Executors.rootNodes_without, hroots, List.mem_filter, hb.roots, hr, ho]
    by_cases hc : c ∈ S
    · simp only [if_pos hc, decide_eq_true_eq]
      constructor
      · rintro ⟨⟨hroot, -⟩, hca⟩
        rw [honly c hc hca] at hroot
        exact absurd hroot (by simp)
      · rintro ⟨hf, -⟩
        exact absurd hf (by simp)
    · have hca : c ≠ a := fun h => hc (h ▸ ha)
      simp [hc, hca]

/-- **A node moves** from one executor to another: the one forgets it, the other one
registers it. -/
theorem move (hb : Balanced h x) {e' : ExecutorId} (hown : h.ownerOf a = some e)
    (hne : e ≠ e') (ho : ∀ c, h'.ownerOf c = if c = a then some e' else h.ownerOf c)
    (hr : ∀ c, h'.isRoot c = h.isRoot c)
    (hreg : ∀ d l, l.Nodup → (d = e → a ∈ l) → x.Registers d l → y.Registers d
      (if d = e then l.filter (· ≠ a) else if d = e' then l ++ [a] else l))
    (hroots : ∀ d, y.rootNodes d = if d = e then (x.rootNodes d).filter (· ≠ a)
      else if d = e' ∧ h.isRoot a = true then x.rootNodes d ++ [a] else x.rootNodes d) :
    Balanced h' y := by
  have hroot_ne : ∀ d, d ≠ e → a ∉ x.rootNodes d := fun d hd hmem =>
    hd (Option.some.inj (((hb.roots d a).mp hmem).2.symm.trans hown))
  exact
    { nodes := fun d => by
        obtain ⟨l, hl, hm, hlr⟩ := hb.nodes d
        refine ⟨_, ?_, fun c => ?_, hreg d l hl (fun hd => (hm a).mpr (hd ▸ hown)) hlr⟩
        · split
          · exact hl.filter _
          · split <;> rename_i hd hd'
            · refine hl.append (List.nodup_singleton a) ?_
              have hal : a ∉ l := fun hmem =>
                hd (Option.some.inj (((hm a).mp hmem).symm.trans hown))
              simpa using hal
            · exact hl
        · rw [ho]
          by_cases hd : d = e
          · subst hd
            by_cases hc : c = a
            · subst hc
              simp [Ne.symm hne]
            · simp [hc, hm]
          · rw [if_neg hd]
            by_cases hd' : d = e'
            · subst hd'
              by_cases hc : c = a
              · simp [hc]
              · simp [hc, hm]
            · rw [if_neg hd']
              by_cases hc : c = a
              · subst hc
                simp [hm, hown, Ne.symm hd, Ne.symm hd']
              · simp [hc, hm]
      nodup := fun d => by
        rw [hroots]
        split <;> rename_i hd
        · exact (hb.nodup d).filter _
        · split
          · refine (hb.nodup d).append (List.nodup_singleton a) ?_
            simpa using hroot_ne d hd
          · exact hb.nodup d
      roots := fun d c => by
        rw [hroots, hr, ho]
        have hmem := hb.roots d c
        by_cases hd : d = e
        · subst hd
          by_cases hc : c = a
          · subst hc
            simp [Ne.symm hne]
          · simp [hc, hmem]
        · rw [if_neg hd]
          by_cases hc : c = a
          · subst hc
            have hno := hroot_ne d hd
            by_cases hd' : d = e'
            · subst hd'
              cases hra : h.isRoot c with
              | true => simp
              | false => simpa using hno
            · simp [hd', hno, Ne.symm hd']
          · split
            · simp [hc, hmem]
            · simp [hmem] }

end Balanced

end SimplyNode
