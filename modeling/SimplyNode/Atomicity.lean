import SimplyNode.Handover
import SimplyNode.Trees

/-!
# Migrations as Seen from the New Owner

A node that has been given to its new owner is run by it at once, while the old owner is still
giving it the rest of the tree: the new owner ticks a root whose children belong to the old owner,
and runs them, too. And what the old owner has copied before, the roots left of a tick or the timers
that were due, it still runs when the nodes belong to another one.

If nobody runs a node of the tree while `applyMoveTo` is under way, and the old owner has none in
hand when it begins, the migration is atomic.

## Main results

* `Underway.step`: what a step leaves of the migration that is to be made, and of what the old owner
  has of the tree.
* `migration_atomic`: when the new owner makes a step on a node of the tree, all of the tree belongs
  to it, and the old owner makes no step on the tree from then on.
* `root_ticked_during_move`: a root is ticked by its new owner while its child is the old owner's.
-/

open PointerForest Transition TreeWalk

namespace SimplyNode

namespace Handover

variable {s s' : Handover} {old target e : ExecutorId} {a b c x : Addr} {l : HandoverStep}
  {kids : Addr → List Addr} {i : MovePart} {rest : List (Visit Addr MovePart)} {m : Node}

/-- What is below `a` is a tree of its own: every node is the child of one, and `a` of none. -/
structure TopOf (kids : Addr → List Addr) (a : Addr) : Prop where
  one : ∀ p q c, c ∈ kids p → c ∈ kids q → p = q
  nodup : ∀ p, (kids p).Nodup
  top : ∀ p, a ∉ kids p

/-- Where a child is below `a`, the parent is. -/
theorem TopOf.below_parent (ht : TopOf kids a) (hc : c ∈ kids b) (h : Below kids a c) :
    Below kids a b := by
  obtain ⟨p, hp, hcp⟩ := Below.owner h (by
    rintro rfl
    exact ht.top b hc)
  exact ht.one p b c hcp hc ▸ hp

/-- The executor `old` is about to move the node `a`, which it owns, and the checks of the request
have been made. -/
structure Begins (s : Handover) (old target : ExecutorId) (a : Addr) : Prop where
  consistent : Consistent s.world
  timers : ∀ t, ∀ y ∈ (s.world.execs.loops t).timers, s.world.heap.isTimer y.timer = true
  program : s.program = [⟨a, .cancel⟩]
  owner : s.world.heap.ownerOf a = some old
  parent : ∀ p, s.world.heap.parentOf a = some p → s.world.heap.ownerOf p = some target
  ne : old ≠ target

/-- **The invariant** of a migration of the tree below `a`. A node that is not given to the new
owner yet is ahead in the walk; a root that the old owner lists is ahead of the part that takes it
out; and an entry that it has of a timer is ahead of the part that cancels it. -/
structure Underway (kids : Addr → List Addr) (a : Addr) (old target : ExecutorId) (s : Handover) :
    Prop where
  tree : s.world.heap.childrenOf = kids
  named : s.world.heap.Named
  names : ∀ e, ∀ k ∈ s.world.execs.tasks e, k.Names s.world.heap
  timers : ∀ t, ∀ y ∈ (s.world.execs.loops t).timers, s.world.heap.isTimer y.timer = true
  roots : ∀ e, ∀ x ∈ s.world.execs.rootNodes e, s.world.heap.isRoot x = true
  below : ∀ k ∈ s.program, Below kids a k.node
  apart : Apart kids s.program
  fresh : ∀ x, Ahead kids MovePart.rank 2 s.program x → s.world.heap.ownerOf x = some old
  moved : ∀ x, Below kids a x → Ahead kids MovePart.rank 2 s.program x ∨
    s.world.heap.ownerOf x = some target
  root : ∀ x ∈ s.world.execs.rootNodes old, Below kids a x →
    Ahead kids MovePart.rank 1 s.program x
  entry : ∀ t, old = .loop t → ∀ y ∈ (s.world.execs.loops t).timers,
    Below kids a y.timer → Ahead kids MovePart.rank 0 s.program y.timer
  hand : ∀ h ∈ s.inHand old, ¬ Below kids a h.node

/-- The condition on a step: nobody but `applyMoveTo` makes a step on a node of the tree before it
has returned. -/
def Undivided (kids : Addr → List Addr) (a : Addr) (old : ExecutorId) (s : Handover)
    (l : HandoverStep) : Prop :=
  ∀ e x, s.acts old l = some (e, x) → Below kids a x → l = .move ∨ s.program = []

/-! ### The beginning -/

/-- The old owner's own tree is what moves. -/
theorem Begins.parentOf (h : s.Begins old target a) : s.world.heap.parentOf a = none := by
  cases hp : s.world.heap.parentOf a with
  | none => rfl
  | some p =>
      have hown := h.consistent.sound.affine a p hp
      rw [h.owner, h.parent p hp] at hown
      exact absurd (Option.some.inj hown) h.ne

theorem Begins.topOf (h : s.Begins old target a) : TopOf s.world.heap.childrenOf a where
  one p q c hp hq := by
    have hl := h.consistent.sound.linked.mem_childrenOf
    exact Option.some.inj (((hl p c).mp hp).symm.trans ((hl q c).mp hq))
  nodup := h.consistent.sound.linked.nodup
  top p hp := by
    have hpar := (h.consistent.sound.linked.mem_childrenOf p a).mp hp
    rw [h.parentOf] at hpar
    exact absurd hpar (by simp)

/-- The whole tree has the old owner. -/
theorem Begins.ownerOf (h : s.Begins old target a) (hx : Below s.world.heap.childrenOf a x) :
    s.world.heap.ownerOf x = some old := by
  induction hx with
  | refl => exact h.owner
  | @tail p c _ hc ih =>
      have hpar := (h.consistent.sound.linked.mem_childrenOf p c).mp hc
      rw [h.consistent.sound.affine c p hpar]
      exact ih

/-- The migration is under way when it begins, and the old owner has nothing of the tree in hand. -/
theorem Begins.underway (h : s.Begins old target a)
    (hhand : ∀ k ∈ s.inHand old, ¬ Below s.world.heap.childrenOf a k.node) :
    Underway s.world.heap.childrenOf a old target s := by
  have hahead : ∀ n x, Below s.world.heap.childrenOf a x →
      Ahead s.world.heap.childrenOf MovePart.rank n s.program x := by
    intro n x hx
    rw [h.program]
    exact ⟨_, List.mem_cons_self, hx, fun _ => Nat.zero_le n⟩
  refine ⟨rfl, h.consistent.sound.named, h.consistent.names, h.timers, ?_, ?_, ?_, ?_, ?_, ?_, ?_,
    hhand⟩
  · intro e x hx
    exact ((h.consistent.sound.balanced.roots e x).mp hx).1
  · intro k hk
    rw [h.program, List.mem_singleton] at hk
    rw [hk]
  · rw [h.program]
    exact List.pairwise_singleton ..
  · rintro x ⟨k, hk, hx, -⟩
    rw [h.program, List.mem_singleton] at hk
    rw [hk] at hx
    exact h.ownerOf hx
  · intro x hx
    exact Or.inl (hahead 2 x hx)
  · intro x _ hx
    exact hahead 1 x hx
  · intro t _ y _ hy
    exact hahead 0 _ hy

/-! ### Steps that are not part of the migration -/

theorem not_ahead_nil {n : ℕ} : ¬ Ahead kids MovePart.rank n [] x := by
  rintro ⟨k, hk, -⟩
  exact absurd hk List.not_mem_nil

/-- When `applyMoveTo` has returned, the whole tree has the new owner. -/
theorem Underway.ownerOf (h : Underway kids a old target s) (hp : s.program = [])
    (hx : Below kids a x) : s.world.heap.ownerOf x = some target := by
  rcases h.moved x hx with hx | hx
  · rw [hp] at hx
    exact absurd hx not_ahead_nil
  · exact hx

/-- What the old owner takes in hand, after the migration, is not of the tree. -/
theorem Underway.source (ht : TopOf kids a) (h : Underway kids a old target s)
    (hp : s.program = []) {k : Held} (hs : Source s old k) : ¬ Below kids a k.node := by
  intro hk
  cases hs with
  | held hmem => exact h.hand k hmem hk
  | root hr =>
      have hahead := h.root _ hr hk
      rw [hp] at hahead
      exact not_ahead_nil hahead
  | due ho hx =>
      have hahead := h.entry _ ho _ hx hk
      rw [hp] at hahead
      exact not_ahead_nil hahead
  | child hmem hc =>
      rw [h.tree] at hc
      exact h.hand _ hmem (ht.below_parent hc hk)
  | self hmem => exact h.hand _ hmem hk

/-- Where tree, owners and root lists are kept, the rest is about what is ahead. -/
theorem Underway.ofKeeps (h : Underway kids a old target s) {z : Option Addr}
    (hk : Keeps s.world s'.world z) (hbelow : ∀ k ∈ s'.program, Below kids a k.node)
    (hapart : Apart kids s'.program)
    (h₂ : ∀ x, Ahead kids MovePart.rank 2 s'.program x ↔
      Ahead kids MovePart.rank 2 s.program x)
    (h₁ : ∀ x, Ahead kids MovePart.rank 1 s.program x →
      Ahead kids MovePart.rank 1 s'.program x)
    (hentry : ∀ t, old = .loop t → ∀ y ∈ (s'.world.execs.loops t).timers,
      Below kids a y.timer → Ahead kids MovePart.rank 0 s'.program y.timer)
    (hhand : ∀ k ∈ s'.inHand old, ¬ Below kids a k.node) : Underway kids a old target s' where
  tree := (funext hk.tree.childrenOf).trans h.tree
  named := hk.tree.named h.named
  names e k hmem := by
    rcases hk.tasks e k hmem with hmem | hnames
    · exact (h.names e k hmem).keeps (.sameTree hk.tree)
    · exact hnames
  timers t y hy := by
    rw [hk.timers]
    rcases hk.entries t y hy with hy | ⟨-, -, ht⟩
    · exact h.timers t y hy
    · exact ht
  roots e x hx := by
    rw [hk.books.rootNodes] at hx
    rw [hk.tree.isRoot]
    exact h.roots e x hx
  below := hbelow
  apart := hapart
  fresh x hx := by
    rw [hk.tree.ownerOf]
    exact h.fresh x ((h₂ x).mp hx)
  moved x hx := by
    rw [hk.tree.ownerOf]
    rcases h.moved x hx with hahead | hown
    · exact Or.inl ((h₂ x).mpr hahead)
    · exact Or.inr hown
  root x hx hb := by
    rw [hk.books.rootNodes] at hx
    exact h₁ x (h.root x hx hb)
  entry := hentry
  hand := hhand

/-- A step that is not part of the migration. -/
theorem Underway.keeps (ht : TopOf kids a) (hne : old ≠ target)
    (h : Underway kids a old target s) (hg : Undivided kids a old s l) (hl : l ≠ .move)
    (hk : Keeps s.world s'.world ((s.acts old l).map Prod.snd)) (hprog : s'.program = s.program)
    (hhand : ∀ e, s'.inHand e = s.inHand e ∨
      s.Free old e ∧ ∀ k ∈ s'.inHand e, Source s e k) :
    Underway kids a old target s' := by
  refine h.ofKeeps hk ?_ ?_ ?_ ?_ ?_ ?_
  · rw [hprog]
    exact h.below
  · rw [hprog]
    exact h.apart
  · rw [hprog]
    exact fun _ => Iff.rfl
  · rw [hprog]
    exact fun _ => id
  · intro t hold y hy hb
    rw [hprog]
    rcases hk.entries t y hy with hy | ⟨hx, hown, -⟩
    · exact h.entry t hold y hy hb
    · -- somebody has armed a timer of the tree, so `applyMoveTo` has returned
      obtain ⟨⟨e, x⟩, hacts, rfl⟩ := Option.map_eq_some_iff.mp hx
      rcases hg e _ hacts hb with hmove | hp
      · exact absurd hmove hl
      · have htarget := h.ownerOf hp hb
        rw [hown, ← hold] at htarget
        exact absurd (Option.some.inj htarget) hne
  · intro k hk'
    rcases hhand old with heq | ⟨hfree, hsource⟩
    · rw [heq] at hk'
      exact h.hand k hk'
    · exact h.source ht (hfree rfl) (hsource k hk')

/-! ### The parts of the migration -/

/-- What is ahead when a part other than the one that publishes is made. -/
theorem ahead_next_iff {n : ℕ} (hi : i ≠ .children) (hn : i.rank ≠ n) :
    Ahead kids MovePart.rank n (⟨c, i.next⟩ :: rest) x ↔
      Ahead kids MovePart.rank n (⟨c, i⟩ :: rest) x :=
  ⟨fun h => h.of_advance (MovePart.rank_next hi),
    fun h => h.advance (MovePart.rank_next hi) fun _ => hn⟩

/-- The visit under way is of a node of the tree. -/
theorem Underway.below_next (h : Underway kids a old target s)
    (hp : s.program = ⟨c, i⟩ :: rest) :
    ∀ k ∈ (⟨c, i.next⟩ :: rest : List (Visit Addr MovePart)), Below kids a k.node := by
  intro k hk
  rcases List.mem_cons.mp hk with rfl | hk
  · exact h.below ⟨c, i⟩ (hp ▸ List.mem_cons_self)
  · exact h.below k (hp ▸ List.mem_cons_of_mem _ hk)

theorem Underway.apart_next (h : Underway kids a old target s)
    (hp : s.program = ⟨c, i⟩ :: rest) : Apart kids (⟨c, i.next⟩ :: rest) := by
  have hap := h.apart
  rw [hp] at hap
  exact hap.advance

/-- A node in front of the part that publishes has the old owner. -/
theorem Underway.owner_old (h : Underway kids a old target s)
    (hp : s.program = ⟨c, i⟩ :: rest) (hi : i.rank ≤ 2) :
    s.world.heap.ownerOf c = some old := by
  refine h.fresh c ?_
  rw [hp]
  exact ⟨_, List.mem_cons_self, .refl, fun _ => hi⟩

/-- A node behind it has the new one. -/
theorem Underway.owner_target (h : Underway kids a old target s)
    (hp : s.program = ⟨c, i⟩ :: rest) (hi : 2 < i.rank) :
    s.world.heap.ownerOf c = some target := by
  rcases h.moved c (h.below ⟨c, i⟩ (hp ▸ List.mem_cons_self)) with hahead | hown
  · have hap := h.apart
    rw [hp] at hap hahead
    exact absurd hahead (hap.not_ahead hi)
  · exact hown

/-- The owner cancels the timer, and what is ahead of that part has still its entry. -/
theorem Underway.cancel (h : Underway kids a old target s)
    (hp : s.program = ⟨c, .cancel⟩ :: rest) (hm : s.world.heap.mem c = some m) :
    Underway kids a old target
      { s with
        world := s.world.onAboutToMoveToThread c m
        program := ⟨c, .leave⟩ :: rest } := by
  have hown : s.world.heap.ownerExecutor m = some old :=
    (Heap.ownerOf_of_mem hm).symm.trans (h.owner_old hp (by decide))
  have hkeeps : Keeps s.world (s.world.onAboutToMoveToThread c m) none := by
    rw [World.onAboutToMoveToThread]
    split
    · exact .cancelTimer
    · exact .refl _ _
  -- the entries of the node itself are gone
  have hgone : ∀ t, old = ExecutorId.loop t →
      ∀ y ∈ ((s.world.onAboutToMoveToThread c m).execs.loops t).timers,
        y ∈ (s.world.execs.loops t).timers ∧ y.timer ≠ c := by
    intro t hold y hy
    cases hcls : m.cls with
    | timer st =>
        simp only [World.onAboutToMoveToThread, hcls, World.execs_withExecs, hown,
          Executors.loops_cancelTimerWith] at hy
        obtain ⟨hy, hne⟩ := List.mem_filter.mp hy
        exact ⟨hy, fun hyc => by simp [hyc, hold] at hne⟩
    | plain | pooled | eventLoopOnly =>
        simp only [World.onAboutToMoveToThread, hcls] at hy
        refine ⟨hy, fun hyc => ?_⟩
        have htimer := h.timers t y hy
        rw [hyc, Heap.isTimer, hm] at htimer
        simp [hcls, NodeClass.isTimer] at htimer
  refine h.ofKeeps hkeeps (h.below_next hp) (h.apart_next hp) (fun x => ?_) (fun x hx => ?_)
    (fun t hold y hy hb => ?_) h.hand
  · rw [hp]
    exact ahead_next_iff (i := .cancel) (by decide) (by decide)
  · rw [hp] at hx
    exact (ahead_next_iff (i := .cancel) (by decide) (by decide)).mpr hx
  · obtain ⟨hy, hne⟩ := hgone t hold y hy
    have hahead := h.entry t hold y hy hb
    rw [hp] at hahead
    exact hahead.advance rfl fun hyc => absurd hyc hne

/-- The new owner arms the timer. -/
theorem Underway.arm (hne : old ≠ target) (h : Underway kids a old target s)
    (hp : s.program = ⟨c, .arm⟩ :: rest) (hm : s.world.heap.mem c = some m) :
    Underway kids a old target
      { s with world := s.world.onMovedToThread c m, program := ⟨c, .children⟩ :: rest } := by
  have hown : s.world.heap.ownerOf c = some target := h.owner_target hp (by decide)
  have hkeeps : Keeps s.world (s.world.onMovedToThread c m) (some c) := by
    rw [World.onMovedToThread]
    split
    · rename_i st hcls
      split
      · refine .scheduleTimer rfl (Heap.ownerOf_of_mem hm) ?_
        change s.world.heap.isTimer c = true
        simp [Heap.isTimer, hm, hcls, NodeClass.isTimer]
      · exact .refl _ _
    · exact .refl _ _
  refine h.ofKeeps hkeeps (h.below_next hp) (h.apart_next hp) (fun x => ?_) (fun x hx => ?_)
    (fun t hold y hy hb => ?_) h.hand
  · rw [hp]
    exact ahead_next_iff (i := .arm) (by decide) (by decide)
  · rw [hp] at hx
    exact (ahead_next_iff (i := .arm) (by decide) (by decide)).mpr hx
  · rcases hkeeps.entries t y hy with hy | ⟨hyc, hyo, -⟩
    · have hahead := h.entry t hold y hy hb
      rw [hp] at hahead
      exact (ahead_next_iff (i := .arm) (by decide) (by decide)).mpr hahead
    · obtain rfl := Option.some.inj hyc
      rw [hown, ← hold] at hyo
      exact absurd (Option.some.inj hyo).symm hne

/-- `applyMoveTo` goes on with the children. -/
theorem Underway.children (ht : TopOf kids a) (h : Underway kids a old target s)
    (hp : s.program = ⟨c, .children⟩ :: rest) :
    Underway kids a old target
      { s with program := childVisits s.world.heap.childrenOf c .cancel ++ rest } := by
  have hc : Below kids a c := h.below ⟨c, .children⟩ (hp ▸ List.mem_cons_self)
  have hap := h.apart
  rw [hp] at hap
  have hdown : ∀ n x, n < 5 → Ahead kids MovePart.rank n s.program x →
      Ahead kids MovePart.rank n
        (childVisits s.world.heap.childrenOf c MovePart.cancel ++ rest) x := by
    intro n x hn hx
    rw [hp] at hx
    rw [h.tree]
    exact hx.descend hn rfl
  refine h.ofKeeps (.refl _ none) (fun k hk => ?_) ?_
    (fun x => ⟨fun hx => ?_, hdown 2 x (by decide)⟩) (fun x => hdown 1 x (by decide))
    (fun t hold y hy hb => hdown 0 _ (by decide) (h.entry t hold y hy hb)) h.hand
  · rcases List.mem_append.mp hk with hk | hk
    · obtain ⟨d, hd, rfl⟩ := List.mem_map.mp hk
      rw [h.tree] at hd
      exact hc.tail hd
    · exact h.below k (hp ▸ List.mem_cons_of_mem _ hk)
  · rw [h.tree]
    exact hap.descend ht.one (ht.nodup c) (fun p _ => ht.top p) hc
  · rw [hp]
    rw [h.tree] at hx
    exact hx.of_descend ht.one (fun p _ => ht.top p) hc

/-- Where only the books change, the rest is about what is ahead. -/
theorem Underway.ofBooks (h : Underway kids a old target s)
    (hheap : s'.world.heap = s.world.heap)
    (htimers : ∀ t, (s'.world.execs.loops t).timers = (s.world.execs.loops t).timers)
    (hqueued : Executors.NothingQueued s.world.execs s'.world.execs)
    (hroots : ∀ e, ∀ x ∈ s'.world.execs.rootNodes e, s.world.heap.isRoot x = true)
    (hbelow : ∀ k ∈ s'.program, Below kids a k.node) (hapart : Apart kids s'.program)
    (h₂ : ∀ x, Ahead kids MovePart.rank 2 s'.program x ↔
      Ahead kids MovePart.rank 2 s.program x)
    (h₀ : ∀ x, Ahead kids MovePart.rank 0 s.program x →
      Ahead kids MovePart.rank 0 s'.program x)
    (hroot : ∀ x ∈ s'.world.execs.rootNodes old, Below kids a x →
      Ahead kids MovePart.rank 1 s'.program x)
    (hhand : s'.inHand = s.inHand) : Underway kids a old target s' where
  tree := by
    rw [hheap]
    exact h.tree
  named := hheap ▸ h.named
  names e k hk := by
    rw [hheap]
    exact h.names e k (hqueued.tasks e hk)
  timers t y hy := by
    rw [hheap]
    rw [htimers] at hy
    exact h.timers t y hy
  roots e x hx := by
    rw [hheap]
    exact hroots e x hx
  below := hbelow
  apart := hapart
  fresh x hx := by
    rw [hheap]
    exact h.fresh x ((h₂ x).mp hx)
  moved x hx := by
    rw [hheap]
    rcases h.moved x hx with hahead | hown
    · exact Or.inl ((h₂ x).mpr hahead)
    · exact Or.inr hown
  root := hroot
  entry t hold y hy hb := by
    rw [htimers] at hy
    exact h₀ _ (h.entry t hold y hy hb)
  hand := by
    rw [hhand]
    exact h.hand

section Books

variable {x : Executors} {o : Option ExecutorId} {t : ThreadId}

/-- A change of an executor that is not about its timers. -/
theorem timers_modifyExecutor {f : EventLoop → EventLoop} {g : Strand → Strand}
    (hf : ∀ l, (f l).timers = l.timers) :
    ((x.modifyExecutor o f g).loops t).timers = (x.loops t).timers := by
  rw [Executors.loops_modifyExecutor]
  split
  · exact hf _
  · rfl

theorem timers_removeNodeFrom : ((x.removeNodeFrom o a).loops t).timers =
    (x.loops t).timers := by
  rw [Executors.removeNodeFrom_eq]
  exact timers_modifyExecutor (f := (·.removeNode a)) fun _ => rfl

theorem timers_removeRootFrom : ((x.removeRootFrom o a).loops t).timers =
    (x.loops t).timers := by
  rw [Executors.removeRootFrom_eq]
  exact timers_modifyExecutor (f := (·.removeRootNode a)) fun _ => rfl

theorem timers_addNodeTo : ((x.addNodeTo o a).loops t).timers = (x.loops t).timers := by
  rw [Executors.addNodeTo_eq]
  exact timers_modifyExecutor (f := (·.addNode a)) fun _ => rfl

theorem timers_addRootTo : ((x.addRootTo o a).loops t).timers = (x.loops t).timers := by
  rw [Executors.addRootTo_eq]
  exact timers_modifyExecutor (f := (·.addRootNode a)) fun _ => rfl

end Books

/-- The old owner takes the node out of its root list. -/
theorem Underway.leave (h : Underway kids a old target s)
    (hp : s.program = ⟨c, .leave⟩ :: rest) (hm : s.world.heap.mem c = some m) :
    Underway kids a old target
      { s with world := s.world.leaveExecutor c m, program := ⟨c, .publish⟩ :: rest } := by
  have hown : s.world.heap.ownerExecutor m = some old :=
    (Heap.ownerOf_of_mem hm).symm.trans (h.owner_old hp (by decide))
  have hlist : ∀ e, ∀ x ∈ (s.world.leaveExecutor c m).execs.rootNodes e,
      x ∈ s.world.execs.rootNodes e ∧ (e = old → m.isRoot = true → x ≠ c) := by
    intro e x hx
    simp only [World.leaveExecutor, World.execs_withExecs, hown] at hx
    split at hx <;> rename_i hroot
    · rw [Executors.rootNodes_removeRootFrom, Executors.rootNodes_removeNodeFrom] at hx
      split at hx <;> rename_i he
      · obtain ⟨hx, hne⟩ := List.mem_filter.mp hx
        exact ⟨hx, fun _ _ => by simpa using hne⟩
      · exact ⟨hx, fun heo => absurd (congrArg some heo.symm) he⟩
    · rw [Executors.rootNodes_removeNodeFrom] at hx
      exact ⟨hx, fun _ hr => absurd hr hroot⟩
  refine h.ofBooks rfl (fun t => ?_) ?_ (fun e x hx => h.roots e x (hlist e x hx).1)
    (h.below_next hp) (h.apart_next hp) (fun x => ?_) (fun x hx => ?_) (fun x hx hb => ?_) rfl
  · simp only [World.leaveExecutor, World.execs_withExecs]
    split
    · rw [timers_removeRootFrom, timers_removeNodeFrom]
    · rw [timers_removeNodeFrom]
  · simp only [World.leaveExecutor, World.execs_withExecs]
    split
    · exact Executors.nothingQueued_removeNodeFrom.trans Executors.nothingQueued_removeRootFrom
    · exact Executors.nothingQueued_removeNodeFrom
  · rw [hp]
    exact ahead_next_iff (i := .leave) (by decide) (by decide)
  · rw [hp] at hx
    exact (ahead_next_iff (i := .leave) (by decide) (by decide)).mpr hx
  · obtain ⟨hx, hne⟩ := hlist old x hx
    have hahead := h.root x hx hb
    rw [hp] at hahead
    refine hahead.advance rfl fun hxc => ?_
    have hroot := h.roots old x hx
    rw [hxc, Heap.isRoot, hm] at hroot
    exact absurd hxc (hne rfl hroot)

/-- The new owner registers the node. -/
theorem Underway.register (hne : old ≠ target) (h : Underway kids a old target s)
    (hp : s.program = ⟨c, .register⟩ :: rest) (hm : s.world.heap.mem c = some m) :
    Underway kids a old target
      { s with world := s.world.registerNode c m target, program := ⟨c, .arm⟩ :: rest } := by
  have hlist : ∀ e, ∀ x ∈ (s.world.registerNode c m target).execs.rootNodes e,
      x ∈ s.world.execs.rootNodes e ∨ e = target ∧ x = c ∧ m.isRoot = true := by
    intro e x hx
    simp only [World.registerNode, World.execs_withExecs] at hx
    split at hx <;> rename_i hroot
    · rw [Executors.rootNodes_addRootTo, Executors.rootNodes_addNodeTo] at hx
      split at hx <;> rename_i he
      · rcases List.mem_append.mp hx with hx | hx
        · exact Or.inl hx
        · exact Or.inr ⟨(Option.some.inj he).symm, List.mem_singleton.mp hx, hroot⟩
      · exact Or.inl hx
    · rw [Executors.rootNodes_addNodeTo] at hx
      exact Or.inl hx
  refine h.ofBooks rfl (fun t => ?_) ?_ (fun e x hx => ?_)
    (h.below_next hp) (h.apart_next hp) (fun x => ?_) (fun x hx => ?_) (fun x hx hb => ?_) rfl
  · simp only [World.registerNode, World.execs_withExecs]
    split
    · rw [timers_addRootTo, timers_addNodeTo]
    · rw [timers_addNodeTo]
  · simp only [World.registerNode, World.execs_withExecs]
    split
    · exact Executors.nothingQueued_addNodeTo.trans Executors.nothingQueued_addRootTo
    · exact Executors.nothingQueued_addNodeTo
  · rcases hlist e x hx with hx | ⟨-, rfl, hroot⟩
    · exact h.roots e x hx
    · simpa [Heap.isRoot, hm] using hroot
  · rw [hp]
    exact ahead_next_iff (i := .register) (by decide) (by decide)
  · rw [hp] at hx
    exact (ahead_next_iff (i := .register) (by decide) (by decide)).mpr hx
  · rcases hlist old x hx with hx | ⟨ho, -⟩
    · have hahead := h.root x hx hb
      rw [hp] at hahead
      exact (ahead_next_iff (i := .register) (by decide) (by decide)).mpr hahead
    · exact absurd ho hne

/-- The block of the node names the new owner. -/
theorem heap_publishOwner {w : World} (hm : w.heap.mem c = some m) :
    (w.publishOwner m target).heap = w.heap.reowned [c] target := by
  rw [← World.heap_moveNode target hm, World.moveNode, World.heap_onMovedToThread]
  simp only [World.enterExecutor, World.leaveExecutor, World.publishOwner,
    World.heap_withHeap, World.heap_withExecs, World.heap_onAboutToMoveToThread]

/-- The node is given to its new owner. -/
theorem Underway.publish (h : Underway kids a old target s)
    (hp : s.program = ⟨c, .publish⟩ :: rest) (hm : s.world.heap.mem c = some m) :
    Underway kids a old target
      { s with world := s.world.publishOwner m target, program := ⟨c, .register⟩ :: rest } := by
  have hheap : (s.world.publishOwner m target).heap = s.world.heap.reowned [c] target :=
    heap_publishOwner hm
  have hown : ∀ x, (s.world.publishOwner m target).heap.ownerOf x =
      if x = c then some target else s.world.heap.ownerOf x := by
    intro x
    have hlive : x ∈ [c] → s.world.heap.Live x := by
      intro hx
      rw [List.mem_singleton.mp hx, Heap.Live, hm]
      rfl
    rw [hheap, Heap.ownerOf_reowned h.named hlive]
    simp
  have hap := h.apart_next hp
  constructor
  · change (s.world.publishOwner m target).heap.childrenOf = kids
    rw [hheap]
    exact h.tree
  · change (s.world.publishOwner m target).heap.Named
    rw [hheap]
    exact h.named.reowned
  · intro e k hk
    change k.Names (s.world.publishOwner m target).heap
    rw [hheap]
    exact (h.names e k hk).keeps .reowned
  · intro t y hy
    exact h.timers t y hy
  · intro e x hx
    exact h.roots e x hx
  · exact h.below_next hp
  · exact hap
  · intro x hx
    have hxc : x ≠ c := by
      rintro rfl
      exact hap.not_ahead (by decide) hx
    refine (hown x).trans ?_
    rw [if_neg hxc]
    refine h.fresh x ?_
    rw [hp]
    exact hx.of_advance rfl
  · intro x hx
    by_cases hxc : x = c
    · refine Or.inr ((hown x).trans ?_)
      rw [if_pos hxc]
    · rcases h.moved x hx with hahead | ho
      · rw [hp] at hahead
        exact Or.inl (hahead.advance rfl fun h => absurd h hxc)
      · refine Or.inr ((hown x).trans ?_)
        rw [if_neg hxc]
        exact ho
  · intro x hx hb
    have hahead := h.root x hx hb
    rw [hp] at hahead
    exact (ahead_next_iff (i := .publish) (by decide) (by decide)).mpr hahead
  · intro t hold y hy hb
    have hahead := h.entry t hold y hy hb
    rw [hp] at hahead
    exact (ahead_next_iff (i := .publish) (by decide) (by decide)).mpr hahead
  · exact h.hand

/-- **A part of the migration** keeps the invariant. -/
theorem Underway.moveOn (ht : TopOf kids a) (hne : old ≠ target)
    (h : Underway kids a old target s) (hst : s.moveOn target = some s') :
    Underway kids a old target s' := by
  rw [Handover.moveOn] at hst
  cases hp : s.program with
  | nil =>
      rw [hp] at hst
      exact absurd hst (by simp)
  | cons k rest =>
      obtain ⟨c, i⟩ := k
      simp only [hp, Option.map_eq_some_iff] at hst
      obtain ⟨m, hm, hst⟩ := hst
      split at hst <;> rename_i hskip
      · -- the check of the owner: a node in front of `publish` has the old one
        obtain ⟨rfl, hown⟩ := hskip
        have hold := h.owner_old hp (by decide)
        rw [Heap.ownerOf_of_mem hm] at hold
        exact absurd (Option.some.inj (hold.symm.trans hown)) hne
      · cases i with
        | children =>
            obtain rfl := hst
            exact h.children ht hp
        | cancel =>
            obtain rfl := hst
            exact h.cancel hp hm
        | leave =>
            obtain rfl := hst
            exact h.leave hp hm
        | publish =>
            obtain rfl := hst
            exact h.publish hp hm
        | register =>
            obtain rfl := hst
            exact h.register hne hp hm
        | arm =>
            obtain rfl := hst
            exact h.arm hne hp hm

/-- **The step lemma.** -/
theorem Underway.step (ht : TopOf kids a) (hne : old ≠ target)
    (h : Underway kids a old target s) (hg : Undivided kids a old s l)
    (hst : Step old target s l s') : Underway kids a old target s' := by
  cases hst.kind h.named h.names with
  | moves hm => exact h.moveOn ht hne hm
  | keeps hl hk hprog hhand => exact h.keeps ht hne hg hl hk hprog hhand

/-! ### Runs -/

/-- A task runs on a node of the executor. -/
theorem ownerOf_runsOn {h : Heap} {k : Task} {o : ExecutorId} (hn : k.Names h)
    (hrun : k.runsOn h e = some x) (ho : h.ownerOf x = some o) : o = e := by
  cases k with
  | slot r g c =>
      simp only [Task.runsOn] at hrun
      split at hrun <;> rename_i hcond
      · obtain rfl := Option.some.inj hrun
        simp only [Bool.and_eq_true] at hcond
        have hgen := hn.2 hcond.1.1
        obtain ⟨n, hn, hng⟩ := Option.map_eq_some_iff.mp hgen
        rw [Heap.ownerOf_of_mem hn, hng] at ho
        simpa [ho] using hcond.2
      · exact absurd hrun (by simp)
  | timer p c =>
      simp only [Task.runsOn] at hrun
      split at hrun <;> rename_i hcond
      · obtain rfl := Option.some.inj hrun
        simp only [Bool.and_eq_true, beq_iff_eq] at hcond
        exact Option.some.inj (ho.symm.trans hcond.2)
      · exact absurd hrun (by simp)
  | timeout p g =>
      simp only [Task.runsOn] at hrun
      split at hrun <;> rename_i hcond
      · obtain rfl := Option.some.inj hrun
        simp only [Bool.and_eq_true, beq_iff_eq] at hcond
        obtain ⟨b, hb, howner⟩ := Option.bind_eq_some_iff.mp hcond.2
        have halive : (h.blocks b).alive = true := by
          have hp := hcond.1
          rwa [Heap.isAlive, hb] at hp
        obtain ⟨n, hn, hng⟩ := Option.map_eq_some_iff.mp ((hn b hb).2 halive)
        rw [Heap.ownerOf_of_mem hn, hng] at ho
        exact Option.some.inj (ho.symm.trans howner)
      · exact absurd hrun (by simp)
  | deleteNode | moveToThread | moveToTaskPool | call => exact absurd hrun (by simp [Task.runsOn])

/-- After the migration the old owner makes no step on the tree. -/
theorem Underway.not_acts (hne : old ≠ target) (h : Underway kids a old target s)
    (hp : s.program = []) (hx : Below kids a x) : s.acts old l ≠ some (old, x) := by
  have hown := h.ownerOf hp hx
  intro hacts
  cases l with
  | move =>
      rw [acts, hp] at hacts
      exact absurd hacts (by simp)
  | task e =>
      obtain ⟨⟨k, y⟩, hpop, hrun⟩ := Option.bind_eq_some_iff.mp hacts
      obtain ⟨z, hz, heq⟩ := Option.map_eq_some_iff.mp hrun
      obtain ⟨rfl, rfl⟩ := Prod.mk.inj heq
      have hk := h.names _ k (Executors.nothingQueued_popTask hpop).2
      exact hne (ownerOf_runsOn hk hz hown).symm
  | call e b c =>
      rw [acts] at hacts
      split at hacts <;> rename_i ho
      · obtain ⟨rfl, rfl⟩ := Prod.mk.inj (Option.some.inj hacts)
        exact hne (Option.some.inj (ho.symm.trans hown))
      · exact absurd hacts (by simp)
  | hand e =>
      obtain ⟨k, hk, heq⟩ := Option.map_eq_some_iff.mp hacts
      obtain ⟨rfl, rfl⟩ := Prod.mk.inj heq
      exact h.hand k (List.mem_of_mem_head? hk) hx
  | post | roots | due | clock => exact absurd hacts (by simp [acts])

/-- `applyMoveTo` does not begin again. -/
theorem Step.program_nil (hn : s.world.heap.Named)
    (ht : ∀ e, ∀ k ∈ s.world.execs.tasks e, k.Names s.world.heap) (hp : s.program = [])
    (hst : Step old target s l s') : s'.program = [] := by
  cases hst.kind hn ht with
  | moves hm =>
      rw [Handover.moveOn, hp] at hm
      exact absurd hm (by simp)
  | keeps hl hk hprog hhand => exact hprog.trans hp

end Handover

open Handover

/-- **A migration is atomic** as long as nobody but `applyMoveTo` makes a step on a node of the tree
before it has returned, and the old owner has no node of the tree in hand when it begins: when the
new owner makes a step on a node of the tree, every node of the tree has it as its owner, and from
then on the old owner makes no step on any of them. -/
theorem migration_atomic {s u s' : Handover} {old target : ExecutorId} {a x : Addr}
    {before after : List HandoverStep} {l : HandoverStep} (hs : s.Begins old target a)
    (hhand : ∀ k ∈ s.inHand old, ¬ Below s.world.heap.childrenOf a k.node)
    (hbefore : Run (Step old target) (Undivided s.world.heap.childrenOf a old) s before u)
    (hafter : Run (Step old target) (Undivided s.world.heap.childrenOf a old) u (l :: after) s')
    (hacts : u.acts old l = some (target, x)) (hx : Below s.world.heap.childrenOf a x) :
    (∀ y, Below s.world.heap.childrenOf a y → u.world.heap.ownerOf y = some target) ∧
      Run (Step old target) (fun v k => ∀ y, Below s.world.heap.childrenOf a y →
        v.acts old k ≠ some (old, y)) u (l :: after) s' := by
  have ht := hs.topOf
  have hu : Underway s.world.heap.childrenOf a old target u :=
    hbefore.invariant (I := Underway s.world.heap.childrenOf a old target)
      (fun v k v' hv hg hst => hv.step ht hs.ne hg hst) (hs.underway hhand)
  have hp : u.program = [] := by
    cases hafter with
    | cons hg hst _ =>
        rcases hg target x hacts hx with rfl | hp
        · -- the parts of the migration are the old owner's
          obtain ⟨k, -, heq⟩ := Option.map_eq_some_iff.mp hacts
          exact absurd (Prod.mk.inj heq).1 hs.ne
        · exact hp
  refine ⟨fun y hy => hu.ownerOf hp hy, ?_⟩
  refine hafter.strengthen (I := fun v =>
    Underway s.world.heap.childrenOf a old target v ∧ v.program = []) ?_ ⟨hu, hp⟩
  rintro v k v' ⟨hv, hvp⟩ hg hst
  exact ⟨⟨hv.step ht hs.ne hg hst, hst.program_nil hv.named hv.names hvp⟩,
    fun y hy => hv.not_acts hs.ne hvp hy⟩

/-! ### A root with a child -/

/-- Two event loops, and in the first one a root with a child. -/
def familyOps : List Op :=
  [.openLoop 1, .call (.onLoop 0) (.tree (.construct 1 .plain none)),
    .call (.onLoop 0) (.tree (.construct 2 .plain (some 1)))]

/-- Loop 0 is about to move the root to loop 1, and nobody has anything in hand. -/
theorem begins_family {w : World} (hrun : Run (ofFun Op.apply) (fun v op => op.Allowed v)
      (World.initial 0 1) familyOps w) (htimers : ∀ t, (w.execs.loops t).timers = [])
    (hown : w.heap.ownerOf 1 = some (.loop 0)) (hpar : w.heap.parentOf 1 = none) :
    (⟨w, [⟨1, .cancel⟩], fun _ => []⟩ : Handover).Begins (.loop 0) (.loop 1) 1 where
  consistent := hrun.invariant_of_ok (I := Consistent)
    (fun v op v' hc hok h => op.consistent_of_apply hc hok h) (World.unused_initial 0 1).consistent
  timers t y hy := absurd (htimers t ▸ hy) List.not_mem_nil
  program := rfl
  owner := hown
  parent p hp := absurd (hpar.symm.trans hp) (by simp)
  ne := by decide

/-- A slot of the child is posted to loop 0, which moves the tree and then forwards the slot; loop 1
runs it. -/
theorem slot_run_after_move : ∃ u v : Handover, u.acts (.loop 0) (.task (.loop 1)) =
      some (.loop 1, 2) ∧ Handover.Step (.loop 0) (.loop 1) u (.task (.loop 1)) v ∧
    u.world.heap.ownerOf 1 = some (.loop 1) ∧ u.world.heap.ownerOf 2 = some (.loop 1) := by
  have hbuilt : ∃ w, Run (ofFun Op.apply) (fun v op => op.Allowed v) (World.initial 0 1)
        familyOps w ∧ (∀ t, (w.execs.loops t).timers = []) ∧
      w.heap.ownerOf 1 = some (.loop 0) ∧ w.heap.parentOf 1 = none ∧
      2 ∈ w.heap.childrenOf 1 ∧ ∃ u v,
      Run (Handover.Step (.loop 0) (.loop 1)) (Undivided w.heap.childrenOf 1 (.loop 0))
        ⟨w, [⟨1, .cancel⟩], fun _ => []⟩
        (HandoverStep.post (.loop 0) (.slot 2 2 0) ::
          (List.replicate 12 HandoverStep.move ++ [HandoverStep.task (.loop 0)])) u ∧
      u.program = [] ∧ u.acts (.loop 0) (.task (.loop 1)) = some (.loop 1, 2) ∧
      Handover.Step (.loop 0) (.loop 1) u (.task (.loop 1)) v := by
    have hmove : ∀ kids (s : Handover), Undivided kids 1 (.loop 0) s .move :=
      fun kids s e x _ _ => Or.inl rfl
    have hdone : ∀ kids (s : Handover) l, s.program = [] → Undivided kids 1 (.loop 0) s l :=
      fun kids s l hp e x _ _ => Or.inr hp
    refine ⟨_, .cons trivial rfl (.cons (fun s hs => absurd hs (by simp [CallContext.onLoop])) rfl
      (.cons (fun s hs => absurd hs (by simp [CallContext.onLoop])) rfl (.nil _))), fun t => ?_,
      rfl, rfl, List.mem_cons_self, _, _,
      .cons (fun e x h => absurd h (by simp [acts])) (.post trivial ⟨by decide, fun _ => rfl⟩)
        (.cons (hmove _ _) (.move rfl) (.cons (hmove _ _) (.move rfl)
        (.cons (hmove _ _) (.move rfl) (.cons (hmove _ _) (.move rfl)
        (.cons (hmove _ _) (.move rfl) (.cons (hmove _ _) (.move rfl)
        (.cons (hmove _ _) (.move rfl) (.cons (hmove _ _) (.move rfl)
        (.cons (hmove _ _) (.move rfl) (.cons (hmove _ _) (.move rfl)
        (.cons (hmove _ _) (.move rfl) (.cons (hmove _ _) (.move rfl)
        (.cons (hdone _ _ _ rfl) (.task (fun _ => rfl) rfl trivial rfl) (.nil _)))))))))))))),
      rfl, rfl, .task (fun _ => rfl) rfl trivial rfl⟩
    rcases t with - | - | t
    · rfl
    · rfl
    · rfl
  obtain ⟨w, hrun, htimers, hown, hpar, hchild, u, v, hbefore, hp, hacts, hst⟩ := hbuilt
  have hall := (migration_atomic (begins_family hrun htimers hown hpar)
    (fun k hk => absurd hk List.not_mem_nil) hbefore
    (.cons (fun e x _ _ => Or.inr hp) hst (.nil v)) hacts (.single hchild)).1
  exact ⟨u, v, hacts, hst, hall 1 .refl, hall 2 (.single hchild)⟩

/-- **A tree is taken apart**: event loop 1 ticks the root while loop 0 is still moving the tree,
and the child is still owned by loop 0, which goes on with the root. -/
theorem root_ticked_during_move : ∃ w s u v v',
    Run (ofFun Op.apply) (fun v op => op.Allowed v) (World.initial 0 1) familyOps w ∧
    s = ⟨w, [⟨1, .cancel⟩], fun _ => []⟩ ∧ s.Begins (.loop 0) (.loop 1) 1 ∧
    Reaches (Handover.Step (.loop 0) (.loop 1)) s [.move, .move, .move, .move, .roots 1] u ∧
    u.acts (.loop 0) (.hand (.loop 1)) = some (.loop 1, 1) ∧
    2 ∈ s.world.heap.childrenOf 1 ∧ u.world.heap.ownerOf 2 = some (.loop 0) ∧
    Handover.Step (.loop 0) (.loop 1) u (.hand (.loop 1)) v ∧
    v.acts (.loop 0) .move = some (.loop 0, 1) ∧
    Handover.Step (.loop 0) (.loop 1) v .move v' := by
  have hbuilt : ∃ w, Run (ofFun Op.apply) (fun v op => op.Allowed v) (World.initial 0 1)
        familyOps w ∧ (∀ t, (w.execs.loops t).timers = []) ∧
      w.heap.ownerOf 1 = some (.loop 0) ∧ w.heap.parentOf 1 = none ∧ ∃ u v v',
      Reaches (Handover.Step (.loop 0) (.loop 1)) ⟨w, [⟨1, .cancel⟩], fun _ => []⟩
        [.move, .move, .move, .move, .roots 1] u ∧
      u.acts (.loop 0) (.hand (.loop 1)) = some (.loop 1, 1) ∧
      2 ∈ w.heap.childrenOf 1 ∧ u.world.heap.ownerOf 2 = some (.loop 0) ∧
      Handover.Step (.loop 0) (.loop 1) u (.hand (.loop 1)) v ∧
      v.acts (.loop 0) .move = some (.loop 0, 1) ∧
      Handover.Step (.loop 0) (.loop 1) v .move v' := by
    refine ⟨_, .cons trivial rfl (.cons (fun s hs => absurd hs (by simp [CallContext.onLoop])) rfl
      (.cons (fun s hs => absurd hs (by simp [CallContext.onLoop])) rfl (.nil _))), fun t => ?_,
      rfl, rfl, _, _, _,
      .cons trivial (.move rfl) (.cons trivial (.move rfl) (.cons trivial (.move rfl)
      (.cons trivial (.move rfl) (.cons trivial (.roots fun h => absurd h (by decide))
      (.nil _))))), rfl,
      List.mem_cons_self, rfl, .run (fun h => absurd h (by decide)) rfl, rfl, .move rfl⟩
    rcases t with - | - | t
    · rfl
    · rfl
    · rfl
  obtain ⟨w, hrun, htimers, hown, hpar, u, v, v', hreach, hacts, hchild, hown₂, hst, hacts',
    hst'⟩ := hbuilt
  exact ⟨w, _, u, v, v', hrun, rfl, begins_family hrun htimers hown hpar, hreach, hacts, hchild,
    hown₂, hst, hacts', hst'⟩

end SimplyNode
