import SimplyNode.Lib.PointerForest
import SimplyNode.Lib.Transition

/-!
# Destructors that Change the Tree

The destructor of a node runs the one of its class first, which is user code and may delete nodes
and create new ones. Then `Node::~Node` takes the node out of the vector of its parent, moves its
own vector out, and deletes what is in the copy, one child after the other. The copy does not hear
of children that die or appear in the meantime. `EventLoop::~EventLoop` goes through a copy of its
roots, too, but asks for each of them whether it is still alive.

A step is a call of user code, the part of `~Node` before its loop, one turn of a loop, or the end
of a destructor. The destructors in progress are a stack. Nodes are numbered as they are created.
Memory that has been freed keeps its contents here, so that one can say whose child a node was; a
destructor that reads it breaks the run.

## Main results

* `Inv.step`: what a step keeps if user code leaves alone what is being destroyed.
* `destroyed_once`: nothing is destroyed twice, and nothing is left behind.
* `destroyed_twice_or_never`: a destructor that deletes a sibling, and one that gives a new child to
  its parent.
-/

open Transition PointerForest

namespace SimplyNode

/-- A node as far as its destructor is concerned. -/
structure TreeNode where
  parent : Option ℕ := none
  children : List ℕ := []
  alive : Bool := false
  freed : Bool := false
  deriving DecidableEq

/-- A destructor in progress. -/
inductive DestructorFrame
  /-- The destructor of the class of a node. -/
  | body (node : ℕ)
  /-- The loop of `Node::~Node`, and what it has still to delete. -/
  | walk (node : ℕ) (rest : List ℕ)
  /-- The loop of `EventLoop::~EventLoop`, and the roots that it has still to come to. -/
  | loop (rest : List ℕ)
  deriving DecidableEq

namespace DestructorFrame

/-- The node that is destroyed. -/
def node : DestructorFrame → Option ℕ
  | body a => some a
  | walk a _ => some a
  | loop _ => none

/-- The nodes whose subtrees are to be destroyed. -/
def heads : DestructorFrame → List ℕ
  | body a => [a]
  | walk _ rest => rest
  | loop _ => []

end DestructorFrame

/-- The nodes of a thread, the roots of its loop, the destructors in progress, the innermost first,
and the nodes whose destructors have begun, the latest first. -/
structure Teardown where
  nodes : ℕ → TreeNode := fun _ => {}
  born : ℕ := 0
  roots : List ℕ := []
  frames : List DestructorFrame := []
  begun : List ℕ := []
  broken : Bool := false

/-- What can happen next. -/
inductive TeardownStep
  /-- User code creates a node. -/
  | create (parent : Option ℕ)
  /-- User code deletes a node. -/
  | delete (node : ℕ)
  /-- The loop is destroyed. -/
  | destroyLoop
  /-- The destructor of a class has returned, and `Node::~Node` begins. -/
  | endBody
  /-- A loop comes to its next node. -/
  | next
  /-- A loop has come to its end, and with it the destructor. -/
  | finish
  deriving DecidableEq

namespace Teardown

section Defs

variable (s : Teardown)

/-- The children of the nodes. -/
def kids (x : ℕ) : List ℕ := (s.nodes x).children

/-- The parents of the nodes. -/
def parentOf (x : ℕ) : Option ℕ := (s.nodes x).parent

/-- The members of a node, replaced. -/
def setNode (a : ℕ) (n : TreeNode) : Teardown := { s with nodes := Function.update s.nodes a n }

/-- `Node::Node`, and the `Node::addChild` it calls. -/
def create : Option ℕ → Teardown
  | none =>
      { s.setNode s.born { alive := true } with
        born := s.born + 1
        roots := s.roots ++ [s.born] }
  | some p =>
      { (s.setNode p { s.nodes p with children := (s.nodes p).children ++ [s.born] }).setNode s.born
          { parent := some p, alive := true } with
        born := s.born + 1 }

/-- `delete`, up to the destructor. It must not be called twice for a node. -/
def delete (a : ℕ) : Teardown :=
  if a ∈ s.begun then { s with begun := a :: s.begun, broken := true }
  else { s with begun := a :: s.begun, frames := .body a :: s.frames }

/-- `Node::~Node`: the node leaves its parent, or the roots. -/
def unlink (a : ℕ) : Teardown :=
  match s.parentOf a with
  | none => { s with roots := s.roots.filter (· ≠ a) }
  | some p =>
      if (s.nodes p).freed then { s with broken := true }
      else s.setNode p { s.nodes p with children := (s.nodes p).children.filter (· ≠ a) }

/-- `Node::~Node`, up to its loop. -/
def destruct (a : ℕ) (fs : List DestructorFrame) : Teardown :=
  let s := s.unlink a
  { s.setNode a { s.nodes a with alive := false, children := [] } with
    frames := .walk a (s.kids a) :: fs }

/-- The end of a destructor. -/
def free (a : ℕ) (fs : List DestructorFrame) : Teardown :=
  { s.setNode a { s.nodes a with freed := true } with frames := fs }

/-- User code runs. -/
def InUserCode : Prop := s.broken = false ∧ (s.frames = [] ∨ ∃ a fs, s.frames = .body a :: fs)

/-- **One step of a run.** -/
inductive Step : Teardown → TeardownStep → Teardown → Prop
  | create {s : Teardown} {parent : Option ℕ} :
      s.InUserCode → (∀ p, parent = some p → p < s.born ∧ (s.nodes p).freed = false) →
      Step s (.create parent) (s.create parent)
  | delete {s : Teardown} {a : ℕ} :
      s.InUserCode → a < s.born → Step s (.delete a) (s.delete a)
  | destroyLoop {s : Teardown} :
      s.broken = false → s.frames = [] → Step s .destroyLoop { s with frames := [.loop s.roots] }
  | endBody {s : Teardown} {a : ℕ} {fs : List DestructorFrame} :
      s.broken = false → s.frames = .body a :: fs → Step s .endBody (s.destruct a fs)
  | next {s : Teardown} {a c : ℕ} {rest : List ℕ} {fs : List DestructorFrame} :
      s.broken = false → s.frames = .walk a (c :: rest) :: fs →
      Step s .next ({ s with frames := .walk a rest :: fs }.delete c)
  | nextRoot {s : Teardown} {r : ℕ} {rest : List ℕ} {fs : List DestructorFrame} :
      s.broken = false → s.frames = .loop (r :: rest) :: fs → (s.nodes r).alive = true →
      Step s .next ({ s with frames := .loop rest :: fs }.delete r)
  | skipRoot {s : Teardown} {r : ℕ} {rest : List ℕ} {fs : List DestructorFrame} :
      s.broken = false → s.frames = .loop (r :: rest) :: fs → (s.nodes r).alive = false →
      Step s .next { s with frames := .loop rest :: fs }
  | finish {s : Teardown} {a : ℕ} {fs : List DestructorFrame} :
      s.broken = false → s.frames = .walk a [] :: fs → Step s .finish (s.free a fs)
  | finishLoop {s : Teardown} {fs : List DestructorFrame} :
      s.broken = false → s.frames = .loop [] :: fs → Step s .finish { s with frames := fs }

/-- The condition on a step: user code deletes a node only if its destructor has not begun, no loop
of `~Node` will come to it, and no destructor of a class is running for a node below it; and it
gives no child to a node whose vector has been moved out. -/
structure Apart (l : TeardownStep) : Prop where
  fresh : ∀ a, l = .delete a → a ∉ s.begun
  waiting : ∀ a, l = .delete a → ∀ p rest, .walk p rest ∈ s.frames → a ∉ rest
  below : ∀ a, l = .delete a → ∀ x, .body x ∈ s.frames → ¬ Below s.kids a x
  create : ∀ p, l = .create (some p) → ∀ rest, .walk p rest ∉ s.frames

/-- **Each node is destroyed once.** No destructor runs twice, or reads freed memory; no node is
left alive without its parent; and when all destructors have returned, everything below a deleted
node has been destroyed once. -/
structure OnceEach : Prop where
  sound : s.broken = false
  once : s.begun.Nodup
  parents : ∀ c p, (s.nodes c).alive = true → s.parentOf c = some p → (s.nodes p).freed = false
  whole : s.frames = [] → ∀ a ∈ s.begun, ∀ x, Above s.parentOf x a →
    (s.nodes x).freed = true ∧ s.begun.count x = 1

/-- What the nodes are like: parents and children agree, parents are older, and what has been freed
has no children. -/
structure Tree : Prop where
  kid : ∀ p, ∀ c ∈ s.kids p, s.parentOf c = some p ∧ (s.nodes c).alive = true
  nodup : ∀ p, (s.kids p).Nodup
  older : ∀ c p, s.parentOf c = some p → p < c ∧ c < s.born
  live : ∀ x, (s.nodes x).alive = true → x < s.born ∧ (s.nodes x).freed = false
  freed : ∀ x, (s.nodes x).freed = true → s.kids x = []
  roots : ∀ r ∈ s.roots, r < s.born

/-- Which destructors have begun: each once, and it is running or has come to its end. -/
structure Begun : Prop where
  once : s.begun.Nodup
  born : ∀ x ∈ s.begun, x < s.born
  untouched : ∀ x, x < s.born → x ∉ s.begun → (s.nodes x).alive = true
  progress : ∀ x ∈ s.begun, (s.nodes x).freed = true ∨ .body x ∈ s.frames ∨
    ∃ rest, .walk x rest ∈ s.frames

/-- How a destructor may run within another one: of another node, with no destructor of a class
running further out for a node below one that it will destroy, or for a child of its own. -/
structure Nested (upper lower : DestructorFrame) : Prop where
  not_loop : ∀ rest, upper ≠ .loop rest
  node : ∀ a, upper.node = some a → lower.node ≠ some a
  apart : ∀ a ∈ upper.heads, ∀ x, lower = .body x → ¬ Below s.kids a x
  inner : ∀ p rest c, upper = .walk p rest → lower = .body c → s.parentOf c ≠ some p

/-- The stack of the destructors: a node that is alive is with its parent or waits in the loop of
its parent, or its destructor is running within this loop. -/
structure Stack : Prop where
  placed : ∀ c p, (s.nodes c).alive = true → s.parentOf c = some p → c ∈ s.kids p ∨
    ∃ rest, .walk p rest ∈ s.frames ∧ (c ∈ rest ∨ .body c ∈ s.frames)
  body : ∀ x, .body x ∈ s.frames → x ∈ s.begun ∧ (s.nodes x).alive = true
  walk : ∀ p rest, .walk p rest ∈ s.frames → p ∈ s.begun ∧ (s.nodes p).alive = false ∧
    (s.nodes p).freed = false ∧ s.kids p = [] ∧ rest.Nodup
  waiting : ∀ p rest, .walk p rest ∈ s.frames → ∀ c ∈ rest, c ∉ s.begun ∧ s.parentOf c = some p
  roots : ∀ rest, .loop rest ∈ s.frames → ∀ r ∈ rest, r < s.born
  nested : s.frames.Pairwise s.Nested

/-- **The invariant.** -/
structure Inv : Prop where
  sound : s.broken = false
  tree : s.Tree
  begun : s.Begun
  stack : s.Stack

end Defs

variable {s s' : Teardown} {a c p r x : ℕ} {v : Option ℕ} {rest : List ℕ}
  {fs : List DestructorFrame} {l : TeardownStep}

/-! ### Creating a node -/

/-- The node that is created. -/
theorem nodes_create_born : (s.create v).nodes s.born = { parent := v, alive := true } := by
  cases v with
  | none => exact Function.update_self ..
  | some p => exact Function.update_self ..

/-- The other nodes stay, but for the child of the parent. -/
theorem nodes_create_of_ne (hx : x ≠ s.born) : (s.create v).nodes x =
    if v = some x then { s.nodes x with children := s.kids x ++ [s.born] } else s.nodes x := by
  cases v with
  | none => exact Function.update_of_ne hx ..
  | some p =>
    refine (Function.update_of_ne hx ..).trans ?_
    simp only [setNode, Function.update_apply, Option.some.injEq]
    by_cases heq : x = p
    · subst heq
      simp [kids]
    · simp [heq, Ne.symm heq]

/-- A new node has no children. -/
theorem kids_create_born : (s.create v).kids s.born = [] := by
  rw [kids, nodes_create_born]

/-- The parent gets the new node as its last child. -/
theorem kids_create_of_ne (hx : x ≠ s.born) :
    (s.create v).kids x = if v = some x then s.kids x ++ [s.born] else s.kids x := by
  rw [kids, nodes_create_of_ne hx]
  split <;> rfl

/-- The parent of a new node. -/
theorem parentOf_create_born : (s.create v).parentOf s.born = v := by
  rw [parentOf, nodes_create_born]

/-- The other nodes keep their parents. -/
theorem parentOf_create_of_ne (hx : x ≠ s.born) : (s.create v).parentOf x = s.parentOf x := by
  rw [parentOf, nodes_create_of_ne hx]
  split <;> rfl

/-- The other nodes are alive as before. -/
theorem alive_create_of_ne (hx : x ≠ s.born) :
    ((s.create v).nodes x).alive = (s.nodes x).alive := by
  rw [nodes_create_of_ne hx]
  split <;> rfl

/-- The other nodes are freed as before. -/
theorem freed_create_of_ne (hx : x ≠ s.born) :
    ((s.create v).nodes x).freed = (s.nodes x).freed := by
  rw [nodes_create_of_ne hx]
  split <;> rfl

/-- One more node has been created. -/
theorem born_create : (s.create v).born = s.born + 1 := by
  cases v <;> rfl

/-- The destructors that are under way are the same. -/
theorem frames_create : (s.create v).frames = s.frames := by
  cases v <;> rfl

/-- No destructor has begun. -/
theorem begun_create : (s.create v).begun = s.begun := by
  cases v <;> rfl

/-- A child is still one. -/
theorem mem_kids_create (hx : x ≠ s.born) (h : c ∈ s.kids x) : c ∈ (s.create v).kids x := by
  rw [kids_create_of_ne hx]
  split
  · exact List.mem_append_left _ h
  · exact h

/-- A child is an old one, or the new one of its parent. -/
theorem of_mem_kids_create (h : c ∈ (s.create v).kids p) :
    c ∈ s.kids p ∨ c = s.born ∧ v = some p := by
  by_cases hp : p = s.born
  · rw [hp, kids_create_born] at h
    exact absurd h List.not_mem_nil
  · rw [kids_create_of_ne hp] at h
    split at h
    · rename_i hv
      rcases List.mem_append.mp h with h | h
      · exact Or.inl h
      · exact Or.inr ⟨List.mem_singleton.mp h, hv⟩
    · exact Or.inl h

/-- The new node is below others, but no old one is below anything else than before. -/
theorem below_of_create (ht : s.Tree) (h : Below (s.create v).kids a x) (hx : x ≠ s.born) :
    Below s.kids a x := by
  induction h with
  | refl => exact .refl
  | @tail y z _ hz ih =>
    rcases of_mem_kids_create hz with hz | ⟨heq, _⟩
    · have hold := ht.older z y (ht.kid y z hz).1
      exact (ih (Nat.ne_of_lt (Nat.lt_trans hold.1 hold.2))).tail hz
    · exact absurd heq hx

/-- A new node in the tree. -/
theorem Tree.create (h : s.Tree) (hv : ∀ p, v = some p → p < s.born ∧ (s.nodes p).freed = false) :
    (s.create v).Tree where
  kid p c hc := by
    rcases of_mem_kids_create hc with hc | ⟨rfl, rfl⟩
    · have hne : c ≠ s.born := Nat.ne_of_lt (h.live c (h.kid p c hc).2).1
      rw [parentOf_create_of_ne hne, alive_create_of_ne hne]
      exact h.kid p c hc
    · rw [parentOf_create_born, nodes_create_born]
      exact ⟨rfl, rfl⟩
  nodup p := by
    by_cases hp : p = s.born
    · rw [hp, kids_create_born]
      exact List.nodup_nil
    · rw [kids_create_of_ne hp]
      split
      · refine List.nodup_append.mpr ⟨h.nodup p, List.nodup_singleton _, fun c hc b hb => ?_⟩
        rw [List.mem_singleton.mp hb]
        exact Nat.ne_of_lt (h.live c (h.kid p c hc).2).1
      · exact h.nodup p
  older c p hc := by
    rw [born_create]
    by_cases hne : c = s.born
    · subst hne
      rw [parentOf_create_born] at hc
      exact ⟨(hv p hc).1, Nat.lt_succ_self _⟩
    · rw [parentOf_create_of_ne hne] at hc
      exact ⟨(h.older c p hc).1, Nat.lt_succ_of_lt (h.older c p hc).2⟩
  live x hx := by
    rw [born_create]
    by_cases hne : x = s.born
    · subst hne
      rw [nodes_create_born]
      exact ⟨Nat.lt_succ_self _, rfl⟩
    · rw [alive_create_of_ne hne] at hx
      rw [freed_create_of_ne hne]
      exact ⟨Nat.lt_succ_of_lt (h.live x hx).1, (h.live x hx).2⟩
  freed x hx := by
    by_cases hne : x = s.born
    · rw [hne, kids_create_born]
    · rw [freed_create_of_ne hne] at hx
      rw [kids_create_of_ne hne, if_neg, h.freed x hx]
      intro heq
      rw [(hv x heq).2] at hx
      exact Bool.noConfusion hx
  roots r hr := by
    rw [born_create]
    cases v with
    | none =>
      rcases List.mem_append.mp hr with hr | hr
      · exact Nat.lt_succ_of_lt (h.roots r hr)
      · exact List.mem_singleton.mp hr ▸ Nat.lt_succ_self _
    | some p => exact Nat.lt_succ_of_lt (h.roots r hr)

/-- A new node has not begun to be destroyed. -/
theorem Begun.create (h : s.Begun) : (s.create v).Begun where
  once := by
    rw [begun_create]
    exact h.once
  born x hx := by
    rw [begun_create] at hx
    rw [born_create]
    exact Nat.lt_succ_of_lt (h.born x hx)
  untouched x hx hbegun := by
    rw [born_create] at hx
    rw [begun_create] at hbegun
    by_cases hne : x = s.born
    · rw [hne, nodes_create_born]
    · rw [alive_create_of_ne hne]
      exact h.untouched x (Nat.lt_of_le_of_ne (Nat.le_of_lt_succ hx) hne) hbegun
  progress x hx := by
    rw [begun_create] at hx
    rw [frames_create, freed_create_of_ne (Nat.ne_of_lt (h.born x hx))]
    exact h.progress x hx

/-- A new node under no node whose destructor is under way. -/
theorem Stack.create (h : s.Stack) (ht : s.Tree) (hb : s.Begun)
    (hv : ∀ p, v = some p → p < s.born ∧ (s.nodes p).freed = false)
    (hguard : ∀ p, v = some p → ∀ rest, .walk p rest ∉ s.frames) : (s.create v).Stack where
  placed c p hc hp := by
    rw [frames_create]
    by_cases hne : c = s.born
    · subst hne
      rw [parentOf_create_born] at hp
      refine Or.inl ?_
      rw [kids_create_of_ne (Nat.ne_of_lt (hv p hp).1), if_pos hp]
      exact List.mem_append_right _ List.mem_cons_self
    · rw [alive_create_of_ne hne] at hc
      rw [parentOf_create_of_ne hne] at hp
      have hold := ht.older c p hp
      exact (h.placed c p hc hp).imp_left
        (mem_kids_create (Nat.ne_of_lt (Nat.lt_trans hold.1 hold.2)))
  body x hx := by
    rw [frames_create] at hx
    obtain ⟨hbegun, halive⟩ := h.body x hx
    rw [begun_create, alive_create_of_ne (Nat.ne_of_lt (hb.born x hbegun))]
    exact ⟨hbegun, halive⟩
  walk p rest hp := by
    rw [frames_create] at hp
    obtain ⟨hbegun, halive, hfreed, hkids, hnodup⟩ := h.walk p rest hp
    have hne : p ≠ s.born := Nat.ne_of_lt (hb.born p hbegun)
    rw [begun_create, alive_create_of_ne hne, freed_create_of_ne hne, kids_create_of_ne hne,
      if_neg fun heq => hguard p heq rest hp]
    exact ⟨hbegun, halive, hfreed, hkids, hnodup⟩
  waiting p rest hp c hc := by
    rw [frames_create] at hp
    obtain ⟨hbegun, hparent⟩ := h.waiting p rest hp c hc
    rw [begun_create, parentOf_create_of_ne (Nat.ne_of_lt (ht.older c p hparent).2)]
    exact ⟨hbegun, hparent⟩
  roots rest hr r hmem := by
    rw [frames_create] at hr
    rw [born_create]
    exact Nat.lt_succ_of_lt (h.roots rest hr r hmem)
  nested := by
    rw [frames_create]
    have hne (x : ℕ) (hx : .body x ∈ s.frames) : x ≠ s.born :=
      Nat.ne_of_lt (hb.born x (h.body x hx).1)
    refine h.nested.imp_of_mem fun {upper lower} _ hlower hn => ⟨hn.not_loop, hn.node, ?_, ?_⟩
    · rintro a ha x rfl hbelow
      exact hn.apart a ha x rfl (below_of_create ht hbelow (hne x hlower))
    · rintro p rest c hupper rfl
      rw [parentOf_create_of_ne (hne c hlower)]
      exact hn.inner p rest c hupper rfl

/-! ### Beginning a destructor -/

/-- The destructor of `a` is one more that has begun. -/
theorem Inv.begun_begin (h : s.Inv) (ha : a ∉ s.begun) (hborn : a < s.born)
    (hbody : ∀ x, .body x ∈ s.frames → .body x ∈ fs)
    (hwalk : ∀ p rest, .walk p rest ∈ s.frames → ∃ rest', .walk p rest' ∈ fs) :
    Begun { s with begun := a :: s.begun, frames := .body a :: fs } where
  once := List.nodup_cons.mpr ⟨ha, h.begun.once⟩
  born x hx := by
    rcases List.mem_cons.mp hx with rfl | hx
    · exact hborn
    · exact h.begun.born x hx
  untouched x hx hbegun :=
    h.begun.untouched x hx fun hmem => hbegun (List.mem_cons_of_mem _ hmem)
  progress x hx := by
    rcases List.mem_cons.mp hx with rfl | hx
    · exact Or.inr (Or.inl List.mem_cons_self)
    · rcases h.begun.progress x hx with hx | hx | ⟨rest, hx⟩
      · exact Or.inl hx
      · exact Or.inr (Or.inl (List.mem_cons_of_mem _ (hbody x hx)))
      · obtain ⟨rest', hrest'⟩ := hwalk x rest hx
        exact Or.inr (Or.inr ⟨rest', List.mem_cons_of_mem _ hrest'⟩)

/-- The destructor of `a` is on top of the stack. -/
theorem Inv.stack_begin (h : s.Inv) (ha : a ∉ s.begun) (hborn : a < s.born)
    (hbody : ∀ x, .body x ∈ fs ↔ .body x ∈ s.frames)
    (hwalk : ∀ p rest, .walk p rest ∈ fs → a ∉ rest ∧ ∃ rest', .walk p rest' ∈ s.frames ∧
      rest.Sublist rest')
    (hwalk' : ∀ p rest, .walk p rest ∈ s.frames → ∃ rest', .walk p rest' ∈ fs ∧
      ∀ c ∈ rest, c = a ∨ c ∈ rest')
    (hloop : ∀ rest, .loop rest ∈ fs → ∃ rest', .loop rest' ∈ s.frames ∧ rest.Sublist rest')
    (hnested : fs.Pairwise s.Nested) (hbelow : ∀ x, .body x ∈ fs → ¬ Below s.kids a x) :
    Stack { s with begun := a :: s.begun, frames := .body a :: fs } where
  placed c p hc hp := by
    rcases h.stack.placed c p hc hp with hmem | ⟨rest, hrest, hmem⟩
    · exact Or.inl hmem
    · obtain ⟨rest', hrest', hsub⟩ := hwalk' p rest hrest
      refine Or.inr ⟨rest', List.mem_cons_of_mem _ hrest', ?_⟩
      rcases hmem with hmem | hmem
      · rcases hsub c hmem with rfl | hmem
        · exact Or.inr List.mem_cons_self
        · exact Or.inl hmem
      · exact Or.inr (List.mem_cons_of_mem _ ((hbody c).mpr hmem))
  body x hx := by
    rcases List.mem_cons.mp hx with heq | hx
    · obtain rfl := DestructorFrame.body.inj heq
      exact ⟨List.mem_cons_self, h.begun.untouched x hborn ha⟩
    · obtain ⟨hbegun, halive⟩ := h.stack.body x ((hbody x).mp hx)
      exact ⟨List.mem_cons_of_mem _ hbegun, halive⟩
  walk p rest hp := by
    obtain ⟨_, rest', hrest', hsub⟩ := hwalk p rest ((List.mem_cons.mp hp).resolve_left nofun)
    obtain ⟨hbegun, halive, hfreed, hkids, hnodup⟩ := h.stack.walk p rest' hrest'
    exact ⟨List.mem_cons_of_mem _ hbegun, halive, hfreed, hkids, hnodup.sublist hsub⟩
  waiting p rest hp c hc := by
    obtain ⟨ha', rest', hrest', hsub⟩ := hwalk p rest ((List.mem_cons.mp hp).resolve_left nofun)
    obtain ⟨hbegun, hparent⟩ := h.stack.waiting p rest' hrest' c (hsub.subset hc)
    refine ⟨fun hmem => ?_, hparent⟩
    rcases List.mem_cons.mp hmem with rfl | hmem
    · exact ha' hc
    · exact hbegun hmem
  roots rest hr r hmem := by
    obtain ⟨rest', hrest', hsub⟩ := hloop rest ((List.mem_cons.mp hr).resolve_left nofun)
    exact h.stack.roots rest' hrest' r (hsub.subset hmem)
  nested := by
    refine List.pairwise_cons.mpr ⟨fun lower hlower => ⟨nofun, ?_, ?_, nofun⟩,
      hnested.imp fun hn => ⟨hn.not_loop, hn.node, hn.apart, hn.inner⟩⟩
    · rintro b ⟨⟩ hnode
      cases lower with
      | body x =>
        obtain rfl : x = a := Option.some.inj hnode
        exact ha (h.stack.body x ((hbody x).mp hlower)).1
      | walk p rest =>
        obtain rfl : p = a := Option.some.inj hnode
        obtain ⟨_, rest', hrest', _⟩ := hwalk p rest hlower
        exact ha (h.stack.walk p rest' hrest').1
      | loop rest => exact nomatch hnode
    · intro b hb x hx
      obtain rfl := List.mem_singleton.mp hb
      exact hbelow x (hx ▸ hlower)

/-- The destructor of a class begins, within the frames `fs`: those there were, but for a child or
a root that a loop has come to. -/
theorem Inv.begin (h : s.Inv) (ha : a ∉ s.begun) (hborn : a < s.born)
    (hbody : ∀ x, .body x ∈ fs ↔ .body x ∈ s.frames)
    (hwalk : ∀ p rest, .walk p rest ∈ fs → a ∉ rest ∧ ∃ rest', .walk p rest' ∈ s.frames ∧
      rest.Sublist rest')
    (hwalk' : ∀ p rest, .walk p rest ∈ s.frames → ∃ rest', .walk p rest' ∈ fs ∧
      ∀ c ∈ rest, c = a ∨ c ∈ rest')
    (hloop : ∀ rest, .loop rest ∈ fs → ∃ rest', .loop rest' ∈ s.frames ∧ rest.Sublist rest')
    (hnested : fs.Pairwise s.Nested) (hbelow : ∀ x, .body x ∈ fs → ¬ Below s.kids a x) :
    ({ s with frames := fs }.delete a).Inv := by
  have hdelete : { s with frames := fs }.delete a =
      { s with begun := a :: s.begun, frames := .body a :: fs } := if_neg ha
  rw [hdelete]
  exact
    { sound := h.sound
      tree := ⟨h.tree.kid, h.tree.nodup, h.tree.older, h.tree.live, h.tree.freed, h.tree.roots⟩
      begun := h.begun_begin ha hborn (fun x => (hbody x).mpr) fun p rest hp =>
        (hwalk' p rest hp).imp fun _ hrest => hrest.1
      stack := h.stack_begin ha hborn hbody hwalk hwalk' hloop hnested hbelow }

/-- User code deletes a node. -/
theorem Inv.delete (h : s.Inv) (hborn : a < s.born) (hl : s.Apart (.delete a)) :
    (s.delete a).Inv :=
  h.begin (hl.fresh a rfl) hborn (fun x => (Iff.rfl : .body x ∈ s.frames ↔ .body x ∈ s.frames))
    (fun p rest hp => ⟨hl.waiting a rfl p rest hp, rest, hp, List.Sublist.refl _⟩)
    (fun _ rest hp => ⟨rest, hp, fun _ => Or.inr⟩)
    (fun rest hr => ⟨rest, hr, List.Sublist.refl _⟩) h.stack.nested fun x => hl.below a rfl x

/-- No two frames are of one node. -/
theorem Stack.node_ne (h : s.Stack) {F G : DestructorFrame} (hf : s.frames = F :: fs) (hG : G ∈ fs)
    (ha : F.node = some a) : G.node ≠ some a := by
  have hnested := h.nested
  rw [hf, List.pairwise_cons] at hnested
  exact (hnested.1 G hG).node a ha

/-- `Node::~Node` comes to its next child. -/
theorem Inv.next (h : s.Inv) (hf : s.frames = .walk p (c :: rest) :: fs) :
    ({ s with frames := .walk p rest :: fs }.delete c).Inv := by
  have htop : .walk p (c :: rest) ∈ s.frames := hf ▸ List.mem_cons_self
  obtain ⟨hbegun, hparent⟩ := h.stack.waiting p (c :: rest) htop c List.mem_cons_self
  obtain ⟨_, _, _, _, hnodup⟩ := h.stack.walk p (c :: rest) htop
  have hnested := h.stack.nested
  rw [hf, List.pairwise_cons] at hnested
  refine h.begin hbegun (h.tree.older c p hparent).2 (fun x => ?_) (fun q rest' hq => ?_)
    (fun q rest' hq => ?_) (fun rest' hr => ?_) ?_ fun x hx => ?_
  · rw [hf, List.mem_cons, List.mem_cons]
    exact or_congr_left (iff_of_false nofun nofun)
  · rcases List.mem_cons.mp hq with heq | hq
    · obtain ⟨rfl, rfl⟩ := DestructorFrame.walk.inj heq
      exact ⟨(List.nodup_cons.mp hnodup).1, _, htop, List.sublist_cons_self ..⟩
    · have hq' : .walk q rest' ∈ s.frames := hf ▸ List.mem_cons_of_mem _ hq
      have hne : q ≠ p := fun heq =>
        h.stack.node_ne (G := .walk q rest') hf hq rfl (congrArg some heq)
      refine ⟨fun hmem => hne ?_, rest', hq', List.Sublist.refl _⟩
      have hqp := (h.stack.waiting q rest' hq' c hmem).2
      exact Option.some.inj (hqp.symm.trans hparent)
  · rw [hf] at hq
    rcases List.mem_cons.mp hq with heq | hq
    · obtain ⟨rfl, rfl⟩ := DestructorFrame.walk.inj heq
      exact ⟨rest, List.mem_cons_self, fun _ => List.mem_cons.mp⟩
    · exact ⟨rest', List.mem_cons_of_mem _ hq, fun _ => Or.inr⟩
  · have hr := (List.mem_cons.mp hr).resolve_left nofun
    exact ⟨rest', hf ▸ List.mem_cons_of_mem _ hr, List.Sublist.refl _⟩
  · refine List.pairwise_cons.mpr ⟨fun lower hlower => ?_, hnested.2⟩
    have hn := hnested.1 lower hlower
    refine ⟨nofun, hn.node, fun b hb => hn.apart b (List.mem_cons_of_mem _ hb), ?_⟩
    rintro q rest' c' heq
    obtain ⟨rfl, _⟩ := DestructorFrame.walk.inj heq
    exact hn.inner p _ c' rfl
  · have hx := (List.mem_cons.mp hx).resolve_left nofun
    exact (hnested.1 _ hx).apart c List.mem_cons_self x rfl

/-- Below a loop of `EventLoop::~EventLoop` there is nothing. -/
theorem Stack.nil_of_loop (h : s.Stack) (hf : s.frames = .loop rest :: fs) : fs = [] := by
  have hnested := h.nested
  rw [hf, List.pairwise_cons] at hnested
  cases fs with
  | nil => rfl
  | cons F fs => exact absurd rfl ((hnested.1 F List.mem_cons_self).not_loop rest)

/-- The loop of `EventLoop::~EventLoop` comes to a root that is alive. -/
theorem Inv.nextRoot (h : s.Inv) (hf : s.frames = .loop (r :: rest) :: fs)
    (halive : (s.nodes r).alive = true) : ({ s with frames := .loop rest :: fs }.delete r).Inv := by
  obtain rfl := h.stack.nil_of_loop hf
  have hnone (F : DestructorFrame) (hF : F ∈ s.frames) : F = .loop (r :: rest) := by
    rw [hf] at hF
    exact List.mem_singleton.mp hF
  have hbegun : r ∉ s.begun := by
    intro hmem
    rcases h.begun.progress r hmem with hfreed | hbody | ⟨rest', hwalk⟩
    · exact Bool.noConfusion ((h.tree.live r halive).2.symm.trans hfreed)
    · exact nomatch hnone _ hbody
    · exact nomatch hnone _ hwalk
  have htop : .loop (r :: rest) ∈ s.frames := hf ▸ List.mem_cons_self
  refine h.begin hbegun (h.stack.roots _ htop r List.mem_cons_self) (fun x => ?_)
    (fun q rest' hq => nomatch List.mem_singleton.mp hq)
    (fun q rest' hq => nomatch hnone _ hq) (fun rest' hr => ?_) (List.pairwise_singleton _ _)
    fun x hx => nomatch List.mem_singleton.mp hx
  · rw [hf, List.mem_singleton, List.mem_singleton]
    exact iff_of_false nofun nofun
  · obtain rfl := DestructorFrame.loop.inj (List.mem_singleton.mp hr)
    exact ⟨_, htop, List.sublist_cons_self ..⟩

/-! ### The parts of `Node::~Node` -/

/-- The parent of a node that is alive is not freed. -/
theorem Inv.parent_not_freed (h : s.Inv) (halive : (s.nodes c).alive = true)
    (hp : s.parentOf c = some p) : (s.nodes p).freed = false := by
  rcases h.stack.placed c p halive hp with hmem | ⟨rest, hrest, _⟩
  · by_contra hne
    rw [h.tree.freed p (by simpa using hne)] at hmem
    exact absurd hmem List.not_mem_nil
  · exact (h.stack.walk p rest hrest).2.2.1

/-- A node that is no child is in no list to be taken out of. -/
theorem filter_kids_of_parent_ne (ht : s.Tree) (hp : s.parentOf a ≠ some x) :
    (s.kids x).filter (· ≠ a) = s.kids x := by
  refine List.filter_eq_self.mpr fun c hc => ?_
  rw [decide_eq_true_eq]
  rintro rfl
  exact hp (ht.kid x c hc).1

/-- A node that is being destroyed has its parent's memory to edit. -/
theorem unlink_eq (h : s.Inv) (halive : (s.nodes a).alive = true) : s.unlink a = { s with
    nodes := fun x => { s.nodes x with children := (s.kids x).filter (· ≠ a) }
    roots := if s.parentOf a = none then s.roots.filter (· ≠ a) else s.roots } := by
  have hnodes (x : ℕ) (hp : s.parentOf a ≠ some x) :
      { s.nodes x with children := (s.kids x).filter (· ≠ a) } = s.nodes x := by
    rw [filter_kids_of_parent_ne h.tree hp, kids]
  cases hp : s.parentOf a with
  | none =>
    rw [unlink, hp, if_pos rfl]
    change { s with roots := _ } = _
    congr 1
    funext x
    exact (hnodes x (by simp [hp])).symm
  | some p =>
    rw [unlink, hp]
    refine (if_neg (by rw [h.parent_not_freed halive hp]; exact Bool.false_ne_true)).trans ?_
    rw [if_neg (by simp), setNode]
    congr 1
    funext x
    rw [Function.update_apply]
    split
    · rename_i heq
      rw [heq, kids]
    · rename_i hne
      exact (hnodes x (by simp [hp, Ne.symm hne])).symm

/-- The node leaves its parent, and its own vector is moved out. -/
theorem destruct_eq (h : s.Inv) (hf : s.frames = .body a :: fs) : s.destruct a fs = { s with
    nodes := fun x => if x = a then { s.nodes a with alive := false, children := [] }
      else { s.nodes x with children := (s.kids x).filter (· ≠ a) }
    roots := if s.parentOf a = none then s.roots.filter (· ≠ a) else s.roots
    frames := .walk a (s.kids a) :: fs } := by
  have halive := (h.stack.body a (hf ▸ List.mem_cons_self)).2
  have hself : (s.kids a).filter (· ≠ a) = s.kids a :=
    filter_kids_of_parent_ne h.tree fun hp => Nat.lt_irrefl a (h.tree.older a a hp).1
  rw [destruct, unlink_eq h halive]
  simp only [setNode, kids]
  congr 1
  · funext x
    rw [Function.update_apply]
  · rw [← kids, hself]

section Destruct

variable (h : s.Inv) (hf : s.frames = .body a :: fs)

include h hf

/-- The node whose body has ended. -/
theorem nodes_destruct_self :
    (s.destruct a fs).nodes a = { s.nodes a with alive := false, children := [] } := by
  rw [destruct_eq h hf]
  exact if_pos rfl

/-- The other nodes lose it as a child. -/
theorem nodes_destruct_of_ne (hx : x ≠ a) : (s.destruct a fs).nodes x =
    { s.nodes x with children := (s.kids x).filter (· ≠ a) } := by
  rw [destruct_eq h hf]
  exact if_neg hx

/-- It has no children in its list any more. -/
theorem kids_destruct_self : (s.destruct a fs).kids a = [] := by
  rw [kids, nodes_destruct_self h hf]

/-- The children of the other nodes. -/
theorem kids_destruct_of_ne (hx : x ≠ a) :
    (s.destruct a fs).kids x = (s.kids x).filter (· ≠ a) := by
  rw [kids, nodes_destruct_of_ne h hf hx]

/-- A child that is left was one before. -/
theorem mem_kids_of_destruct (hc : c ∈ (s.destruct a fs).kids x) : c ∈ s.kids x ∧ x ≠ a := by
  by_cases hx : x = a
  · rw [hx, kids_destruct_self h hf] at hc
    exact absurd hc List.not_mem_nil
  · rw [kids_destruct_of_ne h hf hx] at hc
    exact ⟨List.mem_of_mem_filter hc, hx⟩

/-- What is below a node was below it before. -/
theorem below_of_destruct (hbelow : Below (s.destruct a fs).kids c x) : Below s.kids c x :=
  Relation.ReflTransGen.mono (fun _ _ hz => (mem_kids_of_destruct h hf hz).1) _ _ hbelow

/-- The parents are the same. -/
theorem parentOf_destruct : (s.destruct a fs).parentOf x = s.parentOf x := by
  by_cases hx : x = a
  · rw [hx, parentOf, nodes_destruct_self h hf, parentOf]
  · rw [parentOf, nodes_destruct_of_ne h hf hx, parentOf]

/-- The other nodes are alive as before. -/
theorem alive_destruct_of_ne (hx : x ≠ a) :
    ((s.destruct a fs).nodes x).alive = (s.nodes x).alive := by
  rw [nodes_destruct_of_ne h hf hx]

/-- The node is not alive. -/
theorem alive_destruct_self : ((s.destruct a fs).nodes a).alive = false := by
  rw [nodes_destruct_self h hf]

/-- The freed nodes are the same. -/
theorem freed_destruct : ((s.destruct a fs).nodes x).freed = (s.nodes x).freed := by
  by_cases hx : x = a
  · rw [hx, nodes_destruct_self h hf]
  · rw [nodes_destruct_of_ne h hf hx]

/-- No node is created. -/
theorem born_destruct : (s.destruct a fs).born = s.born := by
  rw [destruct_eq h hf]

/-- No destructor begins. -/
theorem begun_destruct : (s.destruct a fs).begun = s.begun := by
  rw [destruct_eq h hf]

/-- The destructor goes on to the children. -/
theorem frames_destruct : (s.destruct a fs).frames = .walk a (s.kids a) :: fs := by
  rw [destruct_eq h hf]

/-- The tree when a body has ended. -/
theorem tree_destruct : (s.destruct a fs).Tree where
  kid p c hc := by
    obtain ⟨hmem, hp⟩ := mem_kids_of_destruct h hf hc
    obtain ⟨hparent, halive⟩ := h.tree.kid p c hmem
    have hca : c ≠ a := by
      rintro rfl
      rw [kids_destruct_of_ne h hf hp] at hc
      exact absurd (List.mem_filter.mp hc).2 (by simp)
    rw [parentOf_destruct h hf, alive_destruct_of_ne h hf hca]
    exact ⟨hparent, halive⟩
  nodup p := by
    by_cases hp : p = a
    · rw [hp, kids_destruct_self h hf]
      exact List.nodup_nil
    · rw [kids_destruct_of_ne h hf hp]
      exact (h.tree.nodup p).filter _
  older c p hp := by
    rw [parentOf_destruct h hf] at hp
    rw [born_destruct h hf]
    exact h.tree.older c p hp
  live x hx := by
    have hxa : x ≠ a := by
      rintro rfl
      exact Bool.noConfusion ((alive_destruct_self h hf).symm.trans hx)
    rw [alive_destruct_of_ne h hf hxa] at hx
    rw [born_destruct h hf, freed_destruct h hf]
    exact h.tree.live x hx
  freed x hx := by
    rw [freed_destruct h hf] at hx
    by_cases hxa : x = a
    · rw [hxa, kids_destruct_self h hf]
    · rw [kids_destruct_of_ne h hf hxa, h.tree.freed x hx]
      rfl
  roots r hr := by
    rw [destruct_eq h hf] at hr ⊢
    dsimp only at hr ⊢
    split at hr
    · exact h.tree.roots r (List.mem_of_mem_filter hr)
    · exact h.tree.roots r hr

/-- What has begun when a body has ended. -/
theorem begun_destruct_inv : (s.destruct a fs).Begun where
  once := by
    rw [begun_destruct h hf]
    exact h.begun.once
  born x hx := by
    rw [begun_destruct h hf] at hx
    rw [born_destruct h hf]
    exact h.begun.born x hx
  untouched x hx hbegun := by
    rw [born_destruct h hf] at hx
    rw [begun_destruct h hf] at hbegun
    have hxa : x ≠ a := by
      rintro rfl
      exact hbegun (h.stack.body x (hf ▸ List.mem_cons_self)).1
    rw [alive_destruct_of_ne h hf hxa]
    exact h.begun.untouched x hx hbegun
  progress x hx := by
    rw [begun_destruct h hf] at hx
    rw [freed_destruct h hf, frames_destruct h hf]
    by_cases hxa : x = a
    · rw [hxa]
      exact Or.inr (Or.inr ⟨_, List.mem_cons_self⟩)
    · rcases h.begun.progress x hx with hx | hx | ⟨rest, hx⟩
      · exact Or.inl hx
      · rw [hf] at hx
        have hx := (List.mem_cons.mp hx).resolve_left fun heq => hxa (DestructorFrame.body.inj heq)
        exact Or.inr (Or.inl (List.mem_cons_of_mem _ hx))
      · rw [hf] at hx
        have hx := (List.mem_cons.mp hx).resolve_left nofun
        exact Or.inr (Or.inr ⟨rest, List.mem_cons_of_mem _ hx⟩)

/-- A child of the node has not begun to be destroyed: its destructor would be running further
out. -/
theorem untouched_of_mem_kids (hc : c ∈ s.kids a) : c ∉ s.begun := by
  obtain ⟨hparent, halive⟩ := h.tree.kid a c hc
  have hca : c ≠ a := Nat.ne_of_gt (h.tree.older c a hparent).1
  have hnested := h.stack.nested
  rw [hf, List.pairwise_cons] at hnested
  intro hbegun
  rcases h.begun.progress c hbegun with hfreed | hbody | ⟨rest, hwalk⟩
  · exact Bool.noConfusion ((h.tree.live c halive).2.symm.trans hfreed)
  · rw [hf] at hbody
    have hmem := (List.mem_cons.mp hbody).resolve_left fun heq =>
      hca (DestructorFrame.body.inj heq)
    exact (hnested.1 _ hmem).apart a List.mem_cons_self c rfl (.single hc)
  · exact Bool.noConfusion ((h.stack.walk c rest hwalk).2.1.symm.trans halive)

/-- The stack when a body has ended. -/
theorem stack_destruct : (s.destruct a fs).Stack where
  placed c p hc hp := by
    have hca : c ≠ a := by
      rintro rfl
      exact Bool.noConfusion ((alive_destruct_self h hf).symm.trans hc)
    rw [alive_destruct_of_ne h hf hca] at hc
    rw [parentOf_destruct h hf] at hp
    rw [frames_destruct h hf]
    have hframe {F : DestructorFrame} (hF : F ∈ s.frames) (hne : F ≠ .body a) :
        F ∈ .walk a (s.kids a) :: fs := by
      rw [hf] at hF
      exact List.mem_cons_of_mem _ ((List.mem_cons.mp hF).resolve_left hne)
    rcases h.stack.placed c p hc hp with hmem | ⟨rest, hrest, hmem⟩
    · by_cases hpa : p = a
      · exact Or.inr ⟨_, hpa ▸ List.mem_cons_self, Or.inl hmem⟩
      · refine Or.inl ?_
        rw [kids_destruct_of_ne h hf hpa]
        exact List.mem_filter.mpr ⟨hmem, decide_eq_true hca⟩
    · refine Or.inr ⟨rest, hframe hrest nofun, hmem.imp_right fun hbody => hframe hbody ?_⟩
      exact fun heq => hca (DestructorFrame.body.inj heq)
  body x hx := by
    rw [frames_destruct h hf] at hx
    have hx := (List.mem_cons.mp hx).resolve_left nofun
    have hxa : x ≠ a := fun heq => h.stack.node_ne (G := .body x) hf hx rfl (congrArg some heq)
    rw [begun_destruct h hf, alive_destruct_of_ne h hf hxa]
    exact h.stack.body x (hf ▸ List.mem_cons_of_mem _ hx)
  walk p rest hp := by
    rw [frames_destruct h hf] at hp
    rw [begun_destruct h hf, freed_destruct h hf]
    rcases List.mem_cons.mp hp with heq | hp
    · obtain ⟨rfl, rfl⟩ := DestructorFrame.walk.inj heq
      obtain ⟨hbegun, halive⟩ := h.stack.body p (hf ▸ List.mem_cons_self)
      exact ⟨hbegun, alive_destruct_self h hf, (h.tree.live p halive).2, kids_destruct_self h hf,
        h.tree.nodup p⟩
    · have hpa : p ≠ a := fun heq =>
        h.stack.node_ne (G := .walk p rest) hf hp rfl (congrArg some heq)
      obtain ⟨hbegun, halive, hfreed, hkids, hnodup⟩ :=
        h.stack.walk p rest (hf ▸ List.mem_cons_of_mem _ hp)
      rw [alive_destruct_of_ne h hf hpa, kids_destruct_of_ne h hf hpa, hkids]
      exact ⟨hbegun, halive, hfreed, rfl, hnodup⟩
  waiting p rest hp c hc := by
    rw [frames_destruct h hf] at hp
    rw [begun_destruct h hf, parentOf_destruct h hf]
    rcases List.mem_cons.mp hp with heq | hp
    · obtain ⟨rfl, rfl⟩ := DestructorFrame.walk.inj heq
      exact ⟨untouched_of_mem_kids h hf hc, (h.tree.kid p c hc).1⟩
    · exact h.stack.waiting p rest (hf ▸ List.mem_cons_of_mem _ hp) c hc
  roots rest hr r hmem := by
    rw [frames_destruct h hf] at hr
    rw [born_destruct h hf]
    have hr := (List.mem_cons.mp hr).resolve_left nofun
    exact h.stack.roots rest (hf ▸ List.mem_cons_of_mem _ hr) r hmem
  nested := by
    have hnested := h.stack.nested
    rw [hf, List.pairwise_cons] at hnested
    have hmono {upper lower : DestructorFrame} (hn : s.Nested upper lower) :
        (s.destruct a fs).Nested upper lower := by
      refine ⟨hn.not_loop, hn.node, fun b hb x hx hbelow => ?_, fun p rest c hu hl => ?_⟩
      · exact hn.apart b hb x hx (below_of_destruct h hf hbelow)
      · rw [parentOf_destruct h hf]
        exact hn.inner p rest c hu hl
    rw [frames_destruct h hf]
    refine List.pairwise_cons.mpr ⟨fun lower hlower => ?_, hnested.2.imp hmono⟩
    have hn := hnested.1 lower hlower
    refine ⟨nofun, hn.node, fun c hc x hx hbelow => ?_, ?_⟩
    · exact hn.apart a List.mem_cons_self x hx (.head hc (below_of_destruct h hf hbelow))
    · rintro p rest c heq rfl hparent
      obtain ⟨rfl, _⟩ := DestructorFrame.walk.inj heq
      rw [parentOf_destruct h hf] at hparent
      -- the child would be with the node, or its destructor within the loop of the node
      have halive := (h.stack.body c (hf ▸ List.mem_cons_of_mem _ hlower)).2
      rcases h.stack.placed c a halive hparent with hmem | ⟨rest', hrest', _⟩
      · exact hn.apart a List.mem_cons_self c rfl (.single hmem)
      · have ha := (h.stack.body a (hf ▸ List.mem_cons_self)).2
        exact Bool.noConfusion ((h.stack.walk a rest' hrest').2.1.symm.trans ha)

/-- **A body ends.** -/
theorem Inv.endBody : (s.destruct a fs).Inv :=
  ⟨by rw [destruct_eq h hf]; exact h.sound, tree_destruct h hf, begun_destruct_inv h hf,
    stack_destruct h hf⟩

end Destruct

section Free

variable (h : s.Inv) (hf : s.frames = .walk a [] :: fs)

/-- The node that is freed. -/
theorem nodes_free : (s.free a fs).nodes x =
    if x = a then { s.nodes x with freed := true } else s.nodes x := by
  simp only [free, setNode, Function.update_apply]
  split
  · rename_i heq
    rw [heq]
  · rfl

/-- The children are the same. -/
theorem kids_free : (s.free a fs).kids = s.kids := by
  funext x
  rw [kids, nodes_free, kids]
  split <;> rfl

/-- The parents are the same. -/
theorem parentOf_free : (s.free a fs).parentOf x = s.parentOf x := by
  rw [parentOf, nodes_free, parentOf]
  split <;> rfl

/-- The same nodes are alive. -/
theorem alive_free : ((s.free a fs).nodes x).alive = (s.nodes x).alive := by
  rw [nodes_free]
  split <;> rfl

/-- The other nodes are freed as before. -/
theorem freed_free_of_ne (hx : x ≠ a) : ((s.free a fs).nodes x).freed = (s.nodes x).freed := by
  rw [nodes_free, if_neg hx]

/-- The other frames are still there. -/
theorem mem_frames_free (hf : s.frames = .walk a [] :: fs) {F : DestructorFrame}
    (hF : F ∈ s.frames) (hne : F.node ≠ some a) : F ∈ (s.free a fs).frames := by
  rw [hf] at hF
  refine (List.mem_cons.mp hF).resolve_left ?_
  rintro rfl
  exact hne rfl

/-- The destructors that are left were under way before. -/
theorem mem_frames_of_free (hf : s.frames = .walk a [] :: fs) {F : DestructorFrame}
    (hF : F ∈ (s.free a fs).frames) : F ∈ s.frames :=
  hf ▸ List.mem_cons_of_mem _ hF

include h hf

/-- Nothing that is alive is left to a node at the end of its destructor. -/
theorem Inv.no_child_left (halive : (s.nodes c).alive = true) : s.parentOf c ≠ some a := by
  intro hp
  have htop : .walk a [] ∈ s.frames := hf ▸ List.mem_cons_self
  have hnested := h.stack.nested
  rw [hf, List.pairwise_cons] at hnested
  rcases h.stack.placed c a halive hp with hmem | ⟨rest, hrest, hmem⟩
  · rw [(h.stack.walk a [] htop).2.2.2.1] at hmem
    exact List.not_mem_nil hmem
  · have hrest : rest = [] := by
      rw [hf] at hrest
      rcases List.mem_cons.mp hrest with heq | hrest
      · exact (DestructorFrame.walk.inj heq).2
      · exact absurd rfl (h.stack.node_ne (G := .walk a rest) (a := a) hf hrest rfl)
    rcases hmem with hmem | hbody
    · rw [hrest] at hmem
      exact List.not_mem_nil hmem
    · rw [hf] at hbody
      have hbody := (List.mem_cons.mp hbody).resolve_left nofun
      exact (hnested.1 _ hbody).inner a [] c rfl rfl hp

/-- A node that is alive is not the one that is freed. -/
theorem ne_of_alive_free (hx : (s.nodes x).alive = true) : x ≠ a := by
  rintro rfl
  have hdead := (h.stack.walk x [] (hf ▸ List.mem_cons_self)).2.1
  exact Bool.noConfusion (hdead.symm.trans hx)

/-- The tree when a node is freed. -/
theorem tree_free : (s.free a fs).Tree where
  kid p c hc := by
    rw [kids_free] at hc
    rw [parentOf_free, alive_free]
    exact h.tree.kid p c hc
  nodup p := by
    rw [kids_free]
    exact h.tree.nodup p
  older c p hp := by
    rw [parentOf_free] at hp
    exact h.tree.older c p hp
  live x hx := by
    rw [alive_free] at hx
    rw [freed_free_of_ne (ne_of_alive_free h hf hx)]
    exact h.tree.live x hx
  freed x hx := by
    rw [kids_free]
    by_cases hxa : x = a
    · rw [hxa, (h.stack.walk a [] (hf ▸ List.mem_cons_self)).2.2.2.1]
    · rw [freed_free_of_ne hxa] at hx
      exact h.tree.freed x hx
  roots := h.tree.roots

/-- What has begun when a node is freed. -/
theorem begun_free : (s.free a fs).Begun where
  once := h.begun.once
  born := h.begun.born
  untouched x hx hbegun := by
    rw [alive_free]
    exact h.begun.untouched x hx hbegun
  progress x hx := by
    by_cases hxa : x = a
    · rw [nodes_free, if_pos hxa]
      exact Or.inl rfl
    · rw [freed_free_of_ne hxa]
      have hne : some x ≠ some a := fun heq => hxa (Option.some.inj heq)
      rcases h.begun.progress x hx with hx | hx | ⟨rest, hx⟩
      · exact Or.inl hx
      · exact Or.inr (Or.inl (mem_frames_free hf hx hne))
      · exact Or.inr (Or.inr ⟨rest, mem_frames_free hf hx hne⟩)

/-- The stack when a node is freed. -/
theorem stack_free : (s.free a fs).Stack where
  placed c p hc hp := by
    rw [alive_free] at hc
    rw [parentOf_free] at hp
    rw [kids_free]
    have hpa : p ≠ a := fun heq => h.no_child_left hf hc (heq ▸ hp)
    have hca : c ≠ a := ne_of_alive_free h hf hc
    rcases h.stack.placed c p hc hp with hmem | ⟨rest, hwalk, hmem⟩
    · exact Or.inl hmem
    · refine Or.inr ⟨rest, mem_frames_free hf hwalk fun heq => hpa (Option.some.inj heq), ?_⟩
      exact hmem.imp_right fun hbody =>
        mem_frames_free hf hbody fun heq => hca (Option.some.inj heq)
  body x hx := by
    rw [alive_free]
    exact h.stack.body x (mem_frames_of_free hf hx)
  walk p rest hp := by
    have hpa : p ≠ a := fun heq =>
      h.stack.node_ne (G := .walk p rest) hf hp rfl (congrArg some heq)
    rw [alive_free, freed_free_of_ne hpa, kids_free]
    exact h.stack.walk p rest (mem_frames_of_free hf hp)
  waiting p rest hp c hc := by
    rw [parentOf_free]
    exact h.stack.waiting p rest (mem_frames_of_free hf hp) c hc
  roots rest hr := h.stack.roots rest (mem_frames_of_free hf hr)
  nested := by
    have hnested := h.stack.nested
    rw [hf, List.pairwise_cons] at hnested
    refine hnested.2.imp fun hn => ⟨hn.not_loop, hn.node, ?_, ?_⟩
    · rw [kids_free]
      exact hn.apart
    · intro p rest c hu hl
      rw [parentOf_free]
      exact hn.inner p rest c hu hl

/-- **A node is freed.** -/
theorem Inv.free : (s.free a fs).Inv :=
  ⟨h.sound, tree_free h hf, begun_free h hf, stack_free h hf⟩

end Free

/-- No destructor of a node is in progress before and after the step. -/
theorem Inv.frames (h : s.Inv) (hold : ∀ F ∈ s.frames, F.node = none)
    (hnew : fs = [] ∨ ∃ rest, fs = [.loop rest] ∧ ∀ r ∈ rest, r < s.born) :
    Inv { s with frames := fs } := by
  have hnone (F : DestructorFrame) (hF : F ∈ fs) :
      ∃ rest, F = .loop rest ∧ ∀ r ∈ rest, r < s.born := by
    rcases hnew with rfl | ⟨rest, rfl, hr⟩
    · exact absurd hF List.not_mem_nil
    · exact ⟨rest, List.mem_singleton.mp hF, hr⟩
  have hbody (x : ℕ) : .body x ∉ s.frames := fun hx => nomatch hold _ hx
  have hwalk (p : ℕ) (rest : List ℕ) : .walk p rest ∉ s.frames := fun hp => nomatch hold _ hp
  have hbody' (x : ℕ) (hx : .body x ∈ fs) : False := by
    obtain ⟨_, heq, _⟩ := hnone _ hx
    exact nomatch heq
  have hwalk' (p : ℕ) (rest : List ℕ) (hp : .walk p rest ∈ fs) : False := by
    obtain ⟨_, heq, _⟩ := hnone _ hp
    exact nomatch heq
  refine ⟨h.sound, ⟨h.tree.kid, h.tree.nodup, h.tree.older, h.tree.live, h.tree.freed,
    h.tree.roots⟩, ⟨h.begun.once, h.begun.born, h.begun.untouched, fun x hx => ?_⟩,
    ⟨fun c p hc hp => ?_, fun x hx => (hbody' x hx).elim, fun p rest hp => (hwalk' p rest hp).elim,
      fun p rest hp => (hwalk' p rest hp).elim, fun rest hr => ?_, ?_⟩⟩
  · rcases h.begun.progress x hx with hx | hx | ⟨rest, hx⟩
    · exact Or.inl hx
    · exact absurd hx (hbody x)
    · exact absurd hx (hwalk x rest)
  · rcases h.stack.placed c p hc hp with hmem | ⟨rest, hrest, _⟩
    · exact Or.inl hmem
    · exact absurd hrest (hwalk p rest)
  · obtain ⟨rest', heq, hlt⟩ := hnone _ hr
    obtain rfl := DestructorFrame.loop.inj heq
    exact hlt
  · rcases hnew with rfl | ⟨rest, rfl, _⟩
    · exact List.Pairwise.nil
    · exact List.pairwise_singleton _ _

/-! ### Runs -/

/-- **What a step keeps**, if user code leaves alone what is being destroyed. -/
theorem Inv.step (h : s.Inv) (hl : s.Apart l) (hs : Step s l s') : s'.Inv := by
  cases hs with
  | @create v _ hv =>
    have hguard (p : ℕ) (hp : v = some p) (rest : List ℕ) : .walk p rest ∉ s.frames :=
      hl.create p (congrArg _ hp) rest
    refine ⟨?_, h.tree.create hv, h.begun.create, h.stack.create h.tree h.begun hv hguard⟩
    cases v with
    | none => exact h.sound
    | some p => exact h.sound
  | delete _ hborn => exact h.delete hborn hl
  | destroyLoop _ hf =>
    exact h.frames (fun F hF => absurd (hf ▸ hF) List.not_mem_nil) (Or.inr ⟨_, rfl, h.tree.roots⟩)
  | endBody _ hf => exact h.endBody hf
  | next _ hf => exact h.next hf
  | nextRoot _ hf halive => exact h.nextRoot hf halive
  | @skipRoot r rest fs _ hf _ =>
    obtain rfl := h.stack.nil_of_loop hf
    refine h.frames (fun F hF => ?_) (Or.inr ⟨rest, rfl, fun r hr => ?_⟩)
    · rw [hf, List.mem_singleton] at hF
      exact hF ▸ rfl
    · exact h.stack.roots _ (hf ▸ List.mem_cons_self) r (List.mem_cons_of_mem _ hr)
  | finish _ hf => exact h.free hf
  | @finishLoop fs _ hf =>
    obtain rfl := h.stack.nil_of_loop hf
    refine h.frames (fun F hF => ?_) (Or.inl rfl)
    rw [hf, List.mem_singleton] at hF
    exact hF ▸ rfl

/-- In the beginning there is no node. -/
theorem Inv.init : Inv {} where
  sound := rfl
  tree := ⟨nofun, fun _ => List.nodup_nil, nofun, nofun, nofun, nofun⟩
  begun := ⟨List.nodup_nil, nofun, nofun, nofun⟩
  stack := ⟨nofun, nofun, nofun, nofun, nofun, List.Pairwise.nil⟩

/-- When all destructors have returned, what has begun to be destroyed has been destroyed. -/
theorem Inv.freed_of_begun (h : s.Inv) (hf : s.frames = []) (hx : x ∈ s.begun) :
    (s.nodes x).freed = true := by
  rcases h.begun.progress x hx with hx | hx | ⟨rest, hx⟩
  · exact hx
  · rw [hf] at hx
    exact absurd hx List.not_mem_nil
  · rw [hf] at hx
    exact absurd hx List.not_mem_nil

/-- A child of what has been destroyed has begun to be destroyed. -/
theorem Inv.begun_of_parent (h : s.Inv) (hp : s.parentOf c = some p)
    (hfreed : (s.nodes p).freed = true) : c ∈ s.begun := by
  by_contra hbegun
  have halive := h.begun.untouched c (h.tree.older c p hp).2 hbegun
  exact Bool.noConfusion ((h.parent_not_freed halive hp).symm.trans hfreed)

/-- What holds of each node. -/
theorem Inv.onceEach (h : s.Inv) : s.OnceEach where
  sound := h.sound
  once := h.begun.once
  parents _ _ halive hp := h.parent_not_freed halive hp
  whole hf a ha x hx := by
    have hbegun : x ∈ s.begun := by
      induction hx using Relation.ReflTransGen.head_induction_on with
      | refl => exact ha
      | head hp _ ih => exact h.begun_of_parent hp (h.freed_of_begun hf ih)
    exact ⟨h.freed_of_begun hf hbegun, List.count_eq_one_of_mem h.begun.once hbegun⟩

/-- If the destructors of classes leave alone what is being destroyed, each node is destroyed
once. -/
theorem destroyed_once {ls : List TeardownStep} (h : Run Step Apart {} ls s) : s.OnceEach :=
  (h.invariant (fun _ _ _ hi hok hs => hi.step hok hs) Inv.init).onceEach

/-- A step that neither deletes nor adds a child. -/
theorem apart_of_ne (hd : ∀ a, l ≠ .delete a) (hc : ∀ p, l ≠ .create (some p)) : s.Apart l :=
  ⟨fun a h => absurd h (hd a), fun a h => absurd h (hd a), fun a h => absurd h (hd a),
    fun p h => absurd h (hc p)⟩

/-- A child of a node whose destructor is not under way. -/
theorem apart_create (h : ∀ F ∈ s.frames, F.node ≠ some p) : s.Apart (.create (some p)) where
  fresh := nofun
  waiting := nofun
  below := nofun
  create := by
    rintro _ ⟨⟩ rest hp
    exact h _ hp rfl

/-- A deletion while no destructor is under way. -/
theorem apart_delete_outside (ha : a ∉ s.begun) (hf : s.frames = []) : s.Apart (.delete a) where
  fresh := by
    rintro _ ⟨⟩
    exact ha
  waiting := by
    rintro _ ⟨⟩ p rest hp
    rw [hf] at hp
    exact absurd hp List.not_mem_nil
  below := by
    rintro _ ⟨⟩ x hx
    rw [hf] at hx
    exact absurd hx List.not_mem_nil
  create := nofun

/-- A deletion of a leaf that no destructor has in hand. -/
theorem apart_delete_leaf (ha : a ∉ s.begun) (hk : s.kids a = [])
    (hF : ∀ F ∈ s.frames, F.node ≠ some a ∧ a ∉ F.heads) : s.Apart (.delete a) where
  fresh := by
    rintro _ ⟨⟩
    exact ha
  waiting := by
    rintro _ ⟨⟩ p rest hp
    exact (hF _ hp).2
  below := by
    rintro _ ⟨⟩ x hx hbelow
    rcases Relation.ReflTransGen.cases_head hbelow with heq | ⟨c, hc, _⟩
    · exact (hF _ hx).1 (congrArg some heq.symm)
    · rw [hk] at hc
      exact List.not_mem_nil hc
  create := nofun

/-- The destructor of a child deletes a child of its sibling, and gives another one to it. -/
theorem nephew_deleted : ∃ ls s, Run Step Apart {} ls s ∧ s.frames = [] ∧ s.begun.length = 5 ∧
    s.OnceEach := by
  have hrun : Run Step Apart {} [.create none, .create (some 0), .create (some 0), .create (some 2),
      .delete 0, .endBody, .next, .delete 3, .endBody, .finish, .create (some 2), .endBody, .finish,
      .next, .endBody, .next, .endBody, .finish, .finish, .finish] _ :=
    .cons (apart_of_ne nofun nofun) (.create ⟨rfl, .inl rfl⟩ nofun) <|
    .cons (apart_create (by decide)) (.create ⟨rfl, .inl rfl⟩ (by rintro _ ⟨⟩; decide)) <|
    .cons (apart_create (by decide)) (.create ⟨rfl, .inl rfl⟩ (by rintro _ ⟨⟩; decide)) <|
    .cons (apart_create (by decide)) (.create ⟨rfl, .inl rfl⟩ (by rintro _ ⟨⟩; decide)) <|
    .cons (apart_delete_outside (by decide) rfl) (.delete ⟨rfl, .inl rfl⟩ (by decide)) <|
    .cons (apart_of_ne nofun nofun) (.endBody rfl rfl) <|
    .cons (apart_of_ne nofun nofun) (.next rfl rfl) <|
    .cons (apart_delete_leaf (by decide) rfl (by decide))
      (.delete ⟨rfl, .inr ⟨1, _, rfl⟩⟩ (by decide)) <|
    .cons (apart_of_ne nofun nofun) (.endBody rfl rfl) <|
    .cons (apart_of_ne nofun nofun) (.finish rfl rfl) <|
    .cons (apart_create (by decide)) (.create ⟨rfl, .inr ⟨1, _, rfl⟩⟩ (by rintro _ ⟨⟩; decide)) <|
    .cons (apart_of_ne nofun nofun) (.endBody rfl rfl) <|
    .cons (apart_of_ne nofun nofun) (.finish rfl rfl) <|
    .cons (apart_of_ne nofun nofun) (.next rfl rfl) <|
    .cons (apart_of_ne nofun nofun) (.endBody rfl rfl) <|
    .cons (apart_of_ne nofun nofun) (.next rfl rfl) <|
    .cons (apart_of_ne nofun nofun) (.endBody rfl rfl) <|
    .cons (apart_of_ne nofun nofun) (.finish rfl rfl) <|
    .cons (apart_of_ne nofun nofun) (.finish rfl rfl) <|
    .cons (apart_of_ne nofun nofun) (.finish rfl rfl) <| .nil _
  exact ⟨_, _, hrun, rfl, rfl, destroyed_once hrun⟩

/-- The destructor of a child deletes its sibling, which is destroyed again when the loop of the
parent comes to it; and the destructor of a child gives another child to its parent, which is left
alive when the parent is gone. -/
theorem destroyed_twice_or_never :
    (∃ ls s, Reaches Step {} ls s ∧ s.begun.count 2 = 2) ∧
    ∃ ls s, Reaches Step {} ls s ∧ s.frames = [] ∧ s.parentOf 2 = some 0 ∧
      (s.nodes 2).alive = true ∧ (s.nodes 0).freed = true := by
  have htwice : Reaches Step {} [.create none, .create (some 0), .create (some 0), .delete 0,
      .endBody, .next, .delete 2, .endBody, .finish, .endBody, .finish, .next] _ :=
    .cons trivial (.create ⟨rfl, .inl rfl⟩ nofun) <|
    .cons trivial (.create ⟨rfl, .inl rfl⟩ (by rintro _ ⟨⟩; decide)) <|
    .cons trivial (.create ⟨rfl, .inl rfl⟩ (by rintro _ ⟨⟩; decide)) <|
    .cons trivial (.delete ⟨rfl, .inl rfl⟩ (by decide)) <|
    .cons trivial (.endBody rfl rfl) <| .cons trivial (.next rfl rfl) <|
    .cons trivial (.delete ⟨rfl, .inr ⟨1, _, rfl⟩⟩ (by decide)) <|
    .cons trivial (.endBody rfl rfl) <| .cons trivial (.finish rfl rfl) <|
    .cons trivial (.endBody rfl rfl) <| .cons trivial (.finish rfl rfl) <|
    .cons trivial (.next rfl rfl) <| .nil _
  have hnever : Reaches Step {} [.create none, .create (some 0), .delete 0, .endBody, .next,
      .create (some 0), .endBody, .finish, .finish] _ :=
    .cons trivial (.create ⟨rfl, .inl rfl⟩ nofun) <|
    .cons trivial (.create ⟨rfl, .inl rfl⟩ (by rintro _ ⟨⟩; decide)) <|
    .cons trivial (.delete ⟨rfl, .inl rfl⟩ (by decide)) <|
    .cons trivial (.endBody rfl rfl) <| .cons trivial (.next rfl rfl) <|
    .cons trivial (.create ⟨rfl, .inr ⟨1, _, rfl⟩⟩ (by rintro _ ⟨⟩; decide)) <|
    .cons trivial (.endBody rfl rfl) <| .cons trivial (.finish rfl rfl) <|
    .cons trivial (.finish rfl rfl) <| .nil _
  exact ⟨⟨_, _, htwice, rfl⟩, _, _, hnever, rfl, rfl, rfl, rfl⟩

end Teardown

end SimplyNode
