import Mathlib.Data.List.Nodup
import Mathlib.Data.List.Perm.Subperm
import Mathlib.Logic.Function.Basic
import Mathlib.Logic.Relation

/-!
# Trees Given by Pointers

A graph of records that point at each other is given by a function `kids : α → List α` (the
records a record owns) or by a function `parent : α → Option α` (the record that owns it).
This module develops the two views independently of what the records hold.

Downwards, `preorder kids n a` lists the records below `a`, each before its children, to
depth `n`, and `Bounded kids n a` says that everything below `a` has been listed by then, so
that `preorder` computes the whole subtree. Upwards, `Grounded parent a` says that following
the parent pointers from `a` ends.

## Main results

* `mem_preorder_iff`: the listing of a bounded subtree is exactly what is below its top.
* `preorder_congr`, `Bounded.congr`: the listing only depends on the children of what it
  lists.
* `nodup_preorder`: with one owner per record, and none for the top, nothing is listed twice.
* `bounded_of_detached`: with finitely many records, one owner each and none for the top,
  the subtree is bounded, whatever cycles there are elsewhere.
* `Grounded.reparent`: giving a record a new parent that is not below it keeps every chain of
  parents finite.
-/

namespace PointerForest

universe u

variable {α : Type u}

/-! ### Downwards -/

section Kids

variable {kids kids' : α → List α}

/-- `Below kids a x`: the record `x` is `a` or is owned by something below `a`. -/
abbrev Below (kids : α → List α) : α → α → Prop :=
  Relation.ReflTransGen fun p c => c ∈ kids p

/-- What is below `a`, each record before its children, to depth `n`. -/
def preorder (kids : α → List α) : ℕ → α → List α
  | 0, _ => []
  | n + 1, a => a :: (kids a).flatMap (preorder kids n)

/-- The subtree at `a` has depth at most `n`. -/
def Bounded (kids : α → List α) : ℕ → α → Prop
  | 0, _ => False
  | n + 1, a => ∀ c ∈ kids a, Bounded kids n c

/-- A bound on the depth can be raised. -/
theorem Bounded.mono {n m : ℕ} {a : α} (h : Bounded kids n a) (hnm : n ≤ m) :
    Bounded kids m a := by
  induction n generalizing m a with
  | zero => exact h.elim
  | succ n ih =>
      obtain ⟨m, rfl⟩ : ∃ m', m = m' + 1 := ⟨m - 1, by omega⟩
      exact fun c hc => ih (h c hc) (by omega)

/-- The top of a bounded subtree is listed. -/
theorem mem_preorder_self {n : ℕ} {a : α} (h : Bounded kids n a) :
    a ∈ preorder kids n a := by
  cases n with
  | zero => exact h.elim
  | succ n => exact List.mem_cons_self

/-- What is listed is below the top. -/
theorem below_of_mem_preorder {n : ℕ} {a x : α} (h : x ∈ preorder kids n a) :
    Below kids a x := by
  induction n generalizing a with
  | zero => exact absurd h List.not_mem_nil
  | succ n ih =>
      rcases List.mem_cons.mp h with rfl | h
      · exact .refl
      · obtain ⟨c, hc, hx⟩ := List.mem_flatMap.mp h
        exact .head hc (ih hx)

/-- **The listing of a bounded subtree is the subtree.** -/
theorem mem_preorder_iff {n : ℕ} {a x : α} (h : Bounded kids n a) :
    x ∈ preorder kids n a ↔ Below kids a x := by
  refine ⟨below_of_mem_preorder, fun hx => ?_⟩
  induction hx using Relation.ReflTransGen.head_induction_on generalizing n with
  | refl => exact mem_preorder_self h
  | @head b c hc _ ih =>
      cases n with
      | zero => exact h.elim
      | succ n => exact List.mem_cons_of_mem _ (List.mem_flatMap.mpr ⟨c, hc, ih (h c hc)⟩)

/-- The listing only reads the children of what it lists. -/
theorem preorder_congr {n : ℕ} {a : α} (h : ∀ x ∈ preorder kids n a, kids' x = kids x) :
    preorder kids' n a = preorder kids n a := by
  induction n generalizing a with
  | zero => rfl
  | succ n ih =>
      have ha : kids' a = kids a := h a List.mem_cons_self
      simp only [preorder, ha, List.cons.injEq, true_and]
      refine List.flatMap_congr fun c hc => ih fun x hx => h x ?_
      exact List.mem_cons_of_mem _ (List.mem_flatMap.mpr ⟨c, hc, hx⟩)

/-- A depth bound only reads the children of what is listed. -/
theorem Bounded.congr {n : ℕ} {a : α} (hb : Bounded kids n a)
    (h : ∀ x ∈ preorder kids n a, kids' x = kids x) : Bounded kids' n a := by
  induction n generalizing a with
  | zero => exact hb.elim
  | succ n ih =>
      intro c hc
      rw [h a List.mem_cons_self] at hc
      refine ih (hb c hc) fun x hx => h x ?_
      exact List.mem_cons_of_mem _ (List.mem_flatMap.mpr ⟨c, hc, hx⟩)

/-- A record below `a` other than `a` is a child of something below `a`. -/
theorem Below.owner {a x : α} (h : Below kids a x) (hne : x ≠ a) :
    ∃ p, Below kids a p ∧ x ∈ kids p := by
  cases h with
  | refl => exact absurd rfl hne
  | tail hp hx => exact ⟨_, hp, hx⟩

section OneOwner

variable (hone : ∀ p q c, c ∈ kids p → c ∈ kids q → p = q)

include hone

/-- With one owner per record, two tops above the same record are one above the other. -/
theorem Below.comparable {a b x : α} (ha : Below kids a x) (hb : Below kids b x) :
    Below kids a b ∨ Below kids b a := by
  induction ha with
  | refl => exact Or.inr hb
  | @tail p c hp hc ih =>
      rcases Relation.ReflTransGen.cases_tail hb with rfl | ⟨q, hq, hcq⟩
      · exact Or.inl (hp.tail hc)
      · exact ih (hone p q c hc hcq ▸ hq)

/-- A child that lies above another child of the same record lies above the record. -/
theorem Below.of_sibling {p c d : α} (hd : d ∈ kids p) (hcd : Below kids c d)
    (hne : c ≠ d) : Below kids c p := by
  obtain ⟨q, hq, hdq⟩ := hcd.owner (Ne.symm hne)
  exact hone p q d hd hdq ▸ hq

/-- **No record is listed twice** when each has one owner, no list of children repeats, and
nothing below the top owns the top. -/
theorem nodup_preorder (hnd : ∀ p, (kids p).Nodup) {n : ℕ} {a : α}
    (htop : ∀ p, Below kids a p → a ∉ kids p) : (preorder kids n a).Nodup := by
  induction n generalizing a with
  | zero => exact List.nodup_nil
  | succ n ih =>
      -- the top is not below any of its children
      have hup : ∀ c ∈ kids a, ¬ Below kids c a := by
        intro c hc hca
        have hne : a ≠ c := by
          rintro rfl
          exact htop a .refl hc
        obtain ⟨p, hp, hap⟩ := hca.owner hne
        exact htop p (.head hc hp) hap
      refine List.nodup_cons.mpr ⟨fun hmem => ?_, List.nodup_flatMap.mpr ⟨fun c hc => ?_, ?_⟩⟩
      · obtain ⟨c, hc, hac⟩ := List.mem_flatMap.mp hmem
        exact hup c hc (below_of_mem_preorder hac)
      · exact ih fun p hp hcp => hup c hc (hone a p c hc hcp ▸ hp)
      · refine (hnd a).imp_of_mem fun {c d} hc hd hcd x hxc hxd => ?_
        -- a record below two children: one child is above the other, so above the top
        rcases Below.comparable hone (below_of_mem_preorder hxc)
          (below_of_mem_preorder hxd) with h | h
        · exact hup c hc (Below.of_sibling hone hd h hcd)
        · exact hup d hd (Below.of_sibling hone hc h (Ne.symm hcd))

end OneOwner

/-- A path of children read upwards: `IsPath kids a l` lists a walk down from `a`, the last
record reached first. -/
inductive IsPath (kids : α → List α) (a : α) : List α → Prop
  | single : IsPath kids a [a]
  | cons {x c : α} {l : List α} : c ∈ kids x → IsPath kids a (x :: l) →
      IsPath kids a (c :: x :: l)

/-- Everything on a path is below its start. -/
theorem IsPath.mem_below {a : α} {l : List α} (h : IsPath kids a l) :
    ∀ x ∈ l, Below kids a x := by
  induction h with
  | single =>
      intro x hx
      rw [List.mem_singleton.mp hx]
  | @cons x c l hc _ ih =>
      intro y hy
      rcases List.mem_cons.mp hy with rfl | hy
      · exact (ih x List.mem_cons_self).tail hc
      · exact ih y hy

/-- A record on a path is its start or a child of a record further up the path. -/
theorem IsPath.start_or_owned {a x : α} {l : List α} (h : IsPath kids a (x :: l)) :
    ∀ y ∈ x :: l, y = a ∨ ∃ z ∈ l, y ∈ kids z := by
  generalize hm : x :: l = m at h
  induction h generalizing x l with
  | single =>
      intro y hy
      exact Or.inl (List.mem_singleton.mp hy)
  | @cons z c l' hc _ ih =>
      obtain ⟨rfl, rfl⟩ := List.cons.inj hm
      intro y hy
      rcases List.mem_cons.mp hy with rfl | hy
      · exact Or.inr ⟨z, List.mem_cons_self, hc⟩
      · rcases ih rfl y hy with h | ⟨w, hw, hyw⟩
        · exact Or.inl h
        · exact Or.inr ⟨w, List.mem_cons_of_mem _ hw, hyw⟩

/-- **Finitely many records bound the depth** below a top that nothing below it owns. The
records on the way down never repeat, so the way down is no longer than their number. -/
theorem bounded_of_detached {L : List α} {a : α} {n : ℕ}
    (hone : ∀ p q c, c ∈ kids p → c ∈ kids q → p = q)
    (htop : ∀ p, Below kids a p → a ∉ kids p) (hfin : ∀ x, Below kids a x → x ∈ L)
    (hn : L.length ≤ n) : Bounded kids n a := by
  -- one more record on the path for each unit of depth used up
  suffices h : ∀ (k : ℕ) (x : α) (l : List α), IsPath kids a (x :: l) → (x :: l).Nodup →
      L.length + 1 ≤ k + (x :: l).length → Bounded kids k x from
    h n a [] .single (List.nodup_singleton a) (by simpa using hn)
  intro k
  induction k with
  | zero =>
      intro x l hp hnd hlen
      have hsub : (x :: l) ⊆ L := fun y hy => hfin y (hp.mem_below y hy)
      have hle : (x :: l).length ≤ L.length := (hnd.subperm hsub).length_le
      omega
  | succ k ih =>
      intro x l hp hnd hlen c hc
      have hx : Below kids a x := hp.mem_below x List.mem_cons_self
      have hfresh : c ∉ x :: l := by
        intro hmem
        rcases hp.start_or_owned c hmem with rfl | ⟨z, hz, hcz⟩
        · exact htop x hx hc
        · rw [hone z x c hcz hc] at hz
          exact (List.nodup_cons.mp hnd).1 hz
      refine ih c (x :: l) (.cons hc hp) (List.nodup_cons.mpr ⟨hfresh, hnd⟩) ?_
      simp only [List.length_cons] at hlen ⊢
      omega

end Kids

/-! ### Upwards -/

section Parent

variable {parent : α → Option α}

/-- Following the parent pointers from the record ends. -/
inductive Grounded (parent : α → Option α) : α → Prop
  | top {a : α} : parent a = none → Grounded parent a
  | up {a p : α} : parent a = some p → Grounded parent p → Grounded parent a

/-- `Above parent x a`: the chain of parents of `x` meets `a`. -/
abbrev Above (parent : α → Option α) : α → α → Prop :=
  Relation.ReflTransGen fun c p => parent c = some p

/-- A grounded record is not on a cycle of parents. -/
theorem Grounded.not_cycle {a p : α} (h : Grounded parent a) (hp : parent a = some p) :
    ¬ Above parent p a := by
  induction h generalizing p with
  | top hnone =>
      rw [hnone] at hp
      exact absurd hp (by simp)
  | @up a q hq _ ih =>
      obtain rfl : q = p := Option.some.inj (hq.symm.trans hp)
      intro hcyc
      rcases Relation.ReflTransGen.cases_head hcyc with rfl | ⟨r, hr, hra⟩
      · exact ih hq .refl
      · exact ih hr (hra.tail hq)

/-- Making records tops keeps chains finite. -/
theorem Grounded.restrict {parent' : α → Option α} {x : α}
    (hle : ∀ y, parent' y = none ∨ parent' y = parent y) (h : Grounded parent x) :
    Grounded parent' x := by
  induction h with
  | @top x hnone =>
      refine .top ?_
      rcases hle x with h | h
      · exact h
      · rw [h, hnone]
  | @up x p hp _ ih =>
      rcases hle x with h | h
      · exact .top h
      · exact .up (by rw [h, hp]) ih

/-- The top that the chain of parents ends at. -/
theorem Grounded.exists_top {x : α} (h : Grounded parent x) :
    ∃ r, Above parent x r ∧ parent r = none := by
  induction h with
  | @top x hnone => exact ⟨x, .refl, hnone⟩
  | @up x p hp _ ih =>
      obtain ⟨r, hr, hnone⟩ := ih
      exact ⟨r, .head hp hr, hnone⟩

variable [DecidableEq α]

/-- A chain of parents that avoids `a` does not see a change of the parent of `a`. -/
theorem Grounded.update_of_not_above {a x : α} {v : Option α} (h : Grounded parent x)
    (hx : ¬ Above parent x a) : Grounded (Function.update parent a v) x := by
  induction h with
  | @top x hnone =>
      have hne : x ≠ a := fun h => hx (h ▸ .refl)
      exact .top (by rw [Function.update_of_ne hne, hnone])
  | @up x p hp _ ih =>
      have hne : x ≠ a := fun h => hx (h ▸ .refl)
      exact .up (by rw [Function.update_of_ne hne, hp]) (ih fun h => hx (.head hp h))

/-- **Re-parenting keeps chains finite**: a record may take any parent that is not below
it. -/
theorem Grounded.reparent {a p : α} (h : ∀ x, Grounded parent x) (hp : ¬ Above parent p a)
    (x : α) : Grounded (Function.update parent a (some p)) x := by
  have hgp : Grounded (Function.update parent a (some p)) p := (h p).update_of_not_above hp
  induction h x with
  | @top x hnone =>
      by_cases hx : x = a
      · subst hx
        exact .up (Function.update_self ..) hgp
      · exact .top (by rw [Function.update_of_ne hx, hnone])
  | @up x q hq _ ih =>
      by_cases hx : x = a
      · subst hx
        exact .up (Function.update_self ..) hgp
      · exact .up (by rw [Function.update_of_ne hx, hq]) ih

/-- A chain up to `a` does not see a change of the parent of `a`. -/
theorem Above.update {a x : α} {v : Option α} (h : Above parent x a) :
    Above (Function.update parent a v) x a := by
  induction h using Relation.ReflTransGen.head_induction_on with
  | refl => exact .refl
  | @head x y hxy _ ih =>
      by_cases hxa : x = a
      · rw [hxa]
      · exact .head (by rw [Function.update_of_ne hxa, hxy]) ih

/-- **A record under a record below it** is on a cycle, and the chain of its parents never
ends. -/
theorem Above.endless {a p r : α} (hp : Above parent p a)
    (hr : Above (Function.update parent a (some p)) a r) :
    Function.update parent a (some p) r ≠ none := by
  have hpa : Above (Function.update parent a (some p)) p a := hp.update
  have hcyc : Above (Function.update parent a (some p)) r a := by
    induction hr with
    | refl => exact .refl
    | @tail b c _ hbc ih =>
        rcases Relation.ReflTransGen.cases_head ih with rfl | ⟨d, hd, hda⟩
        · rw [Function.update_self] at hbc
          exact Option.some.inj hbc ▸ hpa
        · exact Option.some.inj (hd.symm.trans hbc) ▸ hda
  rcases Relation.ReflTransGen.cases_head hcyc with rfl | ⟨d, hd, -⟩
  · simp
  · rw [hd]
    simp

/-- Making a record a top keeps chains finite. -/
theorem Grounded.detach {a x : α} (h : Grounded parent x) :
    Grounded (Function.update parent a none) x := by
  refine h.restrict fun y => ?_
  by_cases hy : y = a
  · subst hy
    exact Or.inl (Function.update_self ..)
  · exact Or.inr (Function.update_of_ne hy ..)

end Parent

end PointerForest
