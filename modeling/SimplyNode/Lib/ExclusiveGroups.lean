import Mathlib.Data.Set.Basic

/-!
# Groups of Which One Element is Selected

Elements that are linked in groups: a relation that is symmetric, and transitive but for an element
and itself. Of a group at most one element is selected. Linking all of a set joins groups; the
result are groups again unless the set has a part of a group together with an element of another.

## Main results

* `groups_join_iff`: when linking a set makes groups of groups.
* `Exclusive.join`: a set of which one element is selected.
-/

namespace ExclusiveGroups

universe u

variable {α : Type u} {R : α → α → Prop} {G S : Set α}

/-- Elements that are linked in groups. -/
structure Groups (R : α → α → Prop) : Prop where
  symm : ∀ {a b}, R a b → R b a
  trans : ∀ {a b c}, R a b → R b c → a ≠ c → R a c

/-- The links of a relation, and those of all the elements of a set. -/
def join (R : α → α → Prop) (G : Set α) (a b : α) : Prop := R a b ∨ a ∈ G ∧ b ∈ G ∧ a ≠ b

/-- What is linked with an element of the set is in it, or linked with all of it. -/
def Joinable (R : α → α → Prop) (G : Set α) : Prop :=
  ∀ x ∈ G, ∀ y, R x y → y ∈ G ∨ ∀ g ∈ G, g = y ∨ R g y

/-- No two elements of a group are selected. -/
def Exclusive (R : α → α → Prop) (S : Set α) : Prop := ∀ a b, R a b → a ∈ S → b ∉ S

/-- **Joining**: the groups that a set joins are groups exactly when nothing is cut off. -/
theorem groups_join_iff (h : Groups R) : Groups (join R G) ↔ Joinable R G := by
  refine ⟨fun hjoin x hx y hxy => ?_, fun hG => ⟨?_, ?_⟩⟩
  · by_cases hy : y ∈ G
    · exact Or.inl hy
    refine Or.inr fun g hg => Or.inr ?_
    by_cases hgx : g = x
    · exact hgx ▸ hxy
    have hgy : g ≠ y := fun heq => hy (heq ▸ hg)
    rcases hjoin.trans (Or.inr ⟨hg, hx, hgx⟩) (Or.inl hxy) hgy with hold | ⟨-, hmem, -⟩
    · exact hold
    · exact absurd hmem hy
  · rintro a b (hab | ⟨ha, hb, hne⟩)
    · exact Or.inl (h.symm hab)
    · exact Or.inr ⟨hb, ha, hne.symm⟩
  · rintro a b c (hab | ⟨ha, hb, -⟩) (hbc | ⟨hb', hc, -⟩) hne
    · exact Or.inl (h.trans hab hbc hne)
    · rcases hG b hb' a (h.symm hab) with ha | hall
      · exact Or.inr ⟨ha, hc, hne⟩
      · exact Or.inl (h.symm ((hall c hc).resolve_left hne.symm))
    · rcases hG b hb c hbc with hc | hall
      · exact Or.inr ⟨ha, hc, hne⟩
      · exact Or.inl ((hall a ha).resolve_left hne)
    · exact Or.inr ⟨ha, hc, hne⟩

/-- A set with all that is linked with its elements is joinable. -/
theorem joinable_of_closed (h : ∀ x ∈ G, ∀ y, R x y → y ∈ G) : Joinable R G :=
  fun x hx y hxy => Or.inl (h x hx y hxy)

/-- Fewer elements are selected. -/
theorem Exclusive.mono (h : Exclusive R S) {S' : Set α} (hsub : S' ⊆ S) : Exclusive R S' :=
  fun a b hab ha hb => h a b hab (hsub ha) (hsub hb)

/-- Of a joined set one element is selected. -/
theorem Exclusive.join (h : Exclusive R S)
    (hG : ∀ a ∈ G, ∀ b ∈ G, a ≠ b → a ∈ S → b ∉ S) : Exclusive (join R G) S := by
  rintro a b (hab | ⟨ha, hb, hne⟩)
  · exact h a b hab
  · exact hG a ha b hb hne

/-- **Selecting**: an element is selected and those that are linked with it are not. -/
theorem Exclusive.insert (h : Groups R) (hS : Exclusive R S) {a : α}
    (ha : ∀ b, R a b → b ∉ S) (hirrefl : ¬ R a a) : Exclusive R (insert a S) := by
  rintro x y hxy (rfl | hx) (rfl | hy)
  · exact hirrefl hxy
  · exact ha y hxy hy
  · exact ha x (h.symm hxy) hx
  · exact hS x y hxy hx hy

end ExclusiveGroups
