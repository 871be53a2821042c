import Mathlib.Data.List.Pairwise
import SimplyNode.Lib.PointerForest

/-!
# The Frontier of a Walk

A walk that comes back to a record after the records below it keeps a list of the records that it
has still to come to on its own account: its **frontier**. Everything below a record of the frontier
is still to be walked. Going into a record replaces it by the records right below it; the record
itself is then neither to be walked again nor done.

Chains of parents are given by a function `parent : α → Option α`, which may change while the walk
is going on: a record gets another parent, or some records become tops.

## Main results

* `covered_enter_iff`, `Apart.enter`: going into the first record of the frontier.
* `covered_reparent_iff`, `Apart.reparent`: a record whose old and new parent are both still to be
  walked, or both not, may be re-parented.
-/

open PointerForest

namespace Frontier

universe u

variable {α : Type u}

/-- The record is at or below a record of the list. -/
def Covered (parent : α → Option α) (l : List α) (x : α) : Prop := ∃ c ∈ l, Above parent x c

/-- No record of the list is above another one. -/
def Apart (parent : α → Option α) (l : List α) : Prop :=
  l.Pairwise fun c d => ¬ Above parent c d ∧ ¬ Above parent d c

variable {parent parent' : α → Option α} {l ks : List α} {a c d x y : α} {v : Option α}

/-! ### Chains of parents -/

/-- Two records above the same record are one above the other. -/
theorem above_comparable (hc : Above parent x c) (hd : Above parent x d) :
    Above parent c d ∨ Above parent d c := by
  induction hc with
  | refl => exact Or.inl hd
  | @tail y c _ hyc ih =>
      rcases ih with h | h
      · rcases Relation.ReflTransGen.cases_head h with rfl | ⟨z, hz, hzd⟩
        · exact Or.inr (.single hyc)
        · obtain rfl : z = c := Option.some.inj (hz.symm.trans hyc)
          exact Or.inl hzd
      · exact Or.inr (h.tail hyc)

/-- A chain that does not grow. -/
theorem above_of_restrict (hle : ∀ y, parent' y = none ∨ parent' y = parent y)
    (h : Above parent' x c) : Above parent x c := by
  induction h with
  | refl => exact .refl
  | @tail y c _ hyc ih =>
      refine ih.tail ?_
      rcases hle y with h | h
      · rw [h] at hyc
        exact absurd hyc (by simp)
      · rw [← h, hyc]

/-! ### What the list covers -/

theorem covered_cons : Covered parent (c :: l) x ↔ Above parent x c ∨ Covered parent l x := by
  simp [Covered]

theorem Covered.of_mem (h : c ∈ l) : Covered parent l c := ⟨c, h, .refl⟩

/-- What is below a covered record is covered. -/
theorem Covered.below (h : Covered parent l y) (hx : Above parent x y) : Covered parent l x := by
  obtain ⟨c, hc, hyc⟩ := h
  exact ⟨c, hc, hx.trans hyc⟩

theorem Covered.mono (h : Covered parent l x) (hsub : l ⊆ ks) : Covered parent ks x := by
  obtain ⟨c, hc, hxc⟩ := h
  exact ⟨c, hsub hc, hxc⟩

/-- The first record of a list that is apart is not covered by the others. -/
theorem Apart.head_not_covered (h : Apart parent (c :: l)) : ¬ Covered parent l c := by
  rintro ⟨d, hd, hcd⟩
  exact ((List.pairwise_cons.mp h).1 d hd).1 hcd

theorem Apart.tail (h : Apart parent (c :: l)) : Apart parent l :=
  (List.pairwise_cons.mp h).2

/-- A record of the list is not below another one. -/
theorem Apart.eq_of_above (h : Apart parent l) (hc : c ∈ l) (hd : d ∈ l)
    (hcd : Above parent c d) : c = d := by
  by_contra hne
  have : Std.Symm fun c d => ¬ Above parent c d ∧ ¬ Above parent d c :=
    ⟨fun _ _ h => ⟨h.2, h.1⟩⟩
  exact (List.Pairwise.forall h hc hd hne).1 hcd

/-! ### Going into the first record -/

section Enter

variable (hks : ∀ d, d ∈ ks ↔ parent d = some c)

include hks

/-- **Going into a record** takes the record itself out of what is to be walked, and nothing
else. -/
theorem covered_enter_iff (hg : Grounded parent c) (h : Apart parent (c :: l)) :
    Covered parent (ks ++ l) x ↔ Covered parent (c :: l) x ∧ x ≠ c := by
  constructor
  · rintro ⟨d, hd, hxd⟩
    rcases List.mem_append.mp hd with hd | hd
    · have hdc := (hks d).mp hd
      refine ⟨covered_cons.mpr (Or.inl (hxd.tail hdc)), ?_⟩
      rintro rfl
      rcases Relation.ReflTransGen.cases_head hxd with rfl | ⟨p, hp, hpd⟩
      · exact hg.not_cycle hdc .refl
      · exact hg.not_cycle hp (hpd.tail hdc)
    · refine ⟨covered_cons.mpr (Or.inr ⟨d, hd, hxd⟩), ?_⟩
      rintro rfl
      exact h.head_not_covered ⟨d, hd, hxd⟩
  · rintro ⟨hx, hne⟩
    rcases covered_cons.mp hx with hxc | ⟨d, hd, hxd⟩
    · rcases Relation.ReflTransGen.cases_tail hxc with rfl | ⟨d, hxd, hdc⟩
      · exact absurd rfl hne
      · exact ⟨d, List.mem_append_left _ ((hks d).mpr hdc), hxd⟩
    · exact ⟨d, List.mem_append_right _ hd, hxd⟩

/-- The records right below a record are apart, and apart from the rest. -/
theorem Apart.enter (hg : ∀ y, Grounded parent y) (h : Apart parent (c :: l)) (hnd : ks.Nodup) :
    Apart parent (ks ++ l) := by
  -- a record right below `c` is not above another one: it would be above `c`
  have hsib : ∀ d ∈ ks, ∀ e ∈ ks, d ≠ e → ¬ Above parent d e := by
    intro d hd e he hne hde
    rcases Relation.ReflTransGen.cases_head hde with heq | ⟨p, hp, hpe⟩
    · exact hne heq
    · obtain rfl : p = c := Option.some.inj (hp.symm.trans ((hks d).mp hd))
      exact (hg e).not_cycle ((hks e).mp he) hpe
  refine List.pairwise_append.mpr ⟨?_, h.tail, ?_⟩
  · exact hnd.imp_of_mem fun {d e} hd he hne => ⟨hsib d hd e he hne, hsib e he d hd (Ne.symm hne)⟩
  · intro d hd e he
    obtain ⟨hce, hec⟩ := (List.pairwise_cons.mp h).1 e he
    have hdc := (hks d).mp hd
    constructor
    · intro hde
      rcases Relation.ReflTransGen.cases_head hde with rfl | ⟨p, hp, hpe⟩
      · exact hec (.single hdc)
      · obtain rfl : p = c := Option.some.inj (hp.symm.trans hdc)
        exact hce hpe
    · intro hed
      exact hec (hed.tail hdc)

end Enter

/-! ### Changes of the tree -/

/-- Fewer parents leave the list apart. -/
theorem Apart.restrict (h : Apart parent l)
    (hle : ∀ y, parent' y = none ∨ parent' y = parent y) : Apart parent' l :=
  h.imp fun hcd =>
    ⟨fun h' => hcd.1 (above_of_restrict hle h'), fun h' => hcd.2 (above_of_restrict hle h')⟩

/-- A chain that meets a record leads on from its parent. -/
theorem above_iff_of_above (hx : Above parent x a) : Above parent x c ↔
    (Above parent x c ∧ Above parent c a) ∨ ∃ q, parent a = some q ∧ Above parent q c := by
  constructor
  · intro hxc
    rcases above_comparable hxc hx with h | h
    · exact Or.inl ⟨hxc, h⟩
    · rcases Relation.ReflTransGen.cases_head h with rfl | ⟨q, hq, hqc⟩
      · exact Or.inl ⟨hxc, .refl⟩
      · exact Or.inr ⟨q, hq, hqc⟩
  · rintro (⟨hxc, -⟩ | ⟨q, hq, hqc⟩)
    · exact hxc
    · exact (hx.tail hq).trans hqc

section Reparent

variable [DecidableEq α]

/-- A chain that does not meet the record does not see its new parent. -/
theorem above_update_iff (hx : ¬ Above parent x a) :
    Above (Function.update parent a v) x c ↔ Above parent x c := by
  have hne : ∀ {y}, Above parent x y → y ≠ a := by
    rintro y hy rfl
    exact hx hy
  constructor
  · intro h
    induction h with
    | refl => exact .refl
    | @tail y c _ hyc ih =>
        rw [Function.update_of_ne (hne ih)] at hyc
        exact ih.tail hyc
  · intro h
    induction h with
    | refl => exact .refl
    | @tail y c hy hyc ih => exact ih.tail (by rw [Function.update_of_ne (hne hy), hyc])

/-- What the list covers away from the record stays. -/
theorem covered_update_iff (hx : ¬ Above parent x a) :
    Covered (Function.update parent a v) l x ↔ Covered parent l x := by
  simp only [Covered, above_update_iff hx]

/-- The chains up to the record are the same. -/
theorem above_update_top : Above (Function.update parent a v) x a ↔ Above parent x a := by
  refine ⟨fun h => ?_, Above.update⟩
  have h' : Above (Function.update (Function.update parent a v) a (parent a)) x a := h.update
  rwa [Function.update_idem, Function.update_eq_self] at h'

variable (hg : ∀ y, Grounded parent y) (hv : ∀ p, v = some p → ¬ Above parent p a)

include hg hv

/-- Between two records of a chain up to the re-parented one nothing changes. -/
theorem above_update_between (hc : Above parent c a) :
    Above (Function.update parent a v) x c ↔ Above parent x c := by
  constructor
  · intro h
    induction h with
    | refl => exact .refl
    | @tail y c hxy hyc ih =>
        obtain rfl | hya := eq_or_ne y a
        · rw [Function.update_self] at hyc
          exact absurd hc (hv c hyc)
        · rw [Function.update_of_ne hya] at hyc
          exact (ih (.head hyc hc)).tail hyc
  · intro h
    induction h with
    | refl => exact .refl
    | @tail y c hxy hyc ih =>
        obtain rfl | hya := eq_or_ne y a
        · exact absurd hc ((hg y).not_cycle hyc)
        · exact (ih (.head hyc hc)).tail (by rw [Function.update_of_ne hya, hyc])

/-- A chain that meets the re-parented record leads on from the new parent. -/
theorem above_update_of_above (hx : Above parent x a) :
    Above (Function.update parent a v) x c ↔
      (Above parent x c ∧ Above parent c a) ∨ ∃ p, v = some p ∧ Above parent p c := by
  rw [above_iff_of_above (above_update_top.mpr hx), Function.update_self, above_update_top]
  refine or_congr (and_congr_left fun hc => above_update_between hg hv hc) ?_
  exact exists_congr fun p => and_congr_right fun hp => above_update_iff (hv p hp)

/-- **A record may be re-parented** if its old and its new parent are both still to be walked, or
both not: the list covers what it covered before. -/
theorem covered_reparent_iff
    (hstay : (∃ q, parent a = some q ∧ Covered parent l q) ↔ ∃ p, v = some p ∧ Covered parent l p) :
    Covered (Function.update parent a v) l x ↔ Covered parent l x := by
  by_cases hx : Above parent x a
  · have hsplit : ∀ u : Option α,
        (∃ c ∈ l, (Above parent x c ∧ Above parent c a) ∨ ∃ p, u = some p ∧ Above parent p c) ↔
        (∃ c ∈ l, Above parent x c ∧ Above parent c a) ∨
          ∃ p, u = some p ∧ Covered parent l p := by
      intro u
      constructor
      · rintro ⟨c, hc, h | ⟨p, hp, hpc⟩⟩
        · exact Or.inl ⟨c, hc, h⟩
        · exact Or.inr ⟨p, hp, c, hc, hpc⟩
      · rintro (⟨c, hc, h⟩ | ⟨p, hp, c, hc, hpc⟩)
        · exact ⟨c, hc, Or.inl h⟩
        · exact ⟨c, hc, Or.inr ⟨p, hp, hpc⟩⟩
    have hnew : Covered (Function.update parent a v) l x ↔ ∃ c ∈ l,
        (Above parent x c ∧ Above parent c a) ∨ ∃ p, v = some p ∧ Above parent p c :=
      exists_congr fun c => and_congr_right fun _ => above_update_of_above hg hv hx
    have hold : Covered parent l x ↔ ∃ c ∈ l,
        (Above parent x c ∧ Above parent c a) ∨ ∃ q, parent a = some q ∧ Above parent q c :=
      exists_congr fun c => and_congr_right fun _ => above_iff_of_above hx
    rw [hnew, hold, hsplit, hsplit, hstay]
  · exact covered_update_iff hx

/-- The frontier stays apart then. -/
theorem Apart.reparent (h : Apart parent l)
    (hstay : (∃ q, parent a = some q ∧ Covered parent l q) ↔ ∃ p, v = some p ∧ Covered parent l p) :
    Apart (Function.update parent a v) l := by
  have hnot : ∀ c ∈ l, ∀ d ∈ l, ¬ Above parent c d → ¬ Above (Function.update parent a v) c d := by
    intro c hc d hd hcd h'
    by_cases hca : Above parent c a
    · rcases (above_update_of_above hg hv hca).mp h' with ⟨hcd', -⟩ | ⟨p, hp, hpd⟩
      · exact hcd hcd'
      · -- then the old parent is below a record of the list, and so is `c`
        obtain ⟨q, hq, e, he, hqe⟩ := hstay.mpr ⟨p, hp, d, hd, hpd⟩
        obtain rfl := h.eq_of_above hc he ((hca.tail hq).trans hqe)
        exact (hg a).not_cycle hq (hqe.trans hca)
    · exact hcd ((above_update_iff hca).mp h')
  exact h.imp_of_mem fun hc hd hcd => ⟨hnot _ hc _ hd hcd.1, hnot _ hd _ hc hcd.2⟩

omit hg hv in
/-- A record with nothing of the frontier below it may go anywhere. -/
theorem Apart.reparent_free (h : Apart parent l) (hfree : ∀ c ∈ l, ¬ Above parent c a) :
    Apart (Function.update parent a v) l :=
  h.imp_of_mem fun hc hd hcd =>
    ⟨fun h' => hcd.1 ((above_update_iff (hfree _ hc)).mp h'),
      fun h' => hcd.2 ((above_update_iff (hfree _ hd)).mp h')⟩

end Reparent

end Frontier
