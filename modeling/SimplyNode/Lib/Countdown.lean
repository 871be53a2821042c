import Mathlib.Data.List.Nodup
import Mathlib.Data.Set.Finite.List
import Mathlib.Order.WellFoundedSet

/-!
# Counting Down Dependencies

Items depend on each other, and each waits for those it depends on. A counter holds how many of
these are not done, `pending`; it goes down when one of them is done, and at 0 the item is ready.
When the relation has no cycle, some item is ready as long as one is not done.

## Main results

* `pending_finish`: the counter when one more item is done.
* `exists_ready`: **there is progress** where no item depends on itself.
-/

namespace Countdown

universe u

variable {V : Type u}

/-- How many of some items are not done. -/
def pending (done : V → Bool) (items : List V) : ℕ := items.countP fun a => !done a

/-- There is no more to be counted than there are items. -/
theorem pending_le (done : V → Bool) (items : List V) : pending done items ≤ items.length :=
  List.countP_le_length

/-- Nothing is left exactly if all are done. -/
theorem pending_eq_zero {done : V → Bool} {items : List V} :
    pending done items = 0 ↔ ∀ a ∈ items, done a = true := by
  rw [pending, List.countP_eq_zero]
  simp

/-- Nothing is done yet. -/
theorem pending_of_none {done : V → Bool} {items : List V} (h : ∀ a ∈ items, done a = false) :
    pending done items = items.length := by
  rw [pending, List.countP_eq_length]
  intro a ha
  rw [h a ha]
  rfl

/-- The count depends on the items only. -/
theorem pending_congr {done done' : V → Bool} {items : List V}
    (h : ∀ a ∈ items, done a = done' a) : pending done items = pending done' items := by
  refine List.countP_congr fun a ha => ?_
  rw [h a ha]

/-- An item that is not done is waited for. -/
theorem pending_pos {done : V → Bool} {items : List V} {a : V} (ha : a ∈ items)
    (hdone : done a = false) : 0 < pending done items := by
  refine List.countP_pos_iff.mpr ⟨a, ha, ?_⟩
  rw [hdone]
  rfl

/-- **One more item is done.** -/
theorem pending_finish [DecidableEq V] {done done' : V → Bool} {items : List V} {a : V}
    (hnodup : items.Nodup) (hdone : done a = false)
    (hdone' : ∀ b, done' b = (done b || decide (b = a))) :
    pending done' items + (if a ∈ items then 1 else 0) = pending done items := by
  induction items with
  | nil => rfl
  | cons b items ih =>
      obtain ⟨hb, hitems⟩ := List.nodup_cons.mp hnodup
      have ih := ih hitems
      rw [pending, pending, List.countP_cons, List.countP_cons, ← pending, ← pending, hdone' b]
      by_cases hba : b = a
      · subst hba
        rw [if_neg hb] at ih
        rw [if_pos List.mem_cons_self, hdone]
        simp only [decide_true, Bool.or_true, Bool.not_true, Bool.not_false, if_true]
        simp only [Bool.false_eq_true, if_false]
        omega
      · have hmem : a ∈ b :: items ↔ a ∈ items := by
          rw [List.mem_cons]
          exact ⟨fun h => h.resolve_left (Ne.symm hba), Or.inr⟩
        simp only [decide_eq_false hba, Bool.or_false, hmem]
        omega

/-- Some more items are done. -/
theorem pending_finish_all [DecidableEq V] {done done' : V → Bool} {items new : List V}
    (hnodup : items.Nodup) (hnew : new.Nodup) (hsub : ∀ a ∈ new, a ∈ items)
    (hdone : ∀ a ∈ new, done a = false)
    (hdone' : ∀ b, done' b = (done b || decide (b ∈ new))) :
    pending done' items + new.length = pending done items := by
  induction new generalizing done with
  | nil =>
      refine pending_congr fun b _ => ?_
      rw [hdone', decide_eq_false List.not_mem_nil, Bool.or_false]
  | cons a new ih =>
      obtain ⟨ha, hnew⟩ := List.nodup_cons.mp hnew
      -- the first of them, and then the others
      have hfirst := @pending_finish _ _ _ (fun b => done b || decide (b = a)) _ _ hnodup
        (hdone a List.mem_cons_self) fun b => rfl
      rw [if_pos (hsub a List.mem_cons_self)] at hfirst
      have hothers := @ih (fun b => done b || decide (b = a)) hnew
        (fun b hb => hsub b (List.mem_cons_of_mem a hb)) ?_ ?_
      · rw [List.length_cons]
        omega
      · intro b hb
        rw [hdone b (List.mem_cons_of_mem a hb), Bool.false_or]
        exact decide_eq_false fun hba => ha (hba ▸ hb)
      · intro b
        rw [hdone', Bool.or_assoc, ← Bool.decide_or]
        exact congrArg _ (decide_eq_decide.mpr List.mem_cons)

/-- The relation of being depended on has no cycle. -/
def Acyclic (dependencies : V → List V) : Prop :=
  ∀ a, ¬Relation.TransGen (fun a b => a ∈ dependencies b) a a

/-- **There is progress.** Where nothing depends on itself, some item waits for nothing. -/
theorem exists_ready {dependencies : V → List V} (h : Acyclic dependencies) {done : V → Bool}
    {items : List V} (hclosed : ∀ b ∈ items, ∀ a ∈ dependencies b, a ∈ items) {b : V}
    (hb : b ∈ items) (hdone : done b = false) :
    ∃ c ∈ items, done c = false ∧ pending done (dependencies c) = 0 := by
  -- among the items that are not done, one depends on no other
  let waits : Set V := {c | c ∈ items ∧ done c = false}
  have hfinite : waits.Finite := (List.finite_toSet items).subset fun c hc => hc.1
  let before : V → V → Prop := Relation.TransGen fun a b => a ∈ dependencies b
  have hstrict : IsStrictOrder V before :=
    { irrefl := h
      trans := fun _ _ _ => Relation.TransGen.trans }
  have hwf : waits.WellFoundedOn before := hfinite.wellFoundedOn
  obtain ⟨⟨c, hc⟩, -, hmin⟩ := WellFounded.has_min hwf Set.univ ⟨⟨b, hb, hdone⟩, trivial⟩
  refine ⟨c, hc.1, hc.2, pending_eq_zero.mpr fun a ha => ?_⟩
  by_contra hnot
  have hwaits : a ∈ waits := ⟨hclosed c hc.1 a ha, Bool.eq_false_iff.mpr hnot⟩
  exact hmin ⟨a, hwaits⟩ trivial (Relation.TransGen.single ha)

end Countdown
