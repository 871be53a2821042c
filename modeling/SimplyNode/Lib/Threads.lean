import Mathlib.Algebra.GroupWithZero.Nat
import Mathlib.Data.List.Nodup

/-!
# Lists of Threads

A system of threads keeps where each of them is in a list, and one step of one thread sets one
entry of the list. The facts here are about counting the threads that are at some place.

## Main results

* `countP_set_add` and `count_set_add`: the count after a step of one thread.
* `sum_map_set_add`: a total over all threads after a step of one.
* `forall_set`: what a step of one thread keeps of all of them.
-/

namespace Threads

universe u

variable {α : Type u} {l : List α} {i : ℕ} {a b : α} {p : α → Bool}

/-- **Counting after a step.** One thread leaves the place `a` for `b`. -/
theorem countP_set_add (h : l[i]? = some a) :
    (l.set i b).countP p + (if p a then 1 else 0) =
      l.countP p + (if p b then 1 else 0) := by
  obtain ⟨hi, ha⟩ := List.getElem?_eq_some_iff.mp h
  have hpos : (if p a then 1 else 0) ≤ l.countP p := by
    split
    · exact List.countP_pos_iff.mpr ⟨a, List.mem_of_getElem? h, ‹_›⟩
    · exact Nat.zero_le _
  rw [List.countP_set hi, ha]
  omega

/-- Counting one place after a step. -/
theorem count_set_add [DecidableEq α] {c : α} (h : l[i]? = some a) :
    (l.set i b).count c + (if a = c then 1 else 0) =
      l.count c + (if b = c then 1 else 0) := by
  simpa [List.count] using countP_set_add (p := (· == c)) (b := b) h

/-- A total over all threads after a step. -/
theorem sum_map_set_add {f : α → ℕ} (h : l[i]? = some a) :
    ((l.set i b).map f).sum + f a = (l.map f).sum + f b := by
  induction l generalizing i with
  | nil => exact absurd h (by simp)
  | cons c l ih =>
      cases i with
      | zero =>
          obtain rfl := Option.some.inj h
          simp only [List.set_cons_zero, List.map_cons, List.sum_cons]
          omega
      | succ i =>
          have := ih (i := i) h
          simp only [List.set_cons_succ, List.map_cons, List.sum_cons]
          omega

/-- A total is 0 exactly when every thread adds 0 to it. -/
theorem sum_map_eq_zero {f : α → ℕ} : (l.map f).sum = 0 ↔ ∀ x ∈ l, f x = 0 := by
  rw [List.sum_eq_zero_iff_forall_eq_nat]
  simp

/-- Counting when a thread is gone. -/
theorem countP_eraseIdx_add (h : l[i]? = some a) :
    (l.eraseIdx i).countP p + (if p a then 1 else 0) = l.countP p := by
  obtain ⟨hi, rfl⟩ := List.getElem?_eq_some_iff.mp h
  have hsplit : l.countP p = (l.take i).countP p + (l.drop i).countP p := by
    rw [← List.countP_append, List.take_append_drop]
  rw [hsplit, List.eraseIdx_eq_take_drop_succ, List.countP_append, List.drop_eq_getElem_cons hi,
    List.countP_cons]
  omega

/-- A step that stays where it is. -/
theorem set_self (h : l[i]? = some a) : l.set i a = l := by
  obtain ⟨hi, rfl⟩ := List.getElem?_eq_some_iff.mp h
  exact List.set_getElem_self hi

/-- Where a thread is after a step. -/
theorem mem_set {x : α} (hx : x ∈ l.set i b) : x = b ∨ x ∈ l :=
  (List.mem_or_eq_of_mem_set hx).symm

/-- What holds of the place that one thread takes and of the places of all of them holds of
all of them after the step. -/
theorem forall_set {q : α → Prop} (hl : ∀ x ∈ l, q x) (hb : q b) : ∀ x ∈ l.set i b, q x := by
  intro x hx
  rcases mem_set hx with rfl | hx
  · exact hb
  · exact hl x hx

/-- The thread that takes a step is at its new place. -/
theorem mem_set_self (h : l[i]? = some a) : b ∈ l.set i b :=
  List.mem_set (List.getElem?_eq_some_iff.mp h).1 b

/-- In a list without repetitions the entry that is taken out is gone. -/
theorem ne_of_mem_eraseIdx {x : α} (hl : l.Nodup) (h : l[i]? = some a)
    (hx : x ∈ l.eraseIdx i) : x ≠ a := by
  obtain ⟨hi, rfl⟩ := List.getElem?_eq_some_iff.mp h
  obtain ⟨m, hm, hne, rfl⟩ := List.mem_eraseIdx_iff_getElem.mp hx
  exact fun heq => hne ((List.Nodup.getElem_inj_iff hl).mp heq)

end Threads
