import Mathlib.Data.Int.Init
import Mathlib.Data.List.Nodup

/-!
# The Numbers of the Elements of a Changing List

Numbers that refer to the elements of a list, with the negative ones for none. When elements are
inserted or removed, those that are kept get other numbers. A number that is changed with its
element refers to the same element, and where the element is removed to none.

## Main results

* `Renumbers.insert`, `Renumbers.remove`: the numbers behind an inserted and a removed part.
* `Renumbers.kept_eq`: what is kept is what the list still has.
* `Renumbers.elementAt_move`: a number follows its element.
-/

namespace Renumbering

universe u

variable {α : Type u}

/-- The element with a number, if there is one. -/
def elementAt (l : List α) (n : ℤ) : Option α := if n < 0 then none else l[n.toNat]?

/-- The elements of a list that are kept in another have the numbers that `ρ` gives. -/
structure Renumbers (l l' : List α) (kept : ℤ → Bool) (ρ : ℤ → ℤ) : Prop where
  none : ∀ n, n < 0 → kept n = true ∧ ρ n = n
  element : ∀ n, kept n = true → elementAt l' (ρ n) = elementAt l n
  gone : ∀ n, kept n = false → ∃ x, elementAt l n = some x ∧ x ∉ l'

/-- The new number of an element, -1 if it has been removed. -/
def move (kept : ℤ → Bool) (ρ : ℤ → ℤ) (n : ℤ) : ℤ := if kept n then ρ n else -1

/-! ### Elements -/

variable {l l' : List α} {n m : ℤ} {x : α}

/-- There is no element in front of the list. -/
theorem elementAt_none (l : List α) (h : n < 0) : elementAt l n = none := if_pos h

/-- An index that is a natural number. -/
theorem elementAt_natCast (l : List α) (i : ℕ) : elementAt l i = l[i]? := by
  rw [elementAt, if_neg (by omega), Int.toNat_natCast]

/-- Where there is an element, the index is in range. -/
theorem bounds_of_elementAt (h : elementAt l n = some x) : 0 ≤ n ∧ n < l.length := by
  rw [elementAt] at h
  split at h
  · cases h
  · obtain ⟨hlt, -⟩ := List.getElem?_eq_some_iff.mp h
    omega

/-- Where the index is in range, there is an element. -/
theorem exists_elementAt (h : 0 ≤ n) (hlt : n < l.length) : ∃ x, elementAt l n = some x := by
  rw [elementAt, if_neg (by omega)]
  exact ⟨_, List.getElem?_eq_getElem (by omega)⟩

/-- An element at an index is one of the list. -/
theorem mem_of_elementAt (h : elementAt l n = some x) : x ∈ l := by
  rw [elementAt] at h
  split at h
  · cases h
  · exact List.mem_of_getElem? h

/-- In a list without duplicates an element has one number. -/
theorem elementAt_inj (hl : l.Nodup) (hn : elementAt l n = some x) (hm : elementAt l m = some x) :
    n = m := by
  obtain ⟨hn₀, hnlt⟩ := bounds_of_elementAt hn
  obtain ⟨hm₀, -⟩ := bounds_of_elementAt hm
  rw [elementAt, if_neg (by omega)] at hn hm
  have heq := (List.getElem?_inj (by omega) hl).mp (hn.trans hm.symm)
  omega

/-! ### Inserting and removing -/

/-- Nothing changes. -/
theorem Renumbers.refl (l : List α) : Renumbers l l (fun _ => true) id where
  none _ _ := ⟨rfl, rfl⟩
  element _ _ := rfl
  gone _ h := absurd h Bool.noConfusion

/-- **Inserting**: the numbers from the place on grow. -/
theorem Renumbers.insert (a new b : List α) :
    Renumbers (a ++ b) (a ++ new ++ b) (fun _ => true)
      (fun n => if n ≥ a.length then n + new.length else n) where
  none n hn := ⟨rfl, if_neg (by omega)⟩
  element n _ := by
    by_cases hn : n < 0
    · rw [if_neg (by omega), elementAt_none _ hn, elementAt_none _ hn]
    obtain ⟨i, rfl⟩ := Int.eq_ofNat_of_zero_le (Int.not_lt.mp hn)
    split
    · rename_i hbehind
      rw [← Int.natCast_add, elementAt_natCast, elementAt_natCast,
        List.getElem?_append_right (by rw [List.length_append]; omega),
        List.getElem?_append_right (by omega), List.length_append]
      congr 1
      omega
    · rename_i hbefore
      rw [elementAt_natCast, elementAt_natCast, List.append_assoc,
        List.getElem?_append_left (by omega), List.getElem?_append_left (by omega)]
  gone n h := absurd h Bool.noConfusion

/-- **Removing**: the numbers behind the part become smaller, and those of the part refer to
elements that are not in the list any more. -/
theorem Renumbers.remove {a part b : List α} (hl : (a ++ part ++ b).Nodup) :
    Renumbers (a ++ part ++ b) (a ++ b)
      (fun n => !(decide ((a.length : ℤ) ≤ n) && decide (n ≤ a.length + part.length - 1)))
      (fun n => if n > a.length + part.length - 1 then n - part.length else n) where
  none n hn := by
    constructor
    · rw [Bool.not_eq_true', Bool.and_eq_false_iff, decide_eq_false_iff_not]
      left
      omega
    · exact if_neg (by omega)
  element n hkept := by
    rw [Bool.not_eq_true', Bool.and_eq_false_iff, decide_eq_false_iff_not,
      decide_eq_false_iff_not] at hkept
    by_cases hn : n < 0
    · rw [if_neg (by omega), elementAt_none _ hn, elementAt_none _ hn]
    obtain ⟨i, rfl⟩ := Int.eq_ofNat_of_zero_le (Int.not_lt.mp hn)
    split
    · rename_i hbehind
      rw [← Int.natCast_sub (by omega), elementAt_natCast, elementAt_natCast,
        List.getElem?_append_right (by omega),
        List.getElem?_append_right (by rw [List.length_append]; omega), List.length_append]
      congr 1
      omega
    · rename_i hbefore
      rw [elementAt_natCast, elementAt_natCast, List.append_assoc,
        List.getElem?_append_left (by omega), List.getElem?_append_left (by omega)]
  gone n hgone := by
    rw [Bool.not_eq_false', Bool.and_eq_true, decide_eq_true_eq, decide_eq_true_eq] at hgone
    obtain ⟨i, rfl⟩ := Int.eq_ofNat_of_zero_le (show 0 ≤ n by omega)
    have hlt : i - a.length < part.length := by omega
    have hget : elementAt (a ++ part ++ b) i = some part[i - a.length] := by
      rw [elementAt_natCast, List.getElem?_append_left (by rw [List.length_append]; omega),
        List.getElem?_append_right (by omega), List.getElem?_eq_getElem hlt]
    refine ⟨_, hget, fun hmem => ?_⟩
    have hpart := List.getElem_mem hlt
    obtain ⟨happ, -, hdisjoint⟩ := List.nodup_append.mp hl
    obtain ⟨-, -, hbefore⟩ := List.nodup_append.mp happ
    rcases List.mem_append.mp hmem with ha | hb
    · exact hbefore _ ha _ hpart rfl
    · exact hdisjoint _ (List.mem_append_right _ hpart) _ hb rfl

/-! ### Following an element -/

variable {kept : ℤ → Bool} {ρ : ℤ → ℤ}

/-- An index that is kept is in range afterwards. -/
theorem Renumbers.bounds (h : Renumbers l l' kept ρ) (hkept : kept n = true) (hn : 0 ≤ n)
    (hlt : n < l.length) : 0 ≤ ρ n ∧ ρ n < l'.length := by
  obtain ⟨x, hx⟩ := exists_elementAt hn hlt
  exact bounds_of_elementAt ((h.element n hkept).trans hx)

/-- Two indices are not mapped to one. -/
theorem Renumbers.inj (h : Renumbers l l' kept ρ) (hl : l.Nodup) (hn : kept n = true)
    (hm : kept m = true) (hn₀ : 0 ≤ n) (hlt : n < l.length) (heq : ρ n = ρ m) : n = m := by
  obtain ⟨x, hx⟩ := exists_elementAt hn₀ hlt
  refine elementAt_inj hl hx ?_
  rw [← h.element m hm, ← heq, h.element n hn, hx]

/-- An index in front of the list stays. -/
theorem Renumbers.move_neg (h : Renumbers l l' kept ρ) (hn : n < 0) : move kept ρ n = n := by
  rw [move, if_pos (h.none n hn).1, (h.none n hn).2]

/-- A number becomes one of the other list or none. -/
theorem Renumbers.move_bounds (h : Renumbers l l' kept ρ) (hn : 0 ≤ n) (hlt : n < l.length) :
    move kept ρ n = -1 ∨ 0 ≤ move kept ρ n ∧ move kept ρ n < l'.length := by
  rw [move]
  split
  · exact Or.inr (h.bounds ‹_› hn hlt)
  · exact Or.inl rfl

variable [DecidableEq α]

/-- What there is at an index is in the list. -/
theorem all_elementAt (l : List α) (n : ℤ) : (elementAt l n).all l.contains = true := by
  cases hx : elementAt l n with
  | none => rfl
  | some x => exact List.contains_iff_mem.mpr (mem_of_elementAt hx)

/-- What is kept is what the list still has. -/
theorem Renumbers.kept_eq (h : Renumbers l l' kept ρ) (n : ℤ) :
    kept n = (elementAt l n).all l'.contains := by
  cases hkept : kept n with
  | false =>
      obtain ⟨x, hx, hnot⟩ := h.gone n hkept
      rw [hx, Option.all_some, eq_comm, Bool.eq_false_iff]
      exact fun hmem => hnot (List.contains_iff_mem.mp hmem)
  | true => rw [← h.element n hkept, all_elementAt]

/-- **A number** follows its element, and becomes none if the element is removed. -/
theorem Renumbers.elementAt_move (h : Renumbers l l' kept ρ) (n : ℤ) :
    elementAt l' (move kept ρ n) = (elementAt l n).filter l'.contains := by
  rw [move]
  split
  · rename_i hkept
    rw [h.element n hkept]
    rw [h.kept_eq] at hkept
    cases hx : elementAt l n with
    | none => rfl
    | some x =>
        rw [hx, Option.all_some] at hkept
        rw [Option.filter_some, if_pos hkept]
  · rename_i hkept
    obtain ⟨x, hx, hnot⟩ := h.gone n (Bool.eq_false_iff.mpr hkept)
    rw [elementAt_none l' (by decide), hx, Option.filter_some, if_neg]
    exact fun hmem => hnot (List.contains_iff_mem.mp hmem)

end Renumbering
