import Mathlib.Data.List.Basic
import Mathlib.Data.List.Dedup
import Mathlib.Data.List.Nodup
import Mathlib.Data.List.Perm.Subperm

/-!
# Contiguous Vectors and the Slots behind Their End

A contiguous vector of pointers keeps its elements in the first slots of a buffer. Removing
elements moves the ones behind them forward and lowers the end, but writes nothing behind
the new end: the slots there keep what was stored in them last, and a loop that took the old
end before it started still reads them. `SlotVector` keeps both parts, `live` (the elements)
and `stale` (what is left behind the end), with the number of slots never written and a
number for the allocation, which changes when the buffer is replaced.

The second half is about one such loop, `sweep`: it takes the bounds of a vector once, reads
one slot after the other, and removes from the vector all entries of each element it has not
removed before. While the cursor is inside the shrinking vector every read removes one
element, those of `picks`; from then on the reads only find what the removals left behind.

## Main results

* `mem_sweep_iff`: an element is removed by the sweep iff it is picked or is left behind the
  cursor in the buffer.
* `sweep_complete_iff`: every element is removed iff `Unskipped` holds of the list.
* `unskipped_iff_of_nodup`: without repetitions that means at most two elements.
* `unskipped_of_two`: any list over two elements qualifies, whatever its repetitions.
-/

universe u

/-- A contiguous vector together with what its buffer holds behind the end. -/
structure SlotVector (α : Type u) where
  /-- The elements, in order. -/
  live : List α
  /-- The slots behind the end that were written before and still hold those values. -/
  stale : List α := []
  /-- The number of slots behind those that were never written. -/
  spare : ℕ := 0
  /-- The number of the current allocation. -/
  buffer : ℕ := 0
  deriving DecidableEq

namespace SlotVector

variable {α : Type u}

/-- A vector holding the elements of a list and nothing else. -/
def ofList (l : List α) : SlotVector α := { live := l }

/-- The vector a default constructor builds. -/
def empty : SlotVector α := ofList []

/-- All the slots a pointer into the buffer can read. -/
def slots (v : SlotVector α) : List α := v.live ++ v.stale

/-- Overwrites the first slots with `l` and ends the vector there. -/
def shrink (v : SlotVector α) (l : List α) : SlotVector α :=
  { v with live := l, stale := v.slots.drop l.length }

/-- The vector a container is moved out of: no elements and no buffer. -/
def movedFrom (v : SlotVector α) : SlotVector α :=
  { live := [], buffer := v.buffer + 1 }

/-- `clear()`: the end goes back to the start, the buffer stays. -/
def clear (v : SlotVector α) : SlotVector α := v.shrink []

/-- `push_back`: into the next slot, or into a buffer of twice the size when none is left. -/
def pushBack (v : SlotVector α) (a : α) : SlotVector α :=
  match v.stale, v.spare with
  | _ :: rest, _ => { v with live := v.live ++ [a], stale := rest }
  | [], n + 1 => { v with live := v.live ++ [a], spare := n }
  | [], 0 =>
      { live := v.live ++ [a], spare := v.live.length - 1, buffer := v.buffer + 1 }

section Remove

variable [DecidableEq α]

/-- `erase(remove(begin, end, a), end)`: drops every entry of `a`. -/
def removeAll (v : SlotVector α) (a : α) : SlotVector α :=
  v.shrink (v.live.filter (· ≠ a))

/-- `erase(find(begin, end, a))`: drops the first entry of `a`. -/
def eraseFirst (v : SlotVector α) (a : α) : SlotVector α := v.shrink (v.live.erase a)

end Remove

/-! ### The elements after each operation -/

@[simp] theorem live_ofList (l : List α) : (ofList l).live = l := rfl

@[simp] theorem slots_ofList (l : List α) : (ofList l).slots = l := List.append_nil l

@[simp] theorem live_pushBack (v : SlotVector α) (a : α) :
    (v.pushBack a).live = v.live ++ [a] := by
  rw [pushBack]
  split <;> rfl

/-- Shrinking writes the new elements into the first slots and nothing else. -/
theorem slots_shrink (v : SlotVector α) (l : List α) :
    (v.shrink l).slots = l ++ v.slots.drop l.length := rfl

section Remove

variable [DecidableEq α]

@[simp] theorem live_removeAll (v : SlotVector α) (a : α) :
    (v.removeAll a).live = v.live.filter (· ≠ a) := rfl

/-- Removing never makes a vector longer. -/
theorem length_live_removeAll_le (v : SlotVector α) (a : α) :
    (v.removeAll a).live.length ≤ v.live.length :=
  List.length_filter_le _ _

/-- The slots from the old end on are untouched by a removal. -/
theorem drop_slots_removeAll (v : SlotVector α) (a : α) {i : ℕ} (hi : v.live.length ≤ i) :
    (v.removeAll a).slots.drop i = v.slots.drop i := by
  have hle : (v.live.filter (· ≠ a)).length ≤ i :=
    Nat.le_trans (List.length_filter_le _ _) hi
  rw [removeAll, slots_shrink, List.drop_append, List.drop_eq_nil_of_le hle, List.drop_drop,
    List.nil_append]
  congr 1
  omega

/-- Removing keeps the number of slots. -/
theorem length_slots_removeAll (v : SlotVector α) (a : α) :
    (v.removeAll a).slots.length = v.slots.length := by
  have hle : (v.live.filter (· ≠ a)).length ≤ v.slots.length :=
    Nat.le_trans (List.length_filter_le _ _) (by simp [slots])
  rw [removeAll, slots_shrink, List.length_append, List.length_drop]
  omega

/-! ### A loop that removes what it visits -/

/-- One read of the sweep: the element in slot `i`, unless it was removed before, is removed
from the vector. The second component lists what has been removed so far. -/
def sweepStep (s : SlotVector α × List α) (i : ℕ) : SlotVector α × List α :=
  match s.1.slots[i]? with
  | some c => if c ∈ s.2 then s else (s.1.removeAll c, s.2 ++ [c])
  | none => s

/-- The reads of slots `i`, …, `i + k - 1`. -/
def sweepFrom (i k : ℕ) (s : SlotVector α × List α) : SlotVector α × List α :=
  (List.range' i k).foldl sweepStep s

/-- The whole loop, over the slots that were live when it started. -/
def sweep (l : List α) : SlotVector α × List α := sweepFrom 0 l.length (ofList l, [])

/-- The elements removed while the cursor is inside the vector: with the cursor at `i` the
element at index `i` goes, and the cursor moves on in what is left. -/
def picks : ℕ → ℕ → List α → List α
  | 0, _, _ => []
  | k + 1, i, l =>
      match l[i]? with
      | some d => d :: picks k (i + 1) (l.filter (· ≠ d))
      | none => []

/-- The vector after the removals of a list of elements, one after the other. -/
def removeEach (v : SlotVector α) (ds : List α) : SlotVector α :=
  ds.foldl removeAll v

/-- Nothing is skipped: what the picks leave in the vector stands once more in the buffer
behind the cursor. -/
def Unskipped (l : List α) : Prop :=
  let ds := picks l.length 0 l
  let v := (ofList l).removeEach ds
  ∀ c ∈ v.live, c ∈ v.slots.drop ds.length

instance (l : List α) : Decidable (Unskipped l) := by
  rw [Unskipped]
  infer_instance

@[simp] theorem sweepFrom_zero (i : ℕ) (s : SlotVector α × List α) :
    sweepFrom i 0 s = s := rfl

theorem sweepFrom_succ (i k : ℕ) (s : SlotVector α × List α) :
    sweepFrom i (k + 1) s = sweepFrom (i + 1) k (sweepStep s i) := rfl

/-- What is left after removing each of a list. -/
theorem live_removeEach (v : SlotVector α) (ds : List α) :
    (v.removeEach ds).live = v.live.filter (· ∉ ds) := by
  induction ds generalizing v with
  | nil => simp [removeEach]
  | cons d ds ih =>
      have h := ih (v.removeAll d)
      simp only [removeEach, List.foldl_cons] at h ⊢
      rw [h, live_removeAll, List.filter_filter]
      refine List.filter_congr fun x _ => ?_
      simp only [List.mem_cons, not_or, decide_not, Bool.decide_and, Bool.and_comm]

/-- **Behind the end** the sweep removes exactly what the slots it reads hold. -/
theorem mem_sweepFrom_of_le {i k : ℕ} {v : SlotVector α} {r : List α} {x : α}
    (hi : v.live.length ≤ i) :
    x ∈ (sweepFrom i k (v, r)).2 ↔ x ∈ r ∨ x ∈ (v.slots.drop i).take k := by
  induction k generalizing i v r with
  | zero => simp
  | succ k ih =>
      rw [sweepFrom_succ]
      cases hc : v.slots[i]? with
      | none =>
          have hlen : v.slots.length ≤ i := List.getElem?_eq_none_iff.mp hc
          have hstep : sweepStep (v, r) i = (v, r) := by simp [sweepStep, hc]
          rw [hstep, ih (by omega), List.drop_eq_nil_of_le hlen,
            List.drop_eq_nil_of_le (by omega)]
          simp
      | some c =>
          have hdrop : v.slots.drop i = c :: v.slots.drop (i + 1) := by
            obtain ⟨hlt, hget⟩ := List.getElem?_eq_some_iff.mp hc
            rw [List.drop_eq_getElem_cons hlt, hget]
          by_cases hr : c ∈ r
          · have hstep : sweepStep (v, r) i = (v, r) := by simp [sweepStep, hc, hr]
            rw [hstep, ih (by omega), hdrop, List.take_succ_cons, List.mem_cons]
            constructor
            · rintro (h | h)
              · exact Or.inl h
              · exact Or.inr (Or.inr h)
            · rintro (h | rfl | h)
              · exact Or.inl h
              · exact Or.inl hr
              · exact Or.inr h
          · have hstep : sweepStep (v, r) i = (v.removeAll c, r ++ [c]) := by
              simp [sweepStep, hc, hr]
            have hle : (v.removeAll c).live.length ≤ i :=
              Nat.le_trans (v.length_live_removeAll_le c) hi
            rw [hstep, ih (by omega), drop_slots_removeAll v c (by omega), hdrop,
              List.take_succ_cons, List.mem_cons, List.mem_append, List.mem_singleton,
              or_assoc]

/-- **The two phases of the sweep.** The picks go while the cursor is inside the vector;
after that the slots from the cursor on, as the picks have left them, decide. -/
theorem mem_sweepFrom_iff {i k : ℕ} {v : SlotVector α} {r : List α} {x : α}
    (hlen : v.live.length ≤ i + k) (hr : ∀ c ∈ v.live, c ∉ r) :
    x ∈ (sweepFrom i k (v, r)).2 ↔
      x ∈ r ∨ x ∈ picks k i v.live ∨
        x ∈ (((v.removeEach (picks k i v.live)).slots.drop
          (i + (picks k i v.live).length)).take (k - (picks k i v.live).length)) := by
  induction k generalizing i v r with
  | zero => simp [picks]
  | succ k ih =>
      cases hc : v.live[i]? with
      | none =>
          have hle : v.live.length ≤ i := List.getElem?_eq_none_iff.mp hc
          rw [mem_sweepFrom_of_le hle]
          simp [picks, hc, removeEach]
      | some d =>
          obtain ⟨hlt, hget⟩ := List.getElem?_eq_some_iff.mp hc
          have hd : d ∈ v.live := hget ▸ List.getElem_mem hlt
          have hslot : v.slots[i]? = some d := by
            rw [slots, List.getElem?_append_left hlt, hc]
          have hstep : sweepStep (v, r) i = (v.removeAll d, r ++ [d]) := by
            simp [sweepStep, hslot, hr d hd]
          have hshort : (v.removeAll d).live.length < v.live.length := by
            rw [live_removeAll]
            exact List.length_filter_lt_length_iff_exists.mpr ⟨d, hd, by simp⟩
          have hfresh : ∀ c ∈ (v.removeAll d).live, c ∉ r ++ [d] := by
            intro c hcm
            obtain ⟨hcv, hcd⟩ := List.mem_filter.mp hcm
            simp only [List.mem_append, List.mem_singleton, not_or]
            exact ⟨hr c hcv, by simpa using hcd⟩
          have hpicks : picks (k + 1) i v.live = d :: picks k (i + 1) (v.removeAll d).live := by
            simp [picks, hc]
          rw [sweepFrom_succ, hstep, ih (by omega) hfresh, hpicks]
          simp only [removeEach, List.foldl_cons, List.length_cons, List.mem_cons,
            List.mem_append, Nat.add_sub_add_right, List.not_mem_nil, or_false]
          rw [show i + 1 + (picks k (i + 1) (v.removeAll d).live).length =
            i + ((picks k (i + 1) (v.removeAll d).live).length + 1) by omega]
          tauto

/-- Removing each of a list keeps the number of slots. -/
theorem length_slots_removeEach (v : SlotVector α) (ds : List α) :
    (v.removeEach ds).slots.length = v.slots.length := by
  induction ds generalizing v with
  | nil => rfl
  | cons d ds ih =>
      have h := ih (v.removeAll d)
      simp only [removeEach, List.foldl_cons] at h ⊢
      rw [h, length_slots_removeAll]

/-- What a removal leaves in the first slots was there before. -/
theorem mem_take_slots_removeAll {v : SlotVector α} {a x : α} {n : ℕ}
    (hn : v.live.length ≤ n) (hx : x ∈ (v.removeAll a).slots.take n) : x ∈ v.slots.take n := by
  have hlive : ∀ y ∈ v.live, y ∈ v.slots.take n := fun y hy => by
    rw [slots, List.take_append, List.take_of_length_le hn]
    exact List.mem_append_left _ hy
  rw [removeAll, slots_shrink, List.take_append, List.mem_append] at hx
  rcases hx with hx | hx
  · exact hlive x (List.mem_of_mem_filter (List.mem_of_mem_take hx))
  · rw [← List.drop_take] at hx
    exact List.mem_of_mem_drop hx

/-- Slots behind the bounds of the loop do not matter. -/
theorem sweepFrom_snd_eq {u v : SlotVector α} {rest r : List α} {i k : ℕ}
    (hlive : v.live = u.live) (hslots : v.slots = u.slots ++ rest)
    (hik : i + k ≤ u.slots.length) :
    (sweepFrom i k (v, r)).2 = (sweepFrom i k (u, r)).2 := by
  induction k generalizing i u v r with
  | zero => rfl
  | succ k ih =>
      have hget : v.slots[i]? = u.slots[i]? := by
        rw [hslots, List.getElem?_append_left (by omega)]
      rw [sweepFrom_succ, sweepFrom_succ]
      unfold sweepStep
      rw [hget]
      cases hc : u.slots[i]? with
      | none => exact ih hlive hslots (by omega)
      | some c =>
          by_cases hr : c ∈ r
          · simp only [hr, if_true]
            exact ih hlive hslots (by omega)
          · simp only [hr, if_false]
            refine ih (by rw [live_removeAll, live_removeAll, hlive]) ?_ ?_
            · have hle : (u.live.filter (· ≠ c)).length ≤ u.slots.length :=
                Nat.le_trans (List.length_filter_le _ _) (by simp [slots])
              rw [removeAll, removeAll, slots_shrink, slots_shrink, hlive, hslots,
                List.drop_append_of_le_length hle, List.append_assoc]
            · rw [length_slots_removeAll]
              omega

/-- What the sweep has removed is without repetitions. -/
theorem nodup_sweepFrom {v : SlotVector α} {r : List α} {i k : ℕ} (hr : r.Nodup) :
    (sweepFrom i k (v, r)).2.Nodup := by
  induction k generalizing i v r with
  | zero => exact hr
  | succ k ih =>
      rw [sweepFrom_succ]
      rw [sweepStep]
      split
      · split <;> rename_i hc
        · exact ih hr
        · refine ih (List.Nodup.append hr (List.nodup_singleton _) ?_)
          rintro x hx hxc
          obtain rfl := List.mem_singleton.mp hxc
          exact hc hx
      · exact ih hr

/-- **What a sweep removes**: the picks, and what they leave behind the cursor. -/
theorem mem_sweep_iff {l : List α} {x : α} :
    x ∈ (sweep l).2 ↔
      x ∈ picks l.length 0 l ∨
        x ∈ ((ofList l).removeEach (picks l.length 0 l)).slots.drop
          (picks l.length 0 l).length := by
  have h := mem_sweepFrom_iff (i := 0) (k := l.length) (v := ofList l) (r := []) (x := x)
    (by simp) (by simp)
  simp only [live_ofList, List.not_mem_nil, false_or, Nat.zero_add] at h
  rw [sweep, h, List.take_of_length_le]
  exact Nat.le_of_eq (by rw [List.length_drop, length_slots_removeEach, slots_ofList])

/-- **The sweep removes every element iff nothing is skipped.** -/
theorem sweep_complete_iff {l : List α} :
    (∀ c ∈ l, c ∈ (sweep l).2) ↔ Unskipped l := by
  simp only [mem_sweep_iff, Unskipped, live_removeEach, live_ofList, List.mem_filter,
    decide_eq_true_eq]
  constructor
  · rintro h c ⟨hc, hp⟩
    exact (h c hc).resolve_left hp
  · intro h c hc
    by_cases hp : c ∈ picks l.length 0 l
    · exact Or.inl hp
    · exact Or.inr (h c ⟨hc, hp⟩)

/-! ### The skipped second element -/

/-- An element whose only entry is in the first slot is not found by reads further on. -/
theorem not_mem_sweepFrom_of_first {i k : ℕ} {b : α} {v : SlotVector α} {r : List α}
    (hb : v.live.head? = some b) (honly : b ∉ v.slots.drop 1) (hi : 1 ≤ i) (hr : b ∉ r) :
    b ∉ (sweepFrom i k (v, r)).2 := by
  induction k generalizing i v r with
  | zero => exact hr
  | succ k ih =>
      rw [sweepFrom_succ]
      cases hc : v.slots[i]? with
      | none =>
          have hstep : sweepStep (v, r) i = (v, r) := by simp [sweepStep, hc]
          rw [hstep]
          exact ih hb honly (by omega) hr
      | some c =>
          by_cases hcr : c ∈ r
          · have hstep : sweepStep (v, r) i = (v, r) := by simp [sweepStep, hc, hcr]
            rw [hstep]
            exact ih hb honly (by omega) hr
          · have hstep : sweepStep (v, r) i = (v.removeAll c, r ++ [c]) := by
              simp [sweepStep, hc, hcr]
            have hcb : b ≠ c := by
              rintro rfl
              refine honly (List.mem_of_getElem? (i := i - 1) ?_)
              rw [List.getElem?_drop, ← hc]
              congr 1
              omega
            obtain ⟨rest, hlive⟩ : ∃ rest, v.live = b :: rest := by
              cases hl : v.live with
              | nil => simp [hl] at hb
              | cons a rest =>
                  obtain rfl : a = b := by simpa [hl] using hb
                  exact ⟨rest, rfl⟩
            have hlive' : (v.removeAll c).live = b :: rest.filter (· ≠ c) := by
              rw [live_removeAll, hlive, List.filter_cons_of_pos (by simpa using hcb)]
            rw [hstep]
            refine ih (by rw [hlive']; rfl) ?_ (by omega) ?_
            · -- the removal rewrites slots behind the first with entries from behind it
              have hslots : (v.removeAll c).slots.drop 1 =
                  rest.filter (· ≠ c) ++ v.slots.drop (rest.filter (· ≠ c) |>.length.succ) := by
                rw [removeAll, slots_shrink, ← live_removeAll, hlive']
                rfl
              rw [hslots, List.mem_append, not_or]
              constructor
              · intro hmem
                refine honly ?_
                rw [slots, hlive]
                exact List.mem_append_left _ (List.mem_of_mem_filter hmem)
              · intro hmem
                refine honly (List.mem_of_mem_drop (i := (rest.filter (· ≠ c)).length) ?_)
                rw [List.drop_drop, Nat.add_comm]
                exact hmem
            · simp only [List.mem_append, List.mem_singleton, not_or]
              exact ⟨hr, hcb⟩

/-- In a list of three or more without repetitions the second element is skipped. -/
theorem second_not_mem_sweep {a b c : α} {l : List α} (hnd : (a :: b :: c :: l).Nodup) :
    b ∉ (sweep (a :: b :: c :: l)).2 := by
  obtain ⟨ha, hbcl⟩ := List.nodup_cons.mp hnd
  obtain ⟨hb, -⟩ := List.nodup_cons.mp hbcl
  have hba : b ≠ a := fun h => ha (h ▸ List.mem_cons_self)
  have hfilter : (a :: b :: c :: l).filter (· ≠ a) = b :: c :: l := by
    rw [List.filter_cons_of_neg (by simp)]
    refine List.filter_eq_self.mpr fun x hx => ?_
    simp only [ne_eq, decide_not, Bool.not_eq_eq_eq_not, Bool.not_true, decide_eq_false_iff_not]
    rintro rfl
    exact ha hx
  have hlen : (b :: c :: l).length = l.length + 2 := rfl
  have hstep : sweepStep (ofList (a :: b :: c :: l), []) 0 =
      ((ofList (a :: b :: c :: l)).removeAll a, [a]) := by
    simp [sweepStep]
  have hslots : ((ofList (a :: b :: c :: l)).removeAll a).slots.drop 1 =
      (c :: l) ++ (a :: b :: c :: l).drop (l.length + 2) := by
    rw [removeAll, slots_shrink, live_ofList, hfilter, slots_ofList, hlen]
    rfl
  rw [sweep, List.length_cons, sweepFrom_succ, hstep]
  refine not_mem_sweepFrom_of_first ?_ ?_ (Nat.le_refl 1) (by simpa using hba)
  · rw [live_removeAll, live_ofList, hfilter]
    rfl
  · rw [hslots, List.mem_append, not_or]
    refine ⟨hb, fun hmem => hb ?_⟩
    exact List.mem_of_mem_drop (i := l.length) (by simpa using hmem)

/-- **Without repetitions nothing is skipped iff there are at most two elements.** -/
theorem unskipped_iff_of_nodup {l : List α} (hnd : l.Nodup) :
    Unskipped l ↔ l.length ≤ 2 := by
  rw [← sweep_complete_iff]
  match l, hnd with
  | [], _ => simp
  | [a], _ => simp [sweep, sweepFrom, sweepStep]
  | [a, b], hnd =>
      have hne : a ≠ b := by simpa using hnd
      simp [sweep, sweepFrom, sweepStep, List.range', removeAll, shrink, slots, Ne.symm hne]
  | a :: b :: c :: l, hnd =>
      constructor
      · intro h
        exact absurd (h b (by simp)) (second_not_mem_sweep hnd)
      · intro h
        simp at h

/-- **Two elements are never skipped**, whatever the repetitions. -/
theorem unskipped_of_two {a b : α} {l : List α} (hl : ∀ x ∈ l, x = a ∨ x = b) :
    Unskipped l := by
  rw [← sweep_complete_iff]
  suffices h : ∀ a b : α, ∀ l : List α, (∀ x ∈ a :: l, x = a ∨ x = b) →
      ∀ c ∈ a :: l, c ∈ (sweep (a :: l)).2 by
    cases l with
    | nil => simp
    | cons d l =>
        rcases hl d List.mem_cons_self with rfl | rfl
        · exact h d b l hl
        · exact h d a l fun x hx => (hl x hx).symm
  clear hl l a b
  intro a b l hl c hc
  have hstep : sweepStep (ofList (a :: l), []) 0 = ((ofList (a :: l)).removeAll a, [a]) := by
    simp [sweepStep]
  rw [sweep, List.length_cons, sweepFrom_succ, hstep]
  set v := (ofList (a :: l)).removeAll a with hv
  have hlive : v.live = l.filter (· ≠ a) := by
    rw [hv, live_removeAll, live_ofList, List.filter_cons_of_neg (by simp)]
  have hall : ∀ x ∈ v.live, x = b := by
    intro x hx
    obtain ⟨hxl, hxa⟩ := List.mem_filter.mp (hlive ▸ hx)
    exact (hl x (List.mem_cons_of_mem _ hxl)).resolve_left (by simpa using hxa)
  have hlen : v.live.length ≤ l.length := hlive ▸ List.length_filter_le _ _
  have hfresh : ∀ x ∈ v.live, x ∉ [a] := by
    intro x hx
    rw [hlive] at hx
    have hxa : x ≠ a := by simpa using (List.mem_filter.mp hx).2
    exact fun h => hxa (List.mem_singleton.mp h)
  by_cases hca : c = a
  · -- the first element is removed by the first read
    exact (mem_sweepFrom_iff (by omega) hfresh).mpr (Or.inl (by simp [hca]))
  · obtain rfl : c = b := (hl c hc).resolve_left hca
    have hcl : c ∈ l := (List.mem_cons.mp hc).resolve_left hca
    by_cases hone : v.live.length ≤ 1
    · -- a single entry of the second element stands behind the cursor in the buffer
      refine (mem_sweepFrom_of_le hone).mpr (Or.inr ?_)
      have hpos : 0 < v.live.length := by
        rw [hlive]
        exact List.length_pos_of_mem (List.mem_filter.mpr ⟨hcl, by simpa using hca⟩)
      have hslots : v.slots.drop 1 = l := by
        have hfl : ((a :: l).filter (· ≠ a)).length = 1 := by
          have : v.live.length = 1 := by omega
          rw [← this, hv, live_removeAll, live_ofList]
        rw [hv, removeAll, slots_shrink, live_ofList, slots_ofList, List.drop_append,
          List.drop_eq_nil_of_le (by omega), hfl]
        rfl
      rw [hslots, List.take_length]
      exact hcl
    · -- with more entries the cursor is still inside the vector and picks one
      obtain ⟨k, hk⟩ : ∃ k, l.length = k + 1 := ⟨l.length - 1, by omega⟩
      refine (mem_sweepFrom_iff (by omega) hfresh).mpr (Or.inr (Or.inl ?_))
      have hget : v.live[1]? = some c := by
        rw [List.getElem?_eq_getElem (by omega)]
        exact congrArg some (hall _ (List.getElem_mem _))
      rw [hk]
      simp [picks, hget]

end Remove

end SlotVector
