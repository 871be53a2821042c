import Mathlib.Data.List.Nodup
import Mathlib.Logic.Function.Basic

/-!
# A Multimap with an Index

A multimap keeps its values in the order of their keys, each in a cell of its own, and a second
map finds the cell of a value by the value's name. An iterator into the multimap is the number
of a cell; a cell keeps its number as long as it is in the multimap, and numbers are not used
again.

The two maps are changed together: a value is erased through the index, replaced by erasing and
emplacing, and popped from the front with its index entry.

## Main results

* `Indexed`: index and cells are in bijection. It is kept by `erase`, `replace`, `takeDue` and
  `clear`.
* `values_erase`, `values_replace`, `takeDue_fst` and `values_takeDue`: what the operations do to
  the list of values.
-/

universe u v w

/-- A cell of a multimap: its number, and its value. -/
structure Cell (V : Type u) where
  node : ℕ
  value : V
  deriving DecidableEq

/-- A multimap and its index by name. -/
structure IndexedQueue (N : Type v) (V : Type u) where
  cells : List (Cell V) := []
  index : N → Option ℕ := fun _ => none
  nextNode : ℕ := 0

namespace IndexedQueue

variable {N : Type v} {V : Type u} {K : Type w} [DecidableEq N] [LE K] [DecidableLE K]
variable (name : V → N) (key : V → K) (due : V → Bool)

/-- The values, in the order of their keys. -/
def values (q : IndexedQueue N V) : List V := q.cells.map Cell.value

/-- Erases the value of a name, if there is one. -/
def erase (q : IndexedQueue N V) (n : N) : IndexedQueue N V :=
  match q.index n with
  | some it =>
      { q with
        cells := q.cells.filter (·.node ≠ it)
        index := Function.update q.index n none }
  | none => q

/-- Emplaces a value behind the ones with the same key, and indexes it. -/
def emplace (q : IndexedQueue N V) (v : V) : IndexedQueue N V where
  cells := q.cells.takeWhile (fun c => key c.value ≤ key v) ++ ⟨q.nextNode, v⟩ ::
    q.cells.dropWhile (fun c => key c.value ≤ key v)
  index := Function.update q.index (name v) (some q.nextNode)
  nextNode := q.nextNode + 1

/-- Emplaces a value in the place of the one with its name. -/
def replace (q : IndexedQueue N V) (v : V) : IndexedQueue N V :=
  (q.erase (name v)).emplace name key v

/-- Pops cells from the front as long as their values are due. -/
def takeCells : List (Cell V) → (N → Option ℕ) → List V × List (Cell V) × (N → Option ℕ)
  | [], ix => ([], [], ix)
  | c :: cs, ix =>
      if due c.value then
        let r := takeCells cs (Function.update ix (name c.value) none)
        (c.value :: r.1, r.2)
      else ([], c :: cs, ix)

/-- The values that are due at the front, and the multimap without them. -/
def takeDue (q : IndexedQueue N V) : List V × IndexedQueue N V :=
  let r := takeCells name due q.cells q.index
  (r.1, { q with cells := r.2.1, index := r.2.2 })

/-- Clears the multimap and its index. -/
def clear (q : IndexedQueue N V) : IndexedQueue N V :=
  { q with cells := [], index := fun _ => none }

/-- **The two maps are in bijection**: what the index has for a name is the cell of a value of
that name, and every cell is indexed. -/
structure Indexed (q : IndexedQueue N V) : Prop where
  fresh : ∀ c ∈ q.cells, c.node < q.nextNode
  nodup : (q.cells.map Cell.node).Nodup
  index_iff : ∀ n it, q.index n = some it ↔ ∃ c ∈ q.cells, c.node = it ∧ name c.value = n

variable {name key due} {q : IndexedQueue N V}

namespace Indexed

omit [DecidableEq N] in
/-- An empty multimap is indexed. -/
theorem clear : Indexed name q.clear where
  fresh _ hc := absurd hc List.not_mem_nil
  nodup := List.nodup_nil
  index_iff n it := by simp [IndexedQueue.clear]

omit [DecidableEq N] in
/-- A number is the number of one cell. -/
theorem eq_of_node (h : Indexed name q) {c d : Cell V} (hc : c ∈ q.cells) (hd : d ∈ q.cells)
    (hcd : c.node = d.node) : c = d :=
  List.inj_on_of_nodup_map h.nodup hc hd hcd

omit [DecidableEq N] in
/-- The index has the cell of each value. -/
theorem index_name (h : Indexed name q) {c : Cell V} (hc : c ∈ q.cells) :
    q.index (name c.value) = some c.node :=
  (h.index_iff ..).mpr ⟨c, hc, rfl, rfl⟩

omit [DecidableEq N] in
/-- A name is the name of one cell's value. -/
theorem node_eq_iff (h : Indexed name q) {c : Cell V} (hc : c ∈ q.cells) {n : N} {it : ℕ}
    (hi : q.index n = some it) : c.node = it ↔ name c.value = n := by
  obtain ⟨d, hd, rfl, rfl⟩ := (h.index_iff ..).mp hi
  constructor
  · intro hcd
    rw [h.eq_of_node hc hd hcd]
  · intro hcd
    have hn := h.index_name hc
    rw [hcd, h.index_name hd] at hn
    exact (Option.some.inj hn).symm

/-- Erasing through the index erases the cell of the name. -/
theorem cells_erase (h : Indexed name q) (n : N) :
    (q.erase n).cells = q.cells.filter (name ·.value ≠ n) := by
  cases hi : q.index n with
  | none =>
      have hall : ∀ c ∈ q.cells, name c.value ≠ n := by
        intro c hc hn
        rw [← hn, h.index_name hc] at hi
        exact absurd hi (by simp)
      rw [erase, hi]
      exact (List.filter_eq_self.mpr fun c hc => by simpa using hall c hc).symm
  | some it =>
      rw [erase, hi]
      exact List.filter_congr fun c hc => by simp [h.node_eq_iff hc hi]

/-- The index forgets the erased name and nothing else. -/
theorem index_erase (q : IndexedQueue N V) (n : N) :
    (q.erase n).index = Function.update q.index n none := by
  cases hi : q.index n with
  | none =>
      simp only [erase, hi]
      exact (Function.update_eq_self_iff.mpr hi.symm).symm
  | some it => rw [erase, hi]

theorem nextNode_erase (q : IndexedQueue N V) (n : N) : (q.erase n).nextNode = q.nextNode := by
  rw [erase]
  split <;> rfl

/-- Erasing keeps the bijection. -/
theorem erase (h : Indexed name q) (n : N) : Indexed name (q.erase n) where
  fresh c hc := by
    rw [h.cells_erase n] at hc
    rw [nextNode_erase]
    exact h.fresh c (List.mem_filter.mp hc).1
  nodup := by
    rw [h.cells_erase n]
    exact h.nodup.sublist (List.filter_sublist.map _)
  index_iff m it := by
    rw [index_erase, h.cells_erase n]
    by_cases hm : m = n
    · subst hm
      rw [Function.update_self]
      constructor
      · intro hit
        exact absurd hit (by simp)
      · rintro ⟨c, hc, -, hcm⟩
        exact absurd hcm (by simpa using (List.mem_filter.mp hc).2)
    · rw [Function.update_of_ne hm, h.index_iff]
      constructor
      · rintro ⟨c, hc, rfl, rfl⟩
        exact ⟨c, List.mem_filter.mpr ⟨hc, by simpa using hm⟩, rfl, rfl⟩
      · rintro ⟨c, hc, rfl, rfl⟩
        exact ⟨c, (List.mem_filter.mp hc).1, rfl, rfl⟩

/-- The cells after an emplacement. -/
theorem mem_emplace {v : V} {c : Cell V} :
    c ∈ (q.emplace name key v).cells ↔ c = ⟨q.nextNode, v⟩ ∨ c ∈ q.cells := by
  have hsplit := List.takeWhile_append_dropWhile (p := fun c : Cell V => key c.value ≤ key v)
    (l := q.cells)
  rw [emplace]
  constructor
  · intro hc
    rcases List.mem_append.mp hc with hc | hc
    · exact Or.inr (hsplit ▸ List.mem_append_left _ hc)
    · rcases List.mem_cons.mp hc with rfl | hc
      · exact Or.inl rfl
      · exact Or.inr (hsplit ▸ List.mem_append_right _ hc)
  · rintro (rfl | hc)
    · exact List.mem_append_right _ List.mem_cons_self
    · rw [← hsplit] at hc
      rcases List.mem_append.mp hc with hc | hc
      · exact List.mem_append_left _ hc
      · exact List.mem_append_right _ (List.mem_cons_of_mem _ hc)

/-- Emplacing a value whose name is not in use keeps the bijection. -/
theorem emplace (h : Indexed name q) {v : V} (hv : q.index (name v) = none) :
    Indexed name (q.emplace name key v) where
  fresh c hc := by
    rcases mem_emplace.mp hc with rfl | hc
    · exact Nat.lt_succ_self _
    · exact Nat.lt_succ_of_lt (h.fresh c hc)
  nodup := by
    have hnew : q.nextNode ∉ q.cells.map Cell.node := by
      intro hm
      obtain ⟨c, hc, hn⟩ := List.mem_map.mp hm
      exact absurd (h.fresh c hc) (by omega)
    have hsplit := List.takeWhile_append_dropWhile
      (p := fun c : Cell V => key c.value ≤ key v) (l := q.cells)
    rw [IndexedQueue.emplace, List.map_append, List.map_cons]
    refine List.nodup_middle.mpr (List.nodup_cons.mpr ?_)
    rw [← List.map_append, hsplit]
    exact ⟨hnew, h.nodup⟩
  index_iff n it := by
    have hix : (q.emplace name key v).index =
        Function.update q.index (name v) (some q.nextNode) := rfl
    rw [hix]
    by_cases hn : n = name v
    · subst hn
      rw [Function.update_self]
      constructor
      · intro hit
        exact ⟨⟨q.nextNode, v⟩, mem_emplace.mpr (Or.inl rfl), Option.some.inj hit, rfl⟩
      · rintro ⟨c, hc, rfl, hcn⟩
        rcases mem_emplace.mp hc with rfl | hc
        · rfl
        · rw [← hcn, h.index_name hc] at hv
          exact absurd hv (by simp)
    · rw [Function.update_of_ne hn, h.index_iff]
      constructor
      · rintro ⟨c, hc, rfl, rfl⟩
        exact ⟨c, mem_emplace.mpr (Or.inr hc), rfl, rfl⟩
      · rintro ⟨c, hc, rfl, rfl⟩
        rcases mem_emplace.mp hc with rfl | hc
        · exact absurd rfl hn
        · exact ⟨c, hc, rfl, rfl⟩

/-- Replacing keeps the bijection. -/
theorem replace (h : Indexed name q) (v : V) : Indexed name (q.replace name key v) :=
  (h.erase (name v)).emplace (by rw [index_erase, Function.update_self])

/-- Popping the front cell with its index entry keeps the bijection. -/
theorem pop {c : Cell V} {cs : List (Cell V)} (h : Indexed name q) (hq : q.cells = c :: cs) :
    Indexed name { q with cells := cs, index := Function.update q.index (name c.value) none } := by
  have hc : c ∈ q.cells := hq ▸ List.mem_cons_self
  have hmem : ∀ d, d ∈ cs → d ∈ q.cells := fun d hd => hq ▸ List.mem_cons_of_mem c hd
  have hnodup := h.nodup
  rw [hq, List.map_cons, List.nodup_cons] at hnodup
  have hne : ∀ d ∈ cs, name d.value ≠ name c.value := by
    intro d hd hn
    have := (h.node_eq_iff (hmem d hd) (h.index_name hc)).mpr hn
    exact hnodup.1 (this ▸ List.mem_map_of_mem hd)
  exact
    { fresh := fun d hd => h.fresh d (hmem d hd)
      nodup := hnodup.2
      index_iff := by
        intro n it
        by_cases hn : n = name c.value
        · subst hn
          simp only [Function.update_self, reduceCtorEq, false_iff]
          rintro ⟨d, hd, -, hdn⟩
          exact hne d hd hdn
        · simp only [Function.update_of_ne hn]
          rw [h.index_iff]
          constructor
          · rintro ⟨d, hd, rfl, rfl⟩
            rcases List.mem_cons.mp (hq ▸ hd) with rfl | hd
            · exact absurd rfl hn
            · exact ⟨d, hd, rfl, rfl⟩
          · rintro ⟨d, hd, rfl, rfl⟩
            exact ⟨d, hmem d hd, rfl, rfl⟩ }

/-- Taking what is due keeps the bijection. -/
theorem takeDue (h : Indexed name q) : Indexed name (q.takeDue name due).2 := by
  obtain ⟨cells, index, nextNode⟩ := q
  induction cells generalizing index with
  | nil => exact h
  | cons c cs ih =>
      by_cases hc : due c.value
      · have hstep := ih _ (h.pop rfl)
        simpa [IndexedQueue.takeDue, takeCells, hc] using hstep
      · simpa [IndexedQueue.takeDue, takeCells, hc] using h

end Indexed

/-! ### The values -/

theorem values_erase (h : Indexed name q) (n : N) :
    (q.erase n).values = q.values.filter (name · ≠ n) := by
  rw [values, h.cells_erase n, values, List.filter_map]
  rfl

theorem values_emplace (v : V) : (q.emplace name key v).values =
    q.values.takeWhile (key · ≤ key v) ++ v :: q.values.dropWhile (key · ≤ key v) := by
  simp [values, emplace, List.takeWhile_map, List.dropWhile_map, Function.comp_def]

/-- Replacing takes the value of the name out, and puts the new one behind those with the same
key. -/
theorem values_replace (h : Indexed name q) (v : V) : (q.replace name key v).values =
    (q.values.filter (name · ≠ name v)).takeWhile (key · ≤ key v) ++ v ::
      (q.values.filter (name · ≠ name v)).dropWhile (key · ≤ key v) := by
  rw [replace, values_emplace, values_erase h]

/-- What is due is at the head of the queue. -/
theorem takeDue_values : (q.takeDue name due).1 = q.values.takeWhile due ∧
    (q.takeDue name due).2.values = q.values.dropWhile due := by
  obtain ⟨cells, index, nextNode⟩ := q
  induction cells generalizing index with
  | nil => exact ⟨rfl, rfl⟩
  | cons c cs ih =>
      by_cases hc : due c.value
      · have hstep := ih (Function.update index (name c.value) none)
        simp only [takeDue, values] at hstep
        simp [takeDue, takeCells, values, hc, hstep]
      · simp [takeDue, takeCells, values, hc]

theorem takeDue_fst : (q.takeDue name due).1 = q.values.takeWhile due := takeDue_values.1

theorem values_takeDue : (q.takeDue name due).2.values = q.values.dropWhile due :=
  takeDue_values.2

/-- The values after a replacement. -/
theorem mem_values_replace (h : Indexed name q) {v x : V} :
    x ∈ (q.replace name key v).values ↔ x = v ∨ x ∈ q.values ∧ name x ≠ name v := by
  have hsplit := List.takeWhile_append_dropWhile (p := fun x : V => key x ≤ key v)
    (l := q.values.filter (name · ≠ name v))
  rw [values_replace h, List.mem_append, List.mem_cons]
  constructor
  · rintro (hx | rfl | hx)
    · have := hsplit ▸ List.mem_append_left _ hx
      exact Or.inr (by simpa using this)
    · exact Or.inl rfl
    · have := hsplit ▸ List.mem_append_right _ hx
      exact Or.inr (by simpa using this)
  · rintro (rfl | hx)
    · exact Or.inr (Or.inl rfl)
    · have hx' : x ∈ q.values.filter (name · ≠ name v) := by simpa using hx
      rw [← hsplit, List.mem_append] at hx'
      rcases hx' with hx' | hx'
      · exact Or.inl hx'
      · exact Or.inr (Or.inr hx')

end IndexedQueue
