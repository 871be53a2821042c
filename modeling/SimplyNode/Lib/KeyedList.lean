import Mathlib.Data.List.Nodup
import Mathlib.Tactic.Tauto

/-!
# Lists of Keys and Values

A hash map as the list of its pairs in the order in which it is iterated. No key occurs twice, so
that a key is looked up by membership; an assignment changes the value of a key or adds one.

## Main results

* `lookup_eq_some_iff_mem`: looking up is membership.
* `mem_assign_iff`, `nodup_assign`: an assignment.
* `perm_eraseP`: an erased key.
-/

namespace KeyedList

universe u v

variable {K : Type u} {V : Type v}

/-- No key occurs twice. -/
def Distinct (l : List (K × V)) : Prop := (l.map Prod.fst).Nodup

theorem Distinct.perm {l l' : List (K × V)} (h : Distinct l) (hperm : l.Perm l') : Distinct l' :=
  (hperm.map Prod.fst).nodup_iff.mp h

variable [DecidableEq K]

/-- Looking up is membership. -/
theorem lookup_eq_some_iff_mem {l : List (K × V)} (h : Distinct l) {k : K} {v : V} :
    l.lookup k = some v ↔ (k, v) ∈ l := by
  induction l with
  | nil => simp
  | cons e l ih =>
      obtain ⟨k', v'⟩ := e
      obtain ⟨hnew, hdistinct⟩ := List.nodup_cons.mp h
      rw [List.lookup_cons, List.mem_cons, ← ih hdistinct, Prod.mk.injEq]
      by_cases hk : k = k'
      · subst hk
        have hother : ¬l.lookup k = some v := fun hsome =>
          hnew (List.mem_map.mpr ⟨(k, v), (ih hdistinct).mp hsome, rfl⟩)
        rw [beq_self_eq_true, Option.some.injEq]
        exact ⟨fun heq => Or.inl ⟨rfl, heq.symm⟩, fun hor => (hor.resolve_right hother).2.symm⟩
      · rw [beq_eq_false_iff_ne.mpr hk]
        exact ⟨Or.inr, fun hor => hor.resolve_left fun heq => hk heq.1⟩

theorem lookup_eq_none_iff_notMem {l : List (K × V)} {k : K} :
    l.lookup k = none ↔ k ∉ l.map Prod.fst := by
  rw [List.lookup_eq_none_iff, List.mem_map]
  refine ⟨?_, fun h e he => bne_iff_ne.mpr fun hk => h ⟨e, he, hk.symm⟩⟩
  rintro h ⟨e, he, rfl⟩
  exact bne_iff_ne.mp (h e he) rfl

/-- `map[key] = f(map[key])`: the value of a key is changed, or the key is added. -/
def assign (k : K) (f : Option V → V) : List (K × V) → List (K × V)
  | [] => [(k, f none)]
  | (k', v) :: l => if k' = k then (k', f (some v)) :: l else (k', v) :: assign k f l

/-- An assignment at a pair: its key is the one, or the rest is looked through. -/
theorem assign_cons (k : K) (f : Option V → V) (k' : K) (v : V) (l : List (K × V)) :
    assign k f ((k', v) :: l) =
      if k' = k then (k', f (some v)) :: l else (k', v) :: assign k f l :=
  rfl

/-- An assignment adds its key. -/
theorem keys_assign (k : K) (f : Option V → V) (l : List (K × V)) (k' : K) :
    k' ∈ (assign k f l).map Prod.fst ↔ k' = k ∨ k' ∈ l.map Prod.fst := by
  induction l with
  | nil => simp [assign]
  | cons e l ih =>
      obtain ⟨k'', v⟩ := e
      rw [assign_cons]
      split
      · rename_i heq
        subst heq
        simp
      · rw [List.map_cons, List.mem_cons, ih, List.map_cons, List.mem_cons]
        exact or_left_comm

/-- An assignment keeps the keys distinct. -/
theorem nodup_assign {l : List (K × V)} (h : Distinct l) (k : K) (f : Option V → V) :
    Distinct (assign k f l) := by
  induction l with
  | nil => exact List.nodup_singleton k
  | cons e l ih =>
      obtain ⟨k', v⟩ := e
      obtain ⟨hnew, hdistinct⟩ := List.nodup_cons.mp h
      rw [assign_cons]
      split
      · exact h
      · rename_i hne
        refine List.nodup_cons.mpr ⟨fun hmem => ?_, ih hdistinct⟩
        exact ((keys_assign k f l k').mp hmem).elim hne hnew

/-- **What an assignment makes of the pairs.** -/
theorem mem_assign_iff {l : List (K × V)} (h : Distinct l) {k : K} {f : Option V → V} {k' : K}
    {v : V} : (k', v) ∈ assign k f l ↔
      k' = k ∧ v = f (l.lookup k) ∨ k' ≠ k ∧ (k', v) ∈ l := by
  induction l with
  | nil => simp [assign]
  | cons e l ih =>
      obtain ⟨k'', w⟩ := e
      obtain ⟨hnew, hdistinct⟩ := List.nodup_cons.mp h
      rw [assign_cons, List.lookup_cons]
      split
      · rename_i heq
        subst heq
        rw [beq_self_eq_true, List.mem_cons, List.mem_cons, Prod.mk.injEq, Prod.mk.injEq]
        have hother : (k', v) ∈ l → k' ≠ k'' := by
          rintro hmem rfl
          exact hnew (List.mem_map.mpr ⟨(k', v), hmem, rfl⟩)
        tauto
      · rename_i hne
        rw [beq_eq_false_iff_ne.mpr (Ne.symm hne), List.mem_cons, List.mem_cons, ih hdistinct,
          Prod.mk.injEq]
        have hother : k' = k'' ∧ v = w → k' ≠ k := fun heq hk => hne (heq.1 ▸ hk)
        tauto

/-- **What is erased**: the pair of a key, and no other. -/
theorem perm_eraseP {l : List (K × V)} {k : K} {v : V} (h : l.lookup k = some v) :
    l.Perm ((k, v) :: l.eraseP (·.1 = k)) := by
  induction l with
  | nil => cases h
  | cons e l ih =>
      obtain ⟨k', v'⟩ := e
      rw [List.lookup_cons] at h
      by_cases hk : k' = k
      · subst hk
        rw [beq_self_eq_true] at h
        obtain rfl := Option.some.inj h
        have hfirst : ((k', v') :: l).eraseP (·.1 = k') = l :=
          List.eraseP_cons_of_pos (decide_eq_true rfl)
        rw [hfirst]
      · rw [beq_eq_false_iff_ne.mpr (Ne.symm hk)] at h
        rw [List.eraseP_cons_of_neg (by simpa using hk)]
        exact ((ih h).cons _).trans (List.Perm.swap _ _ _)

end KeyedList
