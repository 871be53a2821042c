import Mathlib.Logic.Function.Basic
import Mathlib.Data.Nat.Notation

/-!
# Tickets for the Entries of a Table

A table has at most one entry for each key. An entry has a stamp, which is different for every
entry that was ever made, and a flag. Tickets are handed out for an entry, which sets its flag, and
handed back, which resets it; between the two the entry may be removed, or replaced by one with
another stamp, and then the ticket is for an entry that is gone.

`Sound entry out next` says that the flags are truthful: an entry with its flag set has one ticket
out, and an entry without has none.

## Main results

* `Sound.enter`, `Sound.leave`, `Sound.issue`, `Sound.settle`, `Sound.discard`: what may be done
  with entries and tickets.
* `truthful_settleKey_iff`: a ticket that is handed back by its key alone leaves truthful flags iff
  the entry of the key is the one the ticket is for, or has its flag reset anyway.
-/

namespace Tickets

universe u

variable {κ : Type u}

/-- Every flag says whether a ticket is out for the entry, and no two are. -/
def Truthful (entry : κ → Option (ℕ × Bool)) (out : κ → ℕ → ℕ) : Prop :=
  ∀ k n f, entry k = some (n, f) → out k n = if f then 1 else 0

/-- The flags are truthful, and the stamps in use are below the next one. -/
structure Sound (entry : κ → Option (ℕ × Bool)) (out : κ → ℕ → ℕ) (next : ℕ) : Prop where
  truthful : Truthful entry out
  stamps : ∀ k n f, entry k = some (n, f) → n < next
  tickets : ∀ k n, 0 < out k n → n < next

variable {entry entry' : κ → Option (ℕ × Bool)} {out out' : κ → ℕ → ℕ} {next : ℕ} {k : κ}
  {n : ℕ}

/-- An empty table. -/
theorem sound_empty (next : ℕ) : Sound (fun _ : κ => none) (fun _ _ => 0) next where
  truthful _ _ _ h := absurd h (by simp)
  stamps _ _ _ h := absurd h (by simp)
  tickets _ _ h := absurd h (by omega)

/-- An entry with a ticket out for it has its flag set. -/
theorem Sound.flag_of_out (h : Sound entry out next) {f : Bool} (he : entry k = some (n, f))
    (ho : 0 < out k n) : f = true := by
  have hcount := h.truthful k n f he
  cases f with
  | true => rfl
  | false =>
      rw [if_neg Bool.false_ne_true] at hcount
      omega

/-- Nothing of what the flags say changes. -/
theorem Sound.congr (h : Sound entry out next) (he : ∀ j, entry' j = entry j)
    (ho : ∀ j m, out' j m = out j m) : Sound entry' out' next := by
  obtain rfl : entry' = entry := funext he
  obtain rfl : out' = out := funext fun j => funext (ho j)
  exact h

/-- **An entry is made**, or replaced, with the next stamp and its flag reset. -/
theorem Sound.enter (h : Sound entry out next) (hk : entry' k = some (next, false))
    (he : ∀ j, j ≠ k → entry' j = entry j) : Sound entry' out (next + 1) where
  truthful j m f hj := by
    by_cases hjk : j = k
    · subst hjk
      obtain ⟨rfl, rfl⟩ := Prod.mk.inj (Option.some.inj (hk.symm.trans hj))
      -- no ticket can be out for a stamp that has not been given yet
      have hnot : ¬ 0 < out j next := fun hpos => Nat.lt_irrefl _ (h.tickets j next hpos)
      rw [if_neg Bool.false_ne_true]
      omega
    · exact h.truthful j m f ((he j hjk).symm.trans hj)
  stamps j m f hj := by
    by_cases hjk : j = k
    · subst hjk
      obtain ⟨rfl, -⟩ := Prod.mk.inj (Option.some.inj (hk.symm.trans hj))
      exact Nat.lt_succ_self _
    · exact Nat.lt_succ_of_lt (h.stamps j m f ((he j hjk).symm.trans hj))
  tickets j m hm := Nat.lt_succ_of_lt (h.tickets j m hm)

/-- **An entry is removed**; tickets for its key may go with it. -/
theorem Sound.leave (h : Sound entry out next) (hk : entry' k = none)
    (he : ∀ j, j ≠ k → entry' j = entry j) (ho : ∀ j m, j ≠ k → out' j m = out j m)
    (hle : ∀ m, out' k m ≤ out k m) : Sound entry' out' next where
  truthful j m f hj := by
    have hjk : j ≠ k := by
      rintro rfl
      exact absurd (hk.symm.trans hj) (by simp)
    rw [ho j m hjk]
    exact h.truthful j m f ((he j hjk).symm.trans hj)
  stamps j m f hj := by
    have hjk : j ≠ k := by
      rintro rfl
      exact absurd (hk.symm.trans hj) (by simp)
    exact h.stamps j m f ((he j hjk).symm.trans hj)
  tickets j m hm := by
    by_cases hjk : j = k
    · subst hjk
      have := hle m
      exact h.tickets j m (by omega)
    · rw [ho j m hjk] at hm
      exact h.tickets j m hm

/-- The flag of one entry changes together with the tickets for it. -/
theorem Sound.change (h : Sound entry out next) {f f' : Bool} (hold : entry k = some (n, f))
    (hk : entry' k = some (n, f')) (he : ∀ j, j ≠ k → entry' j = entry j)
    (hn : out' k n = if f' then 1 else 0)
    (ho : ∀ j m, ¬ (j = k ∧ m = n) → out' j m = out j m) : Sound entry' out' next where
  truthful j m g hj := by
    by_cases hjk : j = k
    · subst hjk
      obtain ⟨rfl, rfl⟩ := Prod.mk.inj (Option.some.inj (hk.symm.trans hj))
      exact hn
    · rw [ho j m fun hand => hjk hand.1]
      exact h.truthful j m g ((he j hjk).symm.trans hj)
  stamps j m g hj := by
    by_cases hjk : j = k
    · subst hjk
      obtain ⟨rfl, -⟩ := Prod.mk.inj (Option.some.inj (hk.symm.trans hj))
      exact h.stamps j n f hold
    · exact h.stamps j m g ((he j hjk).symm.trans hj)
  tickets j m hm := by
    by_cases hand : j = k ∧ m = n
    · obtain ⟨rfl, rfl⟩ := hand
      exact h.stamps j m f hold
    · rw [ho j m hand] at hm
      exact h.tickets j m hm

/-- **A ticket is handed out** for an entry whose flag is not set. -/
theorem Sound.issue (h : Sound entry out next) (hold : entry k = some (n, false))
    (hk : entry' k = some (n, true)) (he : ∀ j, j ≠ k → entry' j = entry j)
    (hn : out' k n = out k n + 1) (ho : ∀ j m, ¬ (j = k ∧ m = n) → out' j m = out j m) :
    Sound entry' out' next := by
  refine h.change hold hk he ?_ ho
  have hzero := h.truthful k n false hold
  rw [if_neg Bool.false_ne_true] at hzero
  rw [if_pos rfl, hn, hzero]

/-- **A ticket is handed back** to the entry it is for. -/
theorem Sound.settle (h : Sound entry out next) {f : Bool} (hold : entry k = some (n, f))
    (hk : entry' k = some (n, false)) (he : ∀ j, j ≠ k → entry' j = entry j)
    (hn : out' k n + 1 = out k n) (ho : ∀ j m, ¬ (j = k ∧ m = n) → out' j m = out j m) :
    Sound entry' out' next := by
  refine h.change hold hk he ?_ ho
  have hf : f = true := h.flag_of_out hold (by omega)
  have hone := h.truthful k n f hold
  rw [hf, if_pos rfl] at hone
  rw [if_neg Bool.false_ne_true]
  omega

/-- **A ticket is thrown away** whose entry is gone. -/
theorem Sound.discard (h : Sound entry out next) (hk : ∀ f, entry k ≠ some (n, f))
    (hle : out' k n ≤ out k n) (ho : ∀ j m, ¬ (j = k ∧ m = n) → out' j m = out j m) :
    Sound entry out' next where
  truthful j m f hj := by
    have hne : ¬ (j = k ∧ m = n) := by
      rintro ⟨rfl, rfl⟩
      exact hk f hj
    rw [ho j m hne]
    exact h.truthful j m f hj
  stamps := h.stamps
  tickets j m hm := by
    by_cases hand : j = k ∧ m = n
    · obtain ⟨rfl, rfl⟩ := hand
      exact h.tickets j m (by omega)
    · rw [ho j m hand] at hm
      exact h.tickets j m hm

/-- **A ticket that is handed back by its key alone**, whatever entry the key has by now, leaves
truthful flags iff that entry is the one the ticket is for, or its flag is not set. -/
theorem truthful_settleKey_iff (h : Sound entry out next)
    (hk : entry' k = (entry k).map fun x => (x.1, false))
    (he : ∀ j, j ≠ k → entry' j = entry j) (hn : out' k n + 1 = out k n)
    (ho : ∀ j m, ¬ (j = k ∧ m = n) → out' j m = out j m) :
    Truthful entry' out' ↔ ∀ m f, entry k = some (m, f) → m = n ∨ f = false := by
  constructor
  · intro htruth m f hm
    by_contra hnot
    simp only [not_or, Bool.not_eq_false] at hnot
    obtain ⟨hmn, rfl⟩ := hnot
    have hzero : out' k m = 0 := htruth k m false (by rw [hk, hm]; rfl)
    have hone : out k m = 1 := h.truthful k m true hm
    rw [ho k m fun hand => hmn hand.2] at hzero
    omega
  · intro hok j m g hj
    by_cases hjk : j = k
    · subst hjk
      rw [hk] at hj
      obtain ⟨⟨m', f⟩, hm, heq⟩ := Option.map_eq_some_iff.mp hj
      obtain ⟨hm', hg⟩ : m' = m ∧ false = g := Prod.mk.inj heq
      subst hm' hg
      have hcount := h.truthful j m' f hm
      rw [if_neg Bool.false_ne_true]
      by_cases hmn : m' = n
      · subst hmn
        have hf : f = true := h.flag_of_out hm (by omega)
        rw [hf, if_pos rfl] at hcount
        omega
      · have hf : f = false := (hok m' f hm).resolve_left hmn
        rw [ho j m' fun hand => hmn hand.2, hcount, hf]
        rfl
    · rw [ho j m fun hand => hjk hand.1]
      exact h.truthful j m g ((he j hjk).symm.trans hj)

end Tickets
