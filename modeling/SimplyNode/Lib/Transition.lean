import Mathlib.Data.List.Induction
import Mathlib.Data.Nat.Notation
import Mathlib.Logic.Relation

/-!
# Guarded Runs of Labelled Transition Systems

A system is a step relation `step : S → L → S → Prop` on states and labels. A **guard**
`ok : S → L → Prop` is a condition on the state before a step and on the label of the step,
and `Run step ok s ls s'` says that performing the labels `ls` in order leads from `s` to
`s'` with every step meeting the guard. Runs without a condition take the guard `fun _ _ =>
True`, for which `Reaches` is the abbreviation.

## Main results

* `Run.invariant`: a predicate kept by every guarded step holds at the end of every guarded
  run from a state where it holds.
* `Run.length_add_le`: a run is bounded by a weight that every step makes smaller.
* `exists_leave`: some run comes to the end of a condition.
* `Run.trans` and `Run.snoc`: runs compose and extend at the end.
* `Run.forget`: a guarded run is a run.
* `Run.throughout_iff`, `foldl_invariant_iff`: a guard that is exact for an invariant.
* `Run.invariant_of_ok`: the same rule for a partial step *function* `S → L → Except ε S`.
-/

namespace Transition

universe u v

variable {S : Type u} {L : Type v} {step : S → L → S → Prop} {ok : S → L → Prop}

/-- A run performing the labels of a list in order, every step meeting the guard `ok`. -/
inductive Run (step : S → L → S → Prop) (ok : S → L → Prop) : S → List L → S → Prop
  | nil (s : S) : Run step ok s [] s
  | cons {s s' s'' : S} {l : L} {ls : List L} :
      ok s l → step s l s' → Run step ok s' ls s'' → Run step ok s (l :: ls) s''

/-- A run without a condition on its steps. -/
abbrev Reaches (step : S → L → S → Prop) : S → List L → S → Prop :=
  Run step fun _ _ => True

/-- One guarded step is a run. -/
theorem Run.single {s s' : S} {l : L} (hok : ok s l) (h : step s l s') :
    Run step ok s [l] s' :=
  .cons hok h (.nil s')

/-- Runs compose. -/
theorem Run.trans {s s' s'' : S} {ls ls' : List L} (h : Run step ok s ls s')
    (h' : Run step ok s' ls' s'') : Run step ok s (ls ++ ls') s'' := by
  induction h with
  | nil => exact h'
  | cons hok hst _ ih => exact .cons hok hst (ih h')

/-- A run extends by one guarded step at its end. -/
theorem Run.snoc {s s' s'' : S} {ls : List L} {l : L} (h : Run step ok s ls s')
    (hok : ok s' l) (hst : step s' l s'') : Run step ok s (ls ++ [l]) s'' :=
  h.trans (.single hok hst)

/-- A guard can be exchanged for any weaker one. -/
theorem Run.mono {ok' : S → L → Prop} (hle : ∀ s l, ok s l → ok' s l) {s s' : S}
    {ls : List L} (h : Run step ok s ls s') : Run step ok' s ls s' := by
  induction h with
  | nil s => exact .nil s
  | cons hok hst _ ih => exact .cons (hle _ _ hok) hst ih

/-- **Strengthening a guard.** Where an invariant, kept by the steps that meet the guard,
makes the guard imply another one, the run meets the other one too. -/
theorem Run.strengthen {I : S → Prop} {ok' : S → L → Prop}
    (hstep : ∀ s l s', I s → ok s l → step s l s' → I s' ∧ ok' s l) {s s' : S} {ls : List L}
    (h : Run step ok s ls s') (h₀ : I s) : Run step ok' s ls s' := by
  induction h with
  | nil s => exact .nil s
  | cons hok hst _ ih =>
      obtain ⟨hI, hok'⟩ := hstep _ _ _ h₀ hok hst
      exact .cons hok' hst (ih hI)

/-- The steps of a run have its labels. -/
theorem Run.labelled {s s' : S} {ls : List L} (h : Run step ok s ls s') :
    Run step (fun u l => ok u l ∧ l ∈ ls) s ls s' := by
  induction h with
  | nil s => exact .nil s
  | cons hok hst _ ih =>
      exact .cons ⟨hok, List.mem_cons_self⟩ hst
        (ih.mono fun _ _ h => ⟨h.1, List.mem_cons_of_mem _ h.2⟩)

/-- The steps of a run stand in it, each behind the run that leads to it. -/
theorem Run.located {s s' : S} {ls : List L} (h : Run step ok s ls s') :
    Run step (fun u l => ∃ before after, ls = before ++ l :: after ∧ Run step ok s before u)
      s ls s' := by
  induction h with
  | nil s => exact .nil s
  | @cons s s' s'' l ls hok hst _ ih =>
      refine .cons ⟨[], ls, rfl, .nil s⟩ hst (ih.mono ?_)
      rintro u k ⟨before, after, rfl, hrun⟩
      exact ⟨l :: before, after, rfl, .cons hok hst hrun⟩

/-- A step that occurs in a run cuts it in two. -/
theorem Run.exists_step_of_mem {s s' : S} {ls : List L} {l : L} (h : Run step ok s ls s')
    (hl : l ∈ ls) : ∃ u u' ls₁ ls₂, Run step ok s ls₁ u ∧ ok u l ∧ step u l u' ∧
      Run step ok u' ls₂ s' := by
  induction h with
  | nil => exact absurd hl List.not_mem_nil
  | @cons s s' s'' k ks hok hst hrest ih =>
      rcases List.mem_cons.mp hl with rfl | hl
      · exact ⟨s, s', [], ks, .nil s, hok, hst, hrest⟩
      · obtain ⟨u, u', ls₁, ls₂, h₁, hok', hst', h₂⟩ := ih hl
        exact ⟨u, u', k :: ls₁, ls₂, .cons hok hst h₁, hok', hst', h₂⟩

/-- A guarded run meets another guard, too, or it contains a first step that meets its own guard
and breaks the other. -/
theorem Run.guarded_or_breaks_of_ok {ok' : S → L → Prop} {s s' : S} {ls : List L}
    (h : Run step ok s ls s') : Run step ok' s ls s' ∨
      ∃ u l u' ls₁ ls₂, Run step ok' s ls₁ u ∧ ok u l ∧ ¬ ok' u l ∧ step u l u' ∧
        Run step ok u' ls₂ s' := by
  induction h with
  | nil s => exact Or.inl (.nil s)
  | @cons s s' s'' l ls hok hst hrest ih =>
      by_cases hok' : ok' s l
      · rcases ih with ih | ⟨u, k, u', ls₁, ls₂, h₁, hmeets, hbreak, hstep, h₂⟩
        · exact Or.inl (.cons hok' hst ih)
        · exact Or.inr ⟨u, k, u', l :: ls₁, ls₂, .cons hok' hst h₁, hmeets, hbreak, hstep, h₂⟩
      · exact Or.inr ⟨s, l, s', [], ls, .nil s, hok, hok', hst, hrest⟩

/-- A run meets a guard, or it contains a first step that breaks it. -/
theorem Run.guarded_or_breaks {ok' : S → L → Prop} {s s' : S} {ls : List L}
    (h : Run step ok s ls s') : Run step ok' s ls s' ∨
      ∃ u l u' ls₁ ls₂, Run step ok' s ls₁ u ∧ ¬ ok' u l ∧ step u l u' ∧
        Run step ok u' ls₂ s' := by
  rcases h.guarded_or_breaks_of_ok with h | ⟨u, l, u', ls₁, ls₂, h₁, -, hbreak, hstep, h₂⟩
  · exact Or.inl h
  · exact Or.inr ⟨u, l, u', ls₁, ls₂, h₁, hbreak, hstep, h₂⟩

/-- Forgetting the guard of a run. -/
theorem Run.forget {s s' : S} {ls : List L} (h : Run step ok s ls s') :
    Reaches step s ls s' :=
  h.mono fun _ _ _ => trivial

/-- **The invariant rule.** A predicate that every guarded step keeps holds at the end of
every guarded run that starts where it holds. -/
theorem Run.invariant {I : S → Prop} (hstep : ∀ s l s', I s → ok s l → step s l s' → I s')
    {s s' : S} {ls : List L} (h : Run step ok s ls s') (h₀ : I s) : I s' := by
  induction h with
  | nil => exact h₀
  | cons hok hst _ ih => exact ih (hstep _ _ _ h₀ hok hst)

/-- **The measure rule.** Where every guarded step keeps an invariant and makes a weight smaller, a
run is no longer than the weight it begins with. -/
theorem Run.length_add_le {I : S → Prop} {weight : S → ℕ}
    (hstep : ∀ s l s', I s → ok s l → step s l s' → I s' ∧ weight s' < weight s) {s s' : S}
    {ls : List L} (h : Run step ok s ls s') (h₀ : I s) : ls.length + weight s' ≤ weight s := by
  induction h with
  | nil s => exact Nat.le_of_eq (Nat.zero_add _)
  | @cons s s' s'' l ls hok hst _ ih =>
      obtain ⟨hI, hlt⟩ := hstep s l s' h₀ hok hst
      have := ih hI
      rw [List.length_cons]
      omega

/-- **The progress rule.** Where some step leaves every state of a condition, and every step keeps
an invariant and makes a weight smaller, some run comes to a step that ends the condition. -/
theorem exists_leave {I P : S → Prop} {weight : S → ℕ}
    (hstep : ∀ s l s', I s → step s l s' → I s' ∧ weight s' < weight s)
    (hgo : ∀ s, I s → P s → ∃ l s', step s l s') {s : S} (h₀ : I s) (hp : P s) :
    ∃ ls u l v, Reaches step s ls u ∧ I u ∧ P u ∧ step u l v ∧ ¬P v := by
  induction hn : weight s using Nat.strongRecOn generalizing s with
  | ind n ih =>
      obtain ⟨l, s', hst⟩ := hgo s h₀ hp
      obtain ⟨h₁, hlt⟩ := hstep s l s' h₀ hst
      by_cases hp' : P s'
      · obtain ⟨ls, u, l', v, hrun, hu, hpu, hlast, hv⟩ := ih (weight s') (hn ▸ hlt) h₁ hp' rfl
        exact ⟨l :: ls, u, l', v, .cons trivial hst hrun, hu, hpu, hlast, hv⟩
      · exact ⟨[], s, l, s', .nil s, h₀, hp, hst, hp'⟩

/-- **An exact guard on a run.** Where a step keeps a condition exactly when it meets the guard, the
condition holds throughout a run exactly when every step of it meets the guard. -/
theorem Run.throughout_iff {I : S → Prop} (hstep : ∀ s l s', I s → step s l s' → (I s' ↔ ok s l))
    {s s' : S} {ls : List L} (h₀ : I s) :
    (Run step (fun u _ => I u) s ls s' ∧ I s') ↔ Run step ok s ls s' := by
  constructor
  · rintro ⟨h, hlast⟩
    induction h with
    | nil s => exact .nil s
    | cons hu hst hrest ih =>
        have hv := by
          cases hrest with
          | nil => exact hlast
          | cons hv _ _ => exact hv
        exact .cons ((hstep _ _ _ hu hst).mp hv) hst (ih hv hlast)
  · intro h
    induction h with
    | nil s => exact ⟨.nil s, h₀⟩
    | cons hok hst _ ih =>
        obtain ⟨hrest, hlast⟩ := ih ((hstep _ _ _ h₀ hst).mpr hok)
        exact ⟨.cons h₀ hst hrest, hlast⟩

/-- The step relation of a partial step function. -/
def ofFun {ε : Type*} (f : S → L → Except ε S) (s : S) (l : L) (s' : S) : Prop :=
  f s l = .ok s'

/-- A computation of a partial step function along a list of labels is a run. -/
theorem reaches_of_foldlM {ε : Type*} {f : S → L → Except ε S} {s s' : S} {ls : List L}
    (h : ls.foldlM f s = .ok s') : Reaches (ofFun f) s ls s' := by
  induction ls generalizing s with
  | nil =>
      obtain rfl := Except.ok.inj h
      exact .nil s
  | cons l ls ih =>
      rw [List.foldlM_cons] at h
      cases hl : f s l with
      | error e =>
          rw [hl] at h
          exact absurd h (by simp [bind, Except.bind])
      | ok s'' =>
          rw [hl] at h
          exact .cons trivial hl (ih h)

/-- Running a partial step function along a list of labels and observing the result. -/
theorem exists_reaches_of_map {ε : Type*} {β : Type*} (ls : List L)
    {f : S → L → Except ε S} {s : S} {g : S → β} {b : β} (h : (ls.foldlM f s).map g = .ok b) :
    ∃ s', Reaches (ofFun f) s ls s' ∧ g s' = b := by
  cases hs : ls.foldlM f s with
  | error e =>
      rw [hs] at h
      exact absurd h (by simp [Except.map])
  | ok s' =>
      rw [hs] at h
      exact ⟨s', reaches_of_foldlM hs, Except.ok.inj h⟩

/-- The invariant rule for a partial step function. -/
theorem Run.invariant_of_ok {ε : Type*} {f : S → L → Except ε S} {I : S → Prop}
    (hstep : ∀ s l s', I s → ok s l → f s l = .ok s' → I s') {s s' : S} {ls : List L}
    (h : Run (ofFun f) ok s ls s') (h₀ : I s) : I s' :=
  h.invariant hstep h₀

/-- **An exact guard.** Where a step keeps an invariant exactly when it meets the guard, the
invariant holds all along a computation exactly when every step of it meets the guard. -/
theorem foldl_invariant_iff {f : S → L → S} {I : S → Prop}
    (hstep : ∀ s l, I s → (I (f s l) ↔ ok s l)) {s : S} (h₀ : I s) (ls : List L) :
    (∀ before, before <+: ls → I (before.foldl f s)) ↔
      ∀ before l, before ++ [l] <+: ls → ok (before.foldl f s) l := by
  refine ⟨fun h before l hl => ?_, fun h before hbefore => ?_⟩
  · have hafter := h _ hl
    rw [List.foldl_append] at hafter
    exact (hstep _ l (h _ ((List.prefix_append _ _).trans hl))).mp hafter
  · induction before using List.reverseRecOn with
    | nil => exact h₀
    | append_singleton before l ih =>
        have hI := ih ((List.prefix_append _ _).trans hbefore)
        rw [List.foldl_append]
        exact (hstep _ l hI).mpr (h before l hbefore)

end Transition
