import SimplyNode.Lib.Transition

/-!
# Calls That Call Back

A component has a state and calls. A call is a list of pieces of code, each of which runs without
interruption; between two of them the slots of a signal may run, and the slots may make any calls of
the component again, to any depth. What is still to be run is a stack.

A piece of code changes the state and leaves more to be run, at its place in the stack. Whoever uses
the component is in control where the stack is empty, or where slots are at its top.

## Main results

* `Component.invariant`: what every piece of code keeps holds in every run.
* `Component.owed`: a condition that holds whenever nothing on the stack owes it.
* `Component.throughout_iff`: a condition that is kept exactly by those pieces of code that meet a
  guard.
-/

universe u v w x y

namespace Transition

/-- What is to be run: a piece of code, or the slots of a signal. -/
inductive Item (K : Type w)
  | code (k : K)
  | slots
  deriving DecidableEq

/-- What is to be run, on a thread. -/
def Item.tag {W : Type y} {K : Type w} (w : W) : Item K → Item (W × K)
  | .code k => .code (w, k)
  | .slots => .slots

/-- A component: the code of its calls, and what a piece of code does with an answer from
outside. -/
structure Component (σ : Type u) (C : Type v) (K : Type w) (A : Type x) where
  entry : C → List (Item K)
  exec : σ → K → A → Option (σ × List (Item K))

/-- The state of a component, and what is to be run. -/
structure Activity (σ : Type u) (K : Type w) where
  state : σ
  stack : List (Item K)

/-- A call begins, a piece of code runs with an answer, or slots return. -/
inductive Activity.Event (C : Type v) (A : Type x)
  | call (c : C)
  | exec (a : A)
  | slotsReturn

namespace Component

variable {σ : Type u} {C : Type v} {K : Type w} {A : Type x} {P : Component σ C K A}

/-- The user of the component is in control. -/
def Idle (stack : List (Item K)) : Prop := ∀ k rest, stack ≠ .code k :: rest

/-- **One step.** -/
inductive Step (P : Component σ C K A) :
    Activity σ K → Activity.Event C A → Activity σ K → Prop
  | call {s : σ} {stack : List (Item K)} (c : C) :
      Idle stack → Step P ⟨s, stack⟩ (.call c) ⟨s, P.entry c ++ stack⟩
  | exec {s s' : σ} {k : K} {a : A} {more stack : List (Item K)} :
      P.exec s k a = some (s', more) →
      Step P ⟨s, .code k :: stack⟩ (.exec a) ⟨s', more ++ stack⟩
  | slotsReturn {s : σ} {stack : List (Item K)} :
      Step P ⟨s, .slots :: stack⟩ .slotsReturn ⟨s, stack⟩

variable {ok : Activity σ K → Activity.Event C A → Prop} {c₀ c : Activity σ K}
  {es : List (Activity.Event C A)}

/-- A piece of code keeps its thread. -/
theorem mem_map_tag {W : Type y} (w : W) {k : K} {more : List (Item K)} (h : .code k ∈ more) :
    .code (w, k) ∈ more.map (Item.tag w) :=
  List.mem_map_of_mem h

/-- With an empty stack the user is in control. -/
theorem idle_nil : Idle ([] : List (Item K)) := fun k rest => (List.cons_ne_nil (.code k) rest).symm

/-- The user is in control of slots. -/
theorem idle_slots (rest : List (Item K)) : Idle (.slots :: rest) := fun _ _ heq => by
  cases heq

/-- **What every piece of code keeps** holds in every run. -/
theorem invariant {I : σ → Prop}
    (hexec : ∀ s k a s' more, I s → P.exec s k a = some (s', more) → I s')
    (h : Run (Step P) ok c₀ es c) (h₀ : I c₀.state) : I c.state := by
  refine h.invariant (I := fun c => I c.state) ?_ h₀
  intro u e v hu _ hst
  cases hst with
  | call => exact hu
  | exec hs => exact hexec _ _ _ _ _ hu hs
  | slotsReturn => exact hu

/-- The condition holds, or something on the stack owes it. -/
def Owed (I : σ → Prop) (owes : K → Prop) (c : Activity σ K) : Prop :=
  I c.state ∨ ∃ k, owes k ∧ .code k ∈ c.stack

/-- **What is owed.** A piece of code that finds the condition keeps it, or leaves code that owes
it; and one that owes it does the same in any case. Then the condition holds wherever nothing on
the stack owes it. -/
theorem owed {I : σ → Prop} {owes : K → Prop}
    (hexec : ∀ c k a s' more stack, ok c (.exec a) → c.stack = .code k :: stack →
      I c.state ∨ owes k → P.exec c.state k a = some (s', more) →
        I s' ∨ ∃ k', owes k' ∧ .code k' ∈ more)
    (h : Run (Step P) ok c₀ es c) (h₀ : Owed I owes c₀) : Owed I owes c := by
  refine h.invariant ?_ h₀
  rintro u e v hu hok hst
  cases hst with
  | call => exact hu.imp_right fun ⟨k, hk, hmem⟩ => ⟨k, hk, List.mem_append_right _ hmem⟩
  | @exec s s' k a more stack hs =>
      have hstep (hpays : I s ∨ owes k) : Owed I owes ⟨s', more ++ stack⟩ :=
        (hexec ⟨s, .code k :: stack⟩ k a s' more stack hok rfl hpays hs).imp_right
          fun ⟨k', hk', hmem⟩ => ⟨k', hk', List.mem_append_left _ hmem⟩
      rcases hu with hu | ⟨k', hk', hmem⟩
      · exact hstep (.inl hu)
      · rcases List.mem_cons.mp hmem with heq | hmem
        · obtain rfl := Item.code.inj heq
          exact hstep (.inr hk')
        · exact .inr ⟨k', hk', List.mem_append_right _ hmem⟩
  | slotsReturn =>
      refine hu.imp_right fun ⟨k, hk, hmem⟩ => ⟨k, hk, ?_⟩
      exact (List.mem_cons.mp hmem).resolve_left fun heq => by cases heq

/-- The condition holds in front of the step. -/
def Holds (I : σ → Prop) (c : Activity σ K) (_ : Activity.Event C A) : Prop := I c.state

/-- The piece of code that runs meets the guard. -/
def Meets (guard : σ → K → Prop) (c : Activity σ K) (_ : Activity.Event C A) : Prop :=
  ∀ k stack, c.stack = .code k :: stack → guard c.state k

/-- Where no code runs the guard is met. -/
theorem meets_of_idle {guard : σ → K → Prop} (h : Idle c.stack) (e : Activity.Event C A) :
    Meets guard c e := fun k stack heq => absurd heq (h k stack)

/-- The guard is that of the piece of code that runs. -/
theorem meets_code {guard : σ → K → Prop} {k : K} {rest : List (Item K)}
    (hstack : c.stack = .code k :: rest) (h : guard c.state k) (e : Activity.Event C A) :
    Meets guard c e := by
  intro k' stack heq
  obtain rfl := Item.code.inj (List.cons.inj (hstack.symm.trans heq)).1
  exact h

/-- **An exact guard.** Where a piece of code keeps a condition exactly when it meets the guard, the
condition holds throughout a run exactly when all the code that has run meets the guard. -/
theorem throughout_iff {I : σ → Prop} {guard : σ → K → Prop}
    (hexec : ∀ s k a s' more, I s → P.exec s k a = some (s', more) → (I s' ↔ guard s k))
    (h₀ : I c₀.state) :
    (Run (Step P) (Holds I) c₀ es c ∧ I c.state) ↔ Run (Step P) (Meets guard) c₀ es c := by
  refine Run.throughout_iff (I := fun u : Activity σ K => I u.state) ?_ h₀
  intro u e v hu hst
  cases hst with
  | call _ hidle => exact iff_of_true hu (meets_of_idle hidle _)
  | @exec s s' k a more stack hs =>
      refine (hexec s k a s' more hu hs).trans ⟨fun hk => ?_, fun hmeets => ?_⟩
      · exact meets_code rfl hk _
      · exact hmeets k stack rfl
  | slotsReturn => exact iff_of_true hu (meets_of_idle (idle_slots _) _)

end Component

end Transition
