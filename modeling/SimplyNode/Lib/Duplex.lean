import SimplyNode.Lib.Transition

/-!
# Two Parties and the Streams between Them

Two parties of one kind, each with a stream to the other one. A party takes its steps alone. With a
step it gets some of what is on its way to it, in order, and puts something on the way to the other
party. The steps of the two parties come in any order.

## Main results

* `Duplex.step_advance`: a step of one party is one of the two.
* `Duplex.Conserves.step`: what has been received and what is on its way is what was sent.
* `Duplex.invariant`: what the steps of one party keep holds of both parties in every run.
-/

namespace Transition

universe u v w

/-- The two ends of a connection. -/
inductive Side
  | client
  | server
  deriving DecidableEq

/-- The other end. -/
def Side.other : Side → Side
  | .client => .server
  | .server => .client

/-- The other side of the other side. -/
@[simp]
theorem Side.other_other (side : Side) : side.other.other = side := by cases side <;> rfl

/-- There are two sides. -/
theorem Side.eq_or_other (side s : Side) : s = side ∨ s = side.other := by
  cases side <;> cases s <;> decide

/-- No side is its own other side. -/
theorem Side.other_ne (side : Side) : side.other ≠ side := by cases side <;> decide

/-- A kind of party. -/
structure Party (σ : Type u) (E : Type v) (α : Type w) where
  /-- A step of the party. -/
  takes : σ → E → σ → Prop
  /-- What the party gets with an event. -/
  got : E → List α
  /-- All that the party has sent. -/
  sent : σ → List α
  /-- What the event says about the other party, and about what is still on its way behind it. -/
  sees : E → σ → List α → Prop

/-- Two parties, with what each of them has received and what is on its way to it. -/
structure Duplex (σ : Type u) (α : Type w) where
  party : Side → σ
  received : Side → List α
  coming : Side → List α

namespace Duplex

variable {σ : Type u} {E : Type v} {α : Type w} {P : Party σ E α} {d next : Duplex σ α}
  {l : Side × E}

/-- **A step of one of the two parties.** -/
structure Step (P : Party σ E α) (d : Duplex σ α) (l : Side × E) (next : Duplex σ α) : Prop where
  takes : P.takes (d.party l.1) l.2 (next.party l.1)
  other : next.party l.1.other = d.party l.1.other
  coming : d.coming l.1 = P.got l.2 ++ next.coming l.1
  received : next.received l.1 = d.received l.1 ++ P.got l.2
  unchanged : next.received l.1.other = d.received l.1.other
  sees : P.sees l.2 (d.party l.1.other) (next.coming l.1)
  sends : ∃ more, P.sent (next.party l.1) = P.sent (d.party l.1) ++ more ∧
    next.coming l.1.other = d.coming l.1.other ++ more

/-- The party takes a step: what is left on the way to it, and what it puts on the way. -/
def advance (d : Duplex σ α) (side : Side) (s : σ) (got rest more : List α) : Duplex σ α where
  party x := if x = side then s else d.party x
  received x := if x = side then d.received x ++ got else d.received x
  coming x := if x = side then rest else d.coming x ++ more

/-- A step of one side as a step of both. -/
theorem step_advance (rest more : List α) {side : Side} {e : E} {s : σ}
    (htakes : P.takes (d.party side) e s) (hcoming : d.coming side = P.got e ++ rest)
    (hsees : P.sees e (d.party side.other) rest)
    (hsent : P.sent s = P.sent (d.party side) ++ more) :
    Step P d (side, e) (d.advance side s (P.got e) rest more) := by
  cases side with
  | _ => exact ⟨htakes, rfl, hcoming, rfl, rfl, hsees, more, hsent, rfl⟩

/-- Nothing is lost on the way, and nothing comes from elsewhere. -/
def Conserves (P : Party σ E α) (d : Duplex σ α) : Prop :=
  ∀ side, d.received side ++ d.coming side = P.sent (d.party side.other)

/-- **The streams are conserved.** -/
theorem Conserves.step (h : Conserves P d) (hstep : Step P d l next) : Conserves P next := by
  obtain ⟨side, e⟩ := l
  obtain ⟨-, hother, hcoming, hreceived, hunchanged, -, more, hsent, hmore⟩ := hstep
  dsimp only at hother hcoming hreceived hunchanged hsent hmore
  intro s
  rcases side.eq_or_other s with rfl | rfl
  · have hbefore := h s
    rw [hcoming, ← List.append_assoc] at hbefore
    rw [hreceived, hother]
    exact hbefore
  · have hbefore := h side.other
    rw [Side.other_other] at hbefore ⊢
    rw [hunchanged, hmore, hsent, ← hbefore, List.append_assoc]

/-- What the steps of one party keep. -/
theorem keeps_step {I : Side → σ → List α → Prop}
    (hkeeps : ∀ side s e s' r, I side s r → P.takes s e s' → I side s' (r ++ P.got e))
    (h : ∀ side, I side (d.party side) (d.received side)) (hstep : Step P d l next) (side : Side) :
    I side (next.party side) (next.received side) := by
  rcases l.1.eq_or_other side with heq | heq
  · rw [heq, hstep.received]
    exact hkeeps _ _ _ _ _ (h l.1) hstep.takes
  · rw [heq, hstep.other, hstep.unchanged]
    exact h l.1.other

/-- **What the steps of one party keep holds of both parties**, in every run. -/
theorem invariant {I : Side → σ → List α → Prop} {ok : Duplex σ α → Side × E → Prop}
    (hkeeps : ∀ side s e s' r, I side s r → P.takes s e s' → I side s' (r ++ P.got e))
    {d₀ d : Duplex σ α} {ls : List (Side × E)}
    (h₀ : ∀ side, I side (d₀.party side) (d₀.received side)) (hconserves : Conserves P d₀)
    (hrun : Run (Step P) ok d₀ ls d) :
    (∀ side, I side (d.party side) (d.received side)) ∧ Conserves P d := by
  refine hrun.invariant (I := fun d => (∀ side, I side (d.party side) (d.received side)) ∧
    Conserves P d) ?_ ⟨h₀, hconserves⟩
  intro u l v hu _ hstep
  exact ⟨keeps_step hkeeps hu.1 hstep, hu.2.step hstep⟩

end Duplex

end Transition
