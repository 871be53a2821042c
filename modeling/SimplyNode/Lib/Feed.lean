import Mathlib.Data.List.Induction

/-!
# Feeding a Stream in Pieces

A consumer of a byte stream has a state and an operation `feed : S → List B → S` that hands it
the next bytes. A stream that arrives in pieces is fed piece by piece, `feedAll`, and the
question is whether the consumer ends where it would have ended on the whole stream at once.
Two states are compared by a relation `r`, since a consumer that has given up need not keep
the bytes it no longer looks at.

The consumer **resumes** after the bytes `a` (`Resumes`) when a cut behind them cannot be
noticed, whatever follows. A stream may be cut wherever the consumer resumes.

## Main results

* `feedAll_related`: pieces are as good as the whole stream when the consumer resumes behind
  every proper prefix of the pieces.
* `Resumes.of_append`: for a consumer that appends what it is given to a buffer and then
  advances, a cut is harmless when the advance can be interrupted.
-/

namespace Feed

universe u v

variable {S : Type u} {B : Type v}

/-- Feeding the pieces of a stream one after the other. -/
def feedAll (feed : S → List B → S) (s : S) (pieces : List (List B)) : S :=
  pieces.foldl feed s

section Rules

variable {feed : S → List B → S} {r : S → S → Prop}

/-- Without pieces nothing changes. -/
@[simp] theorem feedAll_nil (s : S) : feedAll feed s [] = s := rfl

/-- The first piece is fed first. -/
@[simp] theorem feedAll_cons (s : S) (piece : List B) (pieces : List (List B)) :
    feedAll feed s (piece :: pieces) = feedAll feed (feed s piece) pieces := rfl

/-- What is fed in two parts is fed in one. -/
theorem feedAll_append (s : S) (xs ys : List (List B)) :
    feedAll feed s (xs ++ ys) = feedAll feed (feedAll feed s xs) ys :=
  List.foldl_append

/-- The consumer resumes after the bytes `a`: whatever follows may come in a piece of its
own. -/
def Resumes (feed : S → List B → S) (r : S → S → Prop) (s : S) (a : List B) : Prop :=
  ∀ b, r (feed (feed s a) b) (feed s (a ++ b))

/-- **Cuts where the consumer resumes go unnoticed.** -/
theorem feedAll_related (hr : Equivalence r)
    (hcongr : ∀ s t b, r s t → r (feed s b) (feed t b)) {s : S} (hnil : r (feed s []) s)
    {pieces : List (List B)}
    (hcuts : ∀ xs ys, pieces = xs ++ ys → xs ≠ [] → ys ≠ [] → Resumes feed r s xs.flatten) :
    r (feedAll feed s pieces) (feed s pieces.flatten) := by
  -- the last piece is fed to a state related to the one after all the bytes before it
  induction pieces using List.reverseRecOn with
  | nil => exact hr.symm hnil
  | append_singleton xs y ih =>
      rw [feedAll_append, feedAll_cons, feedAll_nil, List.flatten_append,
        List.flatten_singleton]
      rcases eq_or_ne xs [] with rfl | hxs
      · exact hr.refl _
      · have hxs' : r (feedAll feed s xs) (feed s xs.flatten) := by
          refine ih fun ws zs hws hne hzs => ?_
          refine hcuts ws (zs ++ [y]) ?_ hne (List.append_ne_nil_of_right_ne_nil zs (by simp))
          rw [hws, List.append_assoc]
        have hcut : Resumes feed r s xs.flatten :=
          hcuts xs [y] rfl hxs (List.cons_ne_nil y [])
        exact hr.trans (hcongr _ _ y hxs') (hcut y)

end Rules

section Buffered

variable {r : S → S → Prop} {push : S → List B → S} {advance : S → S} {failed : S → Prop}
  [DecidablePred failed]

/-- A consumer with a buffer: unless it has failed, it appends the bytes and advances as far
as the buffer allows. -/
def buffered (push : S → List B → S) (advance : S → S) (failed : S → Prop)
    [DecidablePred failed] (s : S) (b : List B) : S :=
  if failed s then s else advance (push s b)

/-- **Interrupting a buffered consumer.** When the advance may be interrupted behind the bytes
`a` and a failed state no longer changes, a cut behind `a` goes unnoticed. -/
theorem Resumes.of_append (hr : Equivalence r)
    (hpush : ∀ s a b, push (push s a) b = push s (a ++ b))
    (hfailed : ∀ s b, failed s → r s (advance (push s b))) {s : S} {a : List B}
    (hstep : ∀ b, advance (push (advance (push s a)) b) = advance (push (push s a) b)) :
    Resumes (buffered push advance failed) r s a := by
  intro b
  by_cases hs : failed s
  · simp only [buffered, hs, if_true]
    exact hr.refl s
  · have hwhole : buffered push advance failed s (a ++ b)
        = advance (push (advance (push s a)) b) := by
      rw [buffered, if_neg hs, ← hpush, hstep]
    have hfirst : buffered push advance failed s a = advance (push s a) := by
      rw [buffered, if_neg hs]
    rw [hwhole, hfirst, buffered]
    split
    · exact hfailed _ b ‹_›
    · exact hr.refl _

end Buffered

end Feed
