import Mathlib.Data.List.Basic

/-!
# Messages that Follow their Addressee

Messages are posted to queues, and what reaches the head of a queue is done if the queue belongs to
the owner, and otherwise posted again to the owner's queue. The owner may change meanwhile, so that
messages wait in several queues and overtake each other.

They do not as long as they are in one **line**: what is done, then what waits with the owner, then
what waits in one other queue. Forwarding and doing keep the line as it is. It grows at its end when
a message is posted while no queue but that one and the owner's has any, and a change of the owner
keeps it when the former owner's queue is the only one.

## Main results

* `Line.post`, `Line.deliver`, `Line.forward`, `Line.move`: what these do to the line.
* `Line.sublist`: messages that are dropped leave a part of the line.
-/

namespace Forwarding

universe u v

variable {E : Type u} {M : Type v} {done : List M} {owner owner' o e : E} {q q' : E → List M}
  {l : List M} {m : M}

/-- The line `l`: what is done, then the owner's queue, then one other queue. -/
def Line (done : List M) (owner : E) (q : E → List M) (l : List M) : Prop :=
  ∃ f, f ≠ owner ∧ (∀ e, e ≠ owner → e ≠ f → q e = []) ∧ l = done ++ q owner ++ q f

namespace Line

theorem nil (ho : o ≠ owner) (hq : ∀ e, q e = []) : Line [] owner q [] :=
  ⟨o, ho, fun e _ _ => hq e, by rw [hq, hq]; rfl⟩

/-- A message is posted to `o` while only `o` and the owner have any. -/
theorem post (h : Line done owner q l) (hidle : ∀ e, e ≠ o → e ≠ owner → q e = [])
    (hq : q' o = q o ++ [m]) (hrest : ∀ e, e ≠ o → q' e = q e) : Line done owner q' (l ++ [m]) := by
  obtain ⟨f, hf, hnone, rfl⟩ := h
  by_cases ho : o = owner
  · subst ho
    have hqf : q f = [] := hidle f hf hf
    refine ⟨f, hf, fun e he hef => (hrest e he).trans (hnone e he hef), ?_⟩
    rw [hq, hrest f hf, hqf]
    simp
  · by_cases hfo : f = o
    · subst hfo
      refine ⟨f, hf, fun e he hef => (hrest e hef).trans (hnone e he hef), ?_⟩
      rw [hq, hrest owner (Ne.symm hf), List.append_assoc]
    · -- the other queue is empty, so `o` can take its place
      have hqf : q f = [] := hidle f hfo hf
      have hqo : q o = [] := hnone o ho (Ne.symm hfo)
      refine ⟨o, ho, fun e he heo => (hrest e heo).trans (hidle e heo he), ?_⟩
      rw [hq, hrest owner (Ne.symm ho), hqf, hqo]
      simp

/-- The owner does its next message. -/
theorem deliver (h : Line done owner q l) (hq : q owner = m :: q' owner)
    (hrest : ∀ e, e ≠ owner → q' e = q e) : Line (done ++ [m]) owner q' l := by
  obtain ⟨f, hf, hnone, rfl⟩ := h
  refine ⟨f, hf, fun e he hef => (hrest e he).trans (hnone e he hef), ?_⟩
  rw [hq, hrest f hf]
  simp

/-- The next message of another queue is posted to the owner. -/
theorem forward (h : Line done owner q l) (he : e ≠ owner) (hq : q e = m :: q' e)
    (howner : q' owner = q owner ++ [m]) (hrest : ∀ e', e' ≠ e → e' ≠ owner → q' e' = q e') :
    Line done owner q' l := by
  obtain ⟨f, hf, hnone, rfl⟩ := h
  obtain rfl : e = f := by
    by_contra hne
    rw [hnone e he hne] at hq
    exact nomatch hq
  refine ⟨e, hf, fun e' he' hef => (hrest e' hef he').trans (hnone e' he' hef), ?_⟩
  rw [hq, howner]
  simp

/-- The owner changes while nobody else has messages. -/
theorem move (h : Line done owner q l) (hidle : ∀ e, e ≠ owner → q e = []) :
    Line done owner' q l := by
  by_cases ho : owner' = owner
  · exact ho ▸ h
  · obtain ⟨f, hf, _, rfl⟩ := h
    refine ⟨owner, Ne.symm ho, fun e _ he => hidle e he, ?_⟩
    rw [hidle f hf, hidle owner' ho]
    simp

/-- Some messages are dropped. -/
theorem sublist (h : Line done owner q l) (hq : ∀ e, (q' e).Sublist (q e)) :
    ∃ l', l'.Sublist l ∧ Line done owner q' l' := by
  obtain ⟨f, hf, hnone, rfl⟩ := h
  refine ⟨done ++ q' owner ++ q' f, ((List.Sublist.refl done).append (hq owner)).append (hq f), f,
    hf, fun e he hef => ?_, rfl⟩
  have hsub := hq e
  rw [hnone e he hef] at hsub
  exact List.sublist_nil.mp hsub

end Line

end Forwarding
