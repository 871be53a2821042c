import Mathlib.Data.List.Basic

/-!
# Pipelines

Elements enter a queue, are taken from its front one at a time, and are put out. Between the
two, the element that was taken is in the hand of whoever took it. The line of a pipeline is
everything that has entered it, in the order in which it is put out.

## Main results

* `line_enqueue`, `line_take`, `line_put`: only what enters changes the line, at its end.
* `prefix_output`: what stands at the beginning of the line and is no longer than the output has
  been put out.
* `pairwise_parts`: an order of the line is one of the output and one of the queue.
-/

/-- A queue, the element taken from it, and the elements put out. -/
structure Pipeline (α : Type*) where
  output : List α := []
  hand : Option α := none
  queue : List α := []

namespace Pipeline

variable {α : Type*} {p : Pipeline α} {a : α}

/-- Everything that has entered, in the order in which it is put out. -/
def line (p : Pipeline α) : List α := p.output ++ p.hand.toList ++ p.queue

/-- An element enters. -/
def enqueue (p : Pipeline α) (a : α) : Pipeline α := { p with queue := p.queue ++ [a] }

/-- The first element `a` of the queue is taken, with `rest` behind it. -/
def take (p : Pipeline α) (a : α) (rest : List α) : Pipeline α :=
  { p with hand := some a, queue := rest }

/-- The element in the hand is put out. -/
def put (p : Pipeline α) : Pipeline α :=
  { p with output := p.output ++ p.hand.toList, hand := none }

/-- What is queued stands at the end of the line. -/
@[simp] theorem line_enqueue : (p.enqueue a).line = p.line ++ [a] :=
  (List.append_assoc ..).symm

/-- Taking an element into the hand leaves the line as it is. -/
theorem line_take {rest : List α} (hhand : p.hand = none) (hqueue : p.queue = a :: rest) :
    (p.take a rest).line = p.line := by
  rw [line, line, take, hhand, hqueue]
  simp

/-- Putting it out does so too. -/
@[simp] theorem line_put : p.put.line = p.line := by
  rw [line, line, put]
  simp

/-- Nothing is on its way. -/
theorem line_of_drained (hhand : p.hand = none) (hqueue : p.queue = []) : p.line = p.output := by
  rw [line, hhand, hqueue]
  simp

/-- What has been put out is the beginning of the line. -/
theorem output_prefix : p.output <+: p.line := by
  rw [line, List.append_assoc]
  exact List.prefix_append _ _

/-- What stands at the beginning of the line has been put out, if it is not too long. -/
theorem prefix_output {l : List α} (hl : l <+: p.line) (hlength : l.length ≤ p.output.length) :
    l <+: p.output :=
  List.prefix_of_prefix_length_le hl output_prefix hlength

/-- Every element of the line is put out, in the hand or queued. -/
theorem length_line : p.line.length = p.output.length + p.hand.toList.length + p.queue.length := by
  rw [line, List.length_append, List.length_append]

/-- An order of the line is one of the output, and one of the queue. -/
theorem pairwise_parts {r : α → α → Prop} (h : p.line.Pairwise r) :
    p.output.Pairwise r ∧ p.queue.Pairwise r := by
  rw [line, List.append_assoc] at h
  obtain ⟨houtput, hrest, -⟩ := List.pairwise_append.mp h
  exact ⟨houtput, (List.pairwise_append.mp hrest).2.1⟩

end Pipeline
