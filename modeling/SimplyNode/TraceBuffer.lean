import SimplyNode.Lib.Transition
import Mathlib.Data.List.Infix
import Mathlib.Data.Nat.ModEq

/-!
# The Ring Buffer of the Profiler

`TraceBuffer` (`Profiler/TraceBuffer.h/.cpp`) has an array of `kCapacity` events and two indices.
The thread that owns the buffer pushes events behind `m_head`, and the thread of the profiler drains
them from `m_tail` on. Neither of them takes a lock: every load and every store of an index, and
every access to a slot, is a step of its own, and the steps of the two threads come in any order.

An index is what is left of a count when it has gone around. `accepted` and `out` are the events
that have been pushed and drained, and `released` is how many of them had been drained when `m_tail`
was stored the last time; the slots in use are those from `released` on.

## Main results

* `TraceBuffer.Inv.step`: the invariant, which ties the indices and the slots to the counts.
* `trace_buffer_fifo`: **what is drained is what has been pushed**, in the same order.
* `drain_returns`: a drain comes to its end.
-/

open Transition

namespace SimplyNode

variable {α : Type*}

/-- Where a thread is in `TraceBuffer::push`. -/
inductive PushPhase (α : Type*)
  | idle
  /-- Behind the load of `m_head`. -/
  | loaded (e : α) (head : ℕ)
  /-- There is room: `next` is not the index of the consumer. -/
  | room (e : α) (head next : ℕ)
  /-- The slot has been written. -/
  | written (e : α) (next : ℕ)
  deriving DecidableEq

/-- Where a thread is in `TraceBuffer::drain`. -/
inductive TracePhase
  | idle
  /-- Behind the load of `m_tail`. -/
  | loaded (tail : ℕ)
  /-- In the loop. -/
  | draining (tail head : ℕ)
  deriving DecidableEq

/-- `TraceBuffer`, its two threads, and what has gone through it. -/
structure TraceBuffer (α : Type*) where
  head : ℕ := 0
  tail : ℕ := 0
  data : ℕ → α
  push : PushPhase α := .idle
  drain : TracePhase := .idle
  /-- The events whose push has returned `true`. -/
  accepted : List α := []
  /-- The events whose push has returned `false`. -/
  refused : List α := []
  /-- What the calls of `drain` have appended to their vectors. -/
  out : List α := []
  /-- The events that had been drained when `m_tail` was stored. -/
  released : ℕ := 0

/-- What can happen next. -/
inductive TraceStep (α : Type*)
  /-- `push`: `m_head.load()`. -/
  | pushLoadsHead (e : α)
  /-- `push`: `m_tail.load()`, and the comparison. -/
  | pushLoadsTail
  /-- `push`: `m_data[head] = e`. -/
  | pushWrites
  /-- `push`: `m_head.store(next)`. -/
  | pushStoresHead
  /-- `drain`: `m_tail.load()`. -/
  | drainLoadsTail
  /-- `drain`: `m_head.load()`. -/
  | drainLoadsHead
  /-- `drain`: a round of the loop. -/
  | drainReads
  /-- `drain`: the loop ends, and `m_tail.store(tail)`. -/
  | drainStoresTail
  deriving DecidableEq

namespace TraceBuffer

/-- A new buffer. -/
def new (event : α) : TraceBuffer α where
  data _ := event

variable (kCapacity : ℕ) (s : TraceBuffer α)

/-- A step of one of the two threads, where this is what it does next. -/
def step : TraceStep α → Option (TraceBuffer α)
  | .pushLoadsHead e =>
      match s.push with
      | .idle => some { s with push := .loaded e s.head }
      | _ => none
  | .pushLoadsTail =>
      match s.push with
      | .loaded e head =>
          -- an index is below `kCapacity`, and one more is still a `uint32_t`
          let next := (head + 1) % kCapacity
          if next = s.tail then some { s with push := .idle, refused := s.refused ++ [e] }
          else some { s with push := .room e head next }
      | _ => none
  | .pushWrites =>
      match s.push with
      | .room e head next =>
          some { s with push := .written e next, data := Function.update s.data head e }
      | _ => none
  | .pushStoresHead =>
      match s.push with
      | .written e next =>
          some { s with push := .idle, head := next, accepted := s.accepted ++ [e] }
      | _ => none
  | .drainLoadsTail =>
      match s.drain with
      | .idle => some { s with drain := .loaded s.tail }
      | _ => none
  | .drainLoadsHead =>
      match s.drain with
      | .loaded tail => some { s with drain := .draining tail s.head }
      | _ => none
  | .drainReads =>
      match s.drain with
      | .draining tail head =>
          if tail ≠ head then
            some { s with out := s.out ++ [s.data tail],
                          drain := .draining ((tail + 1) % kCapacity) head }
          else none
      | _ => none
  | .drainStoresTail =>
      match s.drain with
      | .draining tail head =>
          if tail ≠ head then none
          else some { s with tail := tail, drain := .idle, released := s.out.length }
      | _ => none

/-- The steps as a relation. -/
def Steps (s : TraceBuffer α) (op : TraceStep α) (s' : TraceBuffer α) : Prop :=
  step kCapacity s op = some s'

/-! ### The invariant -/

/-- What `push` knows where it is. -/
def PushInv (s : TraceBuffer α) : PushPhase α → Prop
  | .idle => True
  | .loaded _ head => head = s.accepted.length % kCapacity
  | .room _ head next =>
      head = s.accepted.length % kCapacity ∧ next = (s.accepted.length + 1) % kCapacity ∧
        s.accepted.length + 1 < s.released + kCapacity
  | .written e next =>
      next = (s.accepted.length + 1) % kCapacity ∧
        s.accepted.length + 1 < s.released + kCapacity ∧
        s.data (s.accepted.length % kCapacity) = e

/-- What `drain` knows where it is: the index up to which it drains is that of some events that have
been accepted. -/
def DrainInv (s : TraceBuffer α) : TracePhase → Prop
  | .idle => s.released = s.out.length
  | .loaded tail => s.released = s.out.length ∧ tail = s.out.length % kCapacity
  | .draining tail head =>
      tail = s.out.length % kCapacity ∧
        ∃ seen, head = seen % kCapacity ∧ s.out.length ≤ seen ∧ seen ≤ s.accepted.length

/-- **The invariant**: the indices are those of the counts, what has been drained comes first, and
the events that have not been released are in their slots. -/
structure Inv (s : TraceBuffer α) : Prop where
  head : s.head = s.accepted.length % kCapacity
  tail : s.tail = s.released % kCapacity
  released : s.released ≤ s.out.length
  out : s.out <+: s.accepted
  bounded : s.accepted.length < s.released + kCapacity
  slots : ∀ i e, s.released ≤ i → s.accepted[i]? = some e → s.data (i % kCapacity) = e
  push : PushInv kCapacity s s.push
  drain : DrainInv kCapacity s s.drain

/-! ### Indices that have gone around -/

/-- Two counts that are less than a capacity apart have different indices. -/
theorem index_eq_iff {kCapacity a b : ℕ} (hle : a ≤ b) (hlt : b < a + kCapacity) :
    a % kCapacity = b % kCapacity ↔ a = b := by
  constructor
  · intro h
    have hdvd : kCapacity ∣ b - a := (Nat.modEq_iff_dvd' hle).mp h
    have hzero := Nat.eq_zero_of_dvd_of_lt hdvd (by omega)
    omega
  · rintro rfl
    rfl

/-- A count that is a capacity ahead at most, and ahead. -/
theorem index_eq_iff_full {kCapacity a b : ℕ} (hlt : a < b) (hle : b ≤ a + kCapacity) :
    b % kCapacity = a % kCapacity ↔ b = a + kCapacity := by
  constructor
  · intro h
    by_contra hne
    have heq := (index_eq_iff (Nat.le_of_lt hlt) (by omega)).mp h.symm
    omega
  · rintro rfl
    exact Nat.add_mod_right a kCapacity

/-- The next index is that of the next number. -/
theorem index_succ (n kCapacity : ℕ) : (n % kCapacity + 1) % kCapacity = (n + 1) % kCapacity :=
  Nat.mod_add_mod n kCapacity 1

variable {kCapacity : ℕ} {s s' : TraceBuffer α}

/-! ### Every step keeps the invariant -/

/-- A new buffer is in order. -/
theorem inv_new (event : α) (h : 0 < kCapacity) : (new event).Inv kCapacity where
  head := rfl
  tail := rfl
  released := Nat.le_refl 0
  out := List.prefix_rfl
  bounded := by
    change 0 < 0 + kCapacity
    omega
  slots i e _ he := by cases he
  push := trivial
  drain := rfl

namespace Inv

/-- There is no room exactly if all slots but one are in use. -/
theorem full_iff (h : s.Inv kCapacity) :
    (s.accepted.length % kCapacity + 1) % kCapacity = s.tail ↔
      s.accepted.length + 1 = s.released + kCapacity := by
  have hout := h.out.length_le
  have hreleased := h.released
  have hbounded := h.bounded
  rw [index_succ, h.tail]
  exact index_eq_iff_full (by omega) (by omega)

/-- A push that loads the head keeps the order. -/
theorem pushLoadsHead {e : α} (h : s.Inv kCapacity)
    (hs : s.step kCapacity (.pushLoadsHead e) = some s') : s'.Inv kCapacity := by
  rw [step] at hs
  split at hs
  · cases hs
    exact { h with push := h.head }
  · cases hs

/-- A push that loads the tail keeps it. -/
theorem pushLoadsTail (h : s.Inv kCapacity)
    (hs : s.step kCapacity .pushLoadsTail = some s') : s'.Inv kCapacity := by
  have hbounded := h.bounded
  have hpush := h.push
  rw [step] at hs
  split at hs
  · rename_i e head heq
    rw [heq, PushInv] at hpush
    dsimp only at hs
    split at hs
    · cases hs
      exact { h with push := trivial }
    · rename_i hroom
      cases hs
      rw [hpush] at hroom ⊢
      have hfree := mt h.full_iff.mpr hroom
      have hlt : s.accepted.length + 1 < s.released + kCapacity := by omega
      exact { h with push := ⟨rfl, index_succ _ _, hlt⟩ }
  · cases hs

/-- The slot that is written is not in use. -/
theorem pushWrites (h : s.Inv kCapacity) (hs : s.step kCapacity .pushWrites = some s') :
    s'.Inv kCapacity := by
  have hpush := h.push
  rw [step] at hs
  split at hs
  · rename_i e head next heq
    rw [heq, PushInv] at hpush
    obtain ⟨rfl, rfl, hroom⟩ := hpush
    cases hs
    have hother {i : ℕ} (hi : s.released ≤ i) (hlt : i < s.accepted.length) :
        i % kCapacity ≠ s.accepted.length % kCapacity := by
      rw [ne_eq, index_eq_iff (Nat.le_of_lt hlt) (by omega)]
      exact Nat.ne_of_lt hlt
    refine { h with slots := ?_, push := ⟨rfl, hroom, Function.update_self ..⟩ }
    intro i a hi ha
    have hlt : i < s.accepted.length := (List.getElem?_eq_some_iff.mp ha).1
    exact (Function.update_of_ne (hother hi hlt) _ _).trans (h.slots i a hi ha)
  · cases hs

/-- A push that stores the head keeps it. -/
theorem pushStoresHead (h : s.Inv kCapacity) (hs : s.step kCapacity .pushStoresHead = some s') :
    s'.Inv kCapacity := by
  have hpush := h.push
  have hdrain := h.drain
  rw [step] at hs
  split at hs
  · rename_i e next heq
    rw [heq, PushInv] at hpush
    obtain ⟨rfl, hroom, hslot⟩ := hpush
    cases hs
    have hlength : (s.accepted ++ [e]).length = s.accepted.length + 1 := List.length_append
    refine { h with head := ?_, out := h.out.trans (List.prefix_append _ _), bounded := ?_,
                    slots := ?_, push := trivial, drain := ?_ }
    · rw [hlength]
    · rwa [hlength]
    · intro i a hi ha
      obtain hlt | hge := Nat.lt_or_ge i s.accepted.length
      · rw [List.getElem?_append_left hlt] at ha
        exact h.slots i a hi ha
      · have hlt : i < s.accepted.length + 1 := hlength ▸ (List.getElem?_eq_some_iff.mp ha).1
        have hlast : i = s.accepted.length := Nat.le_antisymm (Nat.le_of_lt_succ hlt) hge
        rw [hlast, List.getElem?_concat_length] at ha
        rw [hlast, ← Option.some.inj ha]
        exact hslot
    · cases hphase : s.drain with
      | idle => rwa [hphase] at hdrain
      | loaded tail => rwa [hphase] at hdrain
      | draining tail head =>
          rw [hphase] at hdrain
          obtain ⟨htail, seen, hhead, hout, hseen⟩ := hdrain
          have hle : seen ≤ (s.accepted ++ [e]).length := by omega
          exact ⟨htail, seen, hhead, hout, hle⟩
  · cases hs

/-- A drain that loads the tail keeps it. -/
theorem drainLoadsTail (h : s.Inv kCapacity) (hs : s.step kCapacity .drainLoadsTail = some s') :
    s'.Inv kCapacity := by
  have hdrain := h.drain
  rw [step] at hs
  split at hs
  · rename_i heq
    rw [heq, DrainInv] at hdrain
    cases hs
    exact { h with drain := ⟨hdrain, hdrain ▸ h.tail⟩ }
  · cases hs

/-- A drain that loads the head keeps it. -/
theorem drainLoadsHead (h : s.Inv kCapacity) (hs : s.step kCapacity .drainLoadsHead = some s') :
    s'.Inv kCapacity := by
  have hdrain := h.drain
  rw [step] at hs
  split at hs
  · rename_i tail heq
    rw [heq, DrainInv] at hdrain
    cases hs
    exact { h with drain := ⟨hdrain.2, s.accepted.length, h.head, h.out.length_le, Nat.le_refl _⟩ }
  · cases hs

/-- The slot that is read has the next event. -/
theorem drainReads (h : s.Inv kCapacity) (hs : s.step kCapacity .drainReads = some s') :
    s'.Inv kCapacity := by
  have hdrain := h.drain
  rw [step] at hs
  split at hs
  · rename_i tail head heq
    rw [heq, DrainInv] at hdrain
    obtain ⟨rfl, seen, rfl, hout, hseen⟩ := hdrain
    split at hs
    · rename_i hne
      cases hs
      have hlt : s.out.length < seen :=
        Nat.lt_of_le_of_ne hout fun heq => hne (congrArg (· % kCapacity) heq)
      have hfirst := hlt.trans_le hseen
      have hslot := h.slots _ _ h.released (List.getElem?_eq_getElem hfirst)
      have hlength : (s.out ++ [s.data (s.out.length % kCapacity)]).length = s.out.length + 1 :=
        List.length_append
      refine { h with released := ?_, out := ?_, drain := ⟨?_, seen, rfl, ?_, hseen⟩ }
      · exact hlength ▸ Nat.le_succ_of_le h.released
      · dsimp only
        rw [hslot]
        exact List.concat_get_prefix h.out hfirst
      · rw [hlength, index_succ]
      · exact hlength ▸ hlt
    · cases hs
  · cases hs

/-- A drain that stores the tail keeps it. -/
theorem drainStoresTail (h : s.Inv kCapacity) (hs : s.step kCapacity .drainStoresTail = some s') :
    s'.Inv kCapacity := by
  have hdrain := h.drain
  have hpush := h.push
  have hreleased := h.released
  have hbounded := h.bounded
  rw [step] at hs
  split at hs
  · rename_i tail head heq
    rw [heq, DrainInv] at hdrain
    split at hs
    · cases hs
    · cases hs
      refine { h with tail := hdrain.1, released := Nat.le_refl _, bounded := ?_, slots := ?_,
                      push := ?_, drain := rfl }
      · change s.accepted.length < s.out.length + kCapacity
        omega
      · exact fun i e hi he => h.slots i e (hreleased.trans hi) he
      · cases hphase : s.push with
        | idle => trivial
        | loaded e head => rwa [hphase] at hpush
        | room e head next =>
            rw [hphase] at hpush
            exact ⟨hpush.1, hpush.2.1, by have := hpush.2.2; dsimp only; omega⟩
        | written e next =>
            rw [hphase] at hpush
            exact ⟨hpush.1, by have := hpush.2.1; dsimp only; omega, hpush.2.2⟩
  · cases hs

/-- **The step lemma.** -/
theorem step {op : TraceStep α} (h : s.Inv kCapacity) (hs : Steps kCapacity s op s') :
    s'.Inv kCapacity := by
  cases op with
  | pushLoadsHead e => exact h.pushLoadsHead hs
  | pushLoadsTail => exact h.pushLoadsTail hs
  | pushWrites => exact h.pushWrites hs
  | pushStoresHead => exact h.pushStoresHead hs
  | drainLoadsTail => exact h.drainLoadsTail hs
  | drainLoadsHead => exact h.drainLoadsHead hs
  | drainReads => exact h.drainReads hs
  | drainStoresTail => exact h.drainStoresTail hs

/-- Every run keeps it. -/
theorem reaches {ops : List (TraceStep α)} (h : s.Inv kCapacity)
    (hrun : Reaches (Steps kCapacity) s ops s') : s'.Inv kCapacity :=
  hrun.invariant (fun _ _ _ hi _ hs => hi.step hs) h

/-- The loop of `drain` ends when it has taken all that it has seen. -/
theorem reads_iff (h : s.Inv kCapacity) {seen : ℕ} (hout : s.out.length ≤ seen)
    (hseen : seen ≤ s.accepted.length) :
    s.out.length % kCapacity = seen % kCapacity ↔ s.out.length = seen := by
  have hreleased := h.released
  have hbounded := h.bounded
  exact index_eq_iff hout (by omega)

end Inv

/-! ### A drain -/

/-- What a step does to the consumer, and to the events that have been accepted. -/
theorem step_cases {op : TraceStep α} (hs : Steps kCapacity s op s') :
    s'.drain = s.drain ∧ s'.out = s.out ∧ s.accepted <+: s'.accepted ∨
    s'.accepted = s.accepted ∧
      (s.drain = .idle ∧ s'.out = s.out ∨
        (∃ tail, s.drain = .loaded tail ∧ s'.out = s.out) ∨
        (∃ tail head, s.drain = .draining tail head ∧ tail ≠ head ∧
          s'.drain = .draining ((tail + 1) % kCapacity) head ∧
          s'.out = s.out ++ [s.data tail]) ∨
        ∃ tail, s.drain = .draining tail tail ∧ s'.out = s.out) := by
  rw [Steps] at hs
  cases op with
  | pushLoadsHead e =>
      rw [step] at hs
      split at hs <;> cases hs
      exact Or.inl ⟨rfl, rfl, List.prefix_rfl⟩
  | pushLoadsTail =>
      rw [step] at hs
      split at hs
      · dsimp only at hs
        split at hs <;> cases hs
        · exact Or.inl ⟨rfl, rfl, List.prefix_rfl⟩
        · exact Or.inl ⟨rfl, rfl, List.prefix_rfl⟩
      · cases hs
  | pushWrites =>
      rw [step] at hs
      split at hs <;> cases hs
      exact Or.inl ⟨rfl, rfl, List.prefix_rfl⟩
  | pushStoresHead =>
      rw [step] at hs
      split at hs <;> cases hs
      exact Or.inl ⟨rfl, rfl, List.prefix_append _ _⟩
  | drainLoadsTail =>
      rw [step] at hs
      split at hs <;> cases hs
      exact Or.inr ⟨rfl, Or.inl ⟨‹_›, rfl⟩⟩
  | drainLoadsHead =>
      rw [step] at hs
      split at hs <;> cases hs
      exact Or.inr ⟨rfl, Or.inr (Or.inl ⟨_, ‹_›, rfl⟩)⟩
  | drainReads =>
      rw [step] at hs
      split at hs
      · split at hs <;> cases hs
        exact Or.inr ⟨rfl, Or.inr (Or.inr (Or.inl ⟨_, _, ‹_›, ‹_›, rfl, rfl⟩))⟩
      · cases hs
  | drainStoresTail =>
      rw [step] at hs
      split at hs
      · rename_i tail head heq
        split at hs <;> cases hs
        have hend : tail = head := not_not.mp ‹_›
        exact Or.inr ⟨rfl, Or.inr (Or.inr (Or.inr ⟨tail, hend ▸ heq, rfl⟩))⟩
      · cases hs

/-- An accepted event is not taken back. -/
theorem accepted_prefix {ops : List (TraceStep α)} (hrun : Reaches (Steps kCapacity) s ops s') :
    s.accepted <+: s'.accepted := by
  induction hrun with
  | nil => exact List.prefix_rfl
  | cons _ hs _ ih =>
      obtain ⟨-, -, haccepted⟩ | ⟨haccepted, -⟩ := step_cases hs
      · exact haccepted.trans ih
      · exact haccepted ▸ ih

/-- The first `n` events have been drained, or the drain that goes on will come to them. -/
def Covers (kCapacity n : ℕ) (s : TraceBuffer α) : Prop :=
  n ≤ s.out.length ∨ ∃ seen, s.drain = .draining (s.out.length % kCapacity) (seen % kCapacity) ∧
    n ≤ seen ∧ s.out.length ≤ seen ∧ seen ≤ s.accepted.length

/-- A step covers what has been covered. -/
theorem Covers.step {n : ℕ} {op : TraceStep α} (hc : Covers kCapacity n s)
    (h : s.Inv kCapacity) (hs : Steps kCapacity s op s') : Covers kCapacity n s' := by
  obtain hle | ⟨seen, hdrain, hn, hout, hseen⟩ := hc
  · -- nothing is taken back from what has been drained
    refine Or.inl (hle.trans ?_)
    obtain ⟨-, heq, -⟩ | ⟨-, ⟨-, heq⟩ | ⟨tail, -, heq⟩ | ⟨tail, head, -, -, -, heq⟩ |
      ⟨tail, -, heq⟩⟩ := step_cases hs
    · rw [heq]
    · rw [heq]
    · rw [heq]
    · rw [heq]
      exact (List.prefix_append _ _).length_le
    · rw [heq]
  · obtain ⟨hsame, heq, hgrown⟩ | ⟨haccepted, ⟨hidle, -⟩ | ⟨tail, hloaded, -⟩ |
      ⟨tail, head, hdraining, hne, hnext, heq⟩ | ⟨tail, hdraining, heq⟩⟩ := step_cases hs
    · refine Or.inr ⟨seen, ?_, hn, ?_, hseen.trans hgrown.length_le⟩
      · rw [hsame, heq, hdrain]
      · rwa [heq]
    · rw [hdrain] at hidle
      cases hidle
    · rw [hdrain] at hloaded
      cases hloaded
    · rw [hdrain] at hdraining
      obtain ⟨rfl, rfl⟩ := TracePhase.draining.inj hdraining
      have hlt : s.out.length < seen :=
        Nat.lt_of_le_of_ne hout (mt (h.reads_iff hout hseen).mpr hne)
      have hlength : s'.out.length = s.out.length + 1 := by rw [heq, List.length_append]; rfl
      refine Or.inr ⟨seen, ?_, hn, ?_, ?_⟩
      · rw [hnext, hlength, index_succ]
      · rwa [hlength]
      · rwa [haccepted]
    · -- the loop has come to its end
      rw [hdrain] at hdraining
      obtain ⟨htail, hhead⟩ := TracePhase.draining.inj hdraining
      have hend := (h.reads_iff hout hseen).mp (htail.trans hhead.symm)
      rw [← heq] at hend
      exact Or.inl (hend ▸ hn)

/-- **A drain covers what it has seen**: when it has returned, the events that had been accepted
before it loaded `m_head` have been drained. -/
theorem Inv.drained {s₁ : TraceBuffer α} {ops : List (TraceStep α)} (h : s.Inv kCapacity)
    (hs : Steps kCapacity s .drainLoadsHead s₁) (hrun : Reaches (Steps kCapacity) s₁ ops s')
    (hidle : s'.drain = .idle) : s.accepted <+: s'.out := by
  have hfirst : Covers kCapacity s.accepted.length s₁ := by
    have hdrain := h.drain
    rw [Steps, TraceBuffer.step] at hs
    split at hs
    · rename_i tail heq
      rw [heq, DrainInv] at hdrain
      cases hs
      refine Or.inr ⟨s.accepted.length, ?_, Nat.le_refl _, h.out.length_le, Nat.le_refl _⟩
      dsimp only
      rw [hdrain.2, h.head]
    · cases hs
  have hlast := hrun.invariant
    (I := fun t => t.Inv kCapacity ∧ Covers kCapacity s.accepted.length t)
    (fun _ _ _ hi _ hst => ⟨hi.1.step hst, hi.2.step hi.1 hst⟩) ⟨h.step hs, hfirst⟩
  have hgrown : s.accepted <+: s'.accepted := accepted_prefix (.cons trivial hs hrun)
  obtain hle | ⟨seen, hdrain, -⟩ := hlast.2
  · exact List.prefix_of_prefix_length_le hgrown hlast.1.out hle
  · rw [hidle] at hdrain
    cases hdrain

/-- **A drain returns**: its loop comes to an end without the other thread. -/
theorem drain_returns {tail head : ℕ} (h : s.Inv kCapacity)
    (hdrain : s.drain = .draining tail head) :
    ∃ ops s', Reaches (Steps kCapacity) s ops s' ∧ s'.drain = .idle := by
  have hphase := h.drain
  rw [hdrain, DrainInv] at hphase
  obtain ⟨rfl, seen, rfl, hout, hseen⟩ := hphase
  induction hleft : seen - s.out.length generalizing s with
  | zero =>
      have hend : s.out.length = seen := by omega
      have hs : Steps kCapacity s .drainStoresTail
          { s with tail := s.out.length % kCapacity, drain := .idle,
                   released := s.out.length } := by
        rw [Steps, step, hdrain, hend]
        exact if_neg (not_not.mpr rfl)
      exact ⟨[_], _, .single trivial hs, rfl⟩
  | succ n ih =>
      have hne : s.out.length % kCapacity ≠ seen % kCapacity := by
        rw [ne_eq, h.reads_iff hout hseen]
        omega
      have hs : Steps kCapacity s .drainReads
          { s with out := s.out ++ [s.data (s.out.length % kCapacity)],
                   drain := .draining ((s.out.length % kCapacity + 1) % kCapacity)
                     (seen % kCapacity) } := by
        rw [Steps, step, hdrain]
        exact if_pos hne
      have hlength : (s.out ++ [s.data (s.out.length % kCapacity)]).length = s.out.length + 1 :=
        List.length_append
      have hnext : (s.out.length % kCapacity + 1) % kCapacity =
          (s.out ++ [s.data (s.out.length % kCapacity)]).length % kCapacity := by
        rw [hlength, index_succ]
      obtain ⟨ops, s', hrun, hidle⟩ := ih (h.step hs) (by rw [hnext]) (by dsimp only; omega)
        hseen (by dsimp only; omega)
      exact ⟨_ :: ops, s', .cons trivial hs hrun, hidle⟩

end TraceBuffer

open TraceBuffer

/-- **What is drained is what has been pushed**: in every run of the two threads, the drained events
are the first of the accepted ones, in the same order; the others are in their slots, and have been
drained when a drain returns that has loaded `m_head` behind them; and a push is refused exactly if
all slots but one are in use, as the index of the consumer says. -/
theorem trace_buffer_fifo {kCapacity : ℕ} (hpos : 0 < kCapacity) (event : α)
    {ops : List (TraceStep α)} {s : TraceBuffer α}
    (hrun : Reaches (Steps kCapacity) (new event) ops s) :
    s.out <+: s.accepted ∧
    (∀ i e, s.out.length ≤ i → s.accepted[i]? = some e → s.data (i % kCapacity) = e) ∧
    (∀ s₁ ops' s₂, Steps kCapacity s .drainLoadsHead s₁ →
      Reaches (Steps kCapacity) s₁ ops' s₂ → s₂.drain = .idle → s.accepted <+: s₂.out) ∧
    s.tail = s.released % kCapacity ∧ s.released ≤ s.out.length ∧
    ∀ e head s', s.push = .loaded e head → Steps kCapacity s .pushLoadsTail s' →
      s'.accepted = s.accepted ∧
        (s'.refused = s.refused ++ [e] ∧ s'.push = .idle ↔
          s.accepted.length - s.released = kCapacity - 1) := by
  have h := (inv_new event hpos).reaches hrun
  refine ⟨h.out, fun i e hi he => h.slots i e (h.released.trans hi) he,
    fun s₁ ops' s₂ hs hrest hidle => h.drained hs hrest hidle, h.tail, h.released, ?_⟩
  intro e head s' hpush hs
  have hhead := h.push
  have hreleased := h.released
  have hout := h.out.length_le
  have hfull := h.full_iff
  rw [hpush, PushInv] at hhead
  rw [Steps, step, hpush] at hs
  rw [← hhead] at hfull
  dsimp only at hs
  split at hs
  · cases hs
    have hall := hfull.mp ‹_›
    exact ⟨rfl, iff_of_true ⟨rfl, rfl⟩ (by omega)⟩
  · cases hs
    have hroom := mt hfull.mpr ‹_›
    have hbounded := h.bounded
    refine ⟨rfl, iff_of_false ?_ (by omega)⟩
    rintro ⟨-, hidle⟩
    cases hidle

/-- A buffer with two slots takes one event at a time. An event comes while the one in front of it
is being drained, before its slot is released, and is refused. The next one wraps around. -/
def aroundBuffer : List (TraceStep ℕ) :=
  [.pushLoadsHead 7, .pushLoadsTail, .pushWrites, .pushStoresHead,
    .drainLoadsTail, .drainLoadsHead, .drainReads,
    .pushLoadsHead 8, .pushLoadsTail,
    .drainStoresTail,
    .pushLoadsHead 9, .pushLoadsTail, .pushWrites, .pushStoresHead,
    .drainLoadsTail, .drainLoadsHead, .drainReads, .drainStoresTail]

/-- Two events go around the buffer, and one is refused. -/
theorem events_around_buffer : ∃ s, Reaches (Steps 2) (new 0) aroundBuffer s ∧
    s.accepted = [7, 9] ∧ s.refused = [8] ∧ s.head = 0 ∧ s.out = [7, 9] ∧
    s.out <+: s.accepted ∧ s.tail = s.released % 2 := by
  have hrun : Reaches (Steps 2) (new 0) aroundBuffer _ :=
    .cons trivial rfl <| .cons trivial rfl <| .cons trivial rfl <| .cons trivial rfl <|
    .cons trivial rfl <| .cons trivial rfl <| .cons trivial rfl <|
    .cons trivial rfl <| .cons trivial rfl <|
    .cons trivial rfl <|
    .cons trivial rfl <| .cons trivial rfl <| .cons trivial rfl <| .cons trivial rfl <|
    .cons trivial rfl <| .cons trivial rfl <| .cons trivial rfl <| .cons trivial rfl <| .nil _
  obtain ⟨hinOrder, -, -, htail, -⟩ := trace_buffer_fifo (by decide) 0 hrun
  exact ⟨_, hrun, rfl, rfl, rfl, rfl, hinOrder, htail⟩

end SimplyNode
