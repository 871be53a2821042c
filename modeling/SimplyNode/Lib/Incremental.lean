import Mathlib.Data.List.Infix

/-!
# Incremental Parsers

A parser is given what has been received so far. It needs more, or finds that this is malformed, or
finds an item at its beginning. It is **incremental** if what it has found does not change when more
is received, and if it finds an item as soon as its last part is there. Parsers of this kind are
closed under sequencing, so that a parser is incremental because its parts are.

`drain` takes one item after the other from a buffer. It may be interrupted anywhere.

## Main results

* `IsIncremental.andThen`: a parser behind another one.
* `IsIncremental.done_iff`, `andThen_done_iff`: what a parser accepts, and a sequence of parsers.
* `drain_parts`: the items of a buffer stand one behind the other.
* `drain_append`: draining a buffer, and then the rest of it with what has come since.
* `drain_snoc`: a last part completes one item at most, and nothing is behind it.
-/

/-- What a parser finds. -/
inductive Progress (ε α β : Type*)
  | more
  | failed (e : ε)
  | done (a : α) (rest : List β)
  deriving DecidableEq

/-- What has been taken from a buffer, what is left of it, and the error that has ended it. -/
structure Drained (ε α β : Type*) where
  items : List α
  rest : List β
  error : Option ε
  deriving DecidableEq

namespace Incremental

variable {β ε α γ : Type*}

/-- A parser of what has been received. -/
abbrev Parser (β ε α : Type*) := List β → Progress ε α β

/-- An item that takes nothing. -/
def ret (a : α) : Parser β ε α := fun b => .done a b

/-- What has been received is malformed. -/
def fail (e : ε) : Parser β ε α := fun _ => .failed e

/-- The next `n` parts. -/
def take (n : ℕ) : Parser β ε (List β) := fun b =>
  if n ≤ b.length then .done (b.take n) (b.drop n) else .more

/-- A parser, and behind its item another one. -/
def andThen (p : Parser β ε α) (f : α → Parser β ε γ) : Parser β ε γ := fun b =>
  match p b with
  | .more => .more
  | .failed e => .failed e
  | .done a rest => f a rest

/-- What the parser has found stays as it is, and it finds an item in time. -/
structure IsIncremental (p : Parser β ε α) : Prop where
  failed : ∀ {b e} (t : List β), p b = .failed e → p (b ++ t) = .failed e
  done : ∀ {b a rest} (t : List β), p b = .done a rest → p (b ++ t) = .done a (rest ++ t)
  suffix : ∀ {b a rest}, p b = .done a rest → rest <:+ b
  prompt : ∀ {b c a rest}, p b = .more → p (b ++ [c]) = .done a rest → rest = []

/-- An item takes something. -/
def Consumes (p : Parser β ε α) : Prop := ∀ {b a rest}, p b = .done a rest → rest.length < b.length

/-- What has been received is found malformed with errors of one kind only. -/
def FailsWith (P : ε → Prop) (p : Parser β ε α) : Prop := ∀ b e, p b = .failed e → P e

/-- Without input. -/
theorem IsIncremental.ret (a : α) : IsIncremental (ret a : Parser β ε α) where
  failed _ h := by cases h
  done _ h := by cases h; rfl
  suffix h := by cases h; exact List.suffix_rfl
  prompt h := by cases h

/-- A failure without input. -/
theorem IsIncremental.fail (e : ε) : IsIncremental (fail e : Parser β ε α) where
  failed _ h := h
  done _ h := by cases h
  suffix h := by cases h
  prompt h := by cases h

/-- What has been taken. -/
theorem take_done {n : ℕ} {b a rest : List β}
    (h : (take n : Parser β ε (List β)) b = .done a rest) :
    n ≤ b.length ∧ a = b.take n ∧ rest = b.drop n := by
  rw [take] at h
  split at h
  · rename_i hle
    cases h
    exact ⟨hle, rfl, rfl⟩
  · cases h

/-- A fixed number of elements. -/
theorem IsIncremental.take (n : ℕ) : IsIncremental (take n : Parser β ε (List β)) where
  failed t h := by
    rw [Incremental.take] at h
    split at h <;> cases h
  done t h := by
    obtain ⟨hle, rfl, rfl⟩ := take_done h
    rw [Incremental.take, if_pos (hle.trans (List.prefix_append _ t).length_le),
      List.take_append_of_le_length hle, List.drop_append_of_le_length hle]
  suffix h := by
    obtain ⟨-, -, rfl⟩ := take_done h
    exact List.drop_suffix n _
  prompt hmore h := by
    obtain ⟨hle, -, rfl⟩ := take_done h
    rw [Incremental.take] at hmore
    split at hmore
    · cases hmore
    · refine List.drop_eq_nil_of_le ?_
      rw [List.length_append, List.length_singleton] at hle ⊢
      omega

/-- Taking some consumes some. -/
theorem consumes_take {n : ℕ} (h : 0 < n) : Consumes (take n : Parser β ε (List β)) := by
  intro b a rest hdone
  obtain ⟨hle, -, rfl⟩ := take_done hdone
  rw [List.length_drop]
  omega

/-- The two parts of a sequence. -/
theorem andThen_done {p : Parser β ε α} {f : α → Parser β ε γ} {b rest : List β} {c : γ}
    (h : andThen p f b = .done c rest) : ∃ a r, p b = .done a r ∧ f a r = .done c rest := by
  rw [andThen] at h
  split at h
  · cases h
  · cases h
  · exact ⟨_, _, ‹_›, h⟩

/-- **A parser behind another one.** -/
theorem IsIncremental.andThen {p : Parser β ε α} {f : α → Parser β ε γ} (hp : IsIncremental p)
    (hf : ∀ a, IsIncremental (f a)) : IsIncremental (andThen p f) where
  failed t h := by
    rw [Incremental.andThen] at h ⊢
    split at h
    · cases h
    · cases h
      rw [hp.failed t ‹_›]
    · rw [hp.done t ‹_›]
      exact (hf _).failed t h
  done t h := by
    obtain ⟨a, r, ha, hr⟩ := andThen_done h
    rw [Incremental.andThen, hp.done t ha]
    exact (hf a).done t hr
  suffix h := by
    obtain ⟨a, r, ha, hr⟩ := andThen_done h
    exact ((hf a).suffix hr).trans (hp.suffix ha)
  prompt hmore h := by
    obtain ⟨a, r, ha, hr⟩ := andThen_done h
    rw [Incremental.andThen] at hmore
    split at hmore
    · -- the first item is complete now, and nothing is behind it
      obtain rfl := hp.prompt ‹_› ha
      exact List.suffix_nil.mp ((hf a).suffix hr)
    · cases hmore
    · rename_i heq
      rw [hp.done [_] heq] at ha
      cases ha
      exact (hf _).prompt hmore hr

/-- One parser behind another consumes some. -/
theorem Consumes.andThen {p : Parser β ε α} {f : α → Parser β ε γ} (hp : Consumes p)
    (hf : ∀ a, IsIncremental (f a)) : Consumes (andThen p f) := by
  intro b c rest h
  obtain ⟨a, r, ha, hr⟩ := andThen_done h
  exact ((hf a).suffix hr).length_le.trans_lt (hp ha)

/-- One of two parsers. -/
theorem IsIncremental.ite {P : Prop} [Decidable P] {p q : Parser β ε α} (hp : IsIncremental p)
    (hq : IsIncremental q) : IsIncremental (if P then p else q) := by
  split
  · exact hp
  · exact hq

/-! ### What a parser accepts -/

/-- What completes an item is not left behind it. -/
theorem IsIncremental.rest_lt {p : Parser β ε α} (hp : IsIncremental p) {w t rest : List β} {a : α}
    (hmore : p w = .more) (h : p (w ++ t) = .done a rest) : rest.length < t.length := by
  induction t generalizing w with
  | nil =>
      rw [List.append_nil, hmore] at h
      cases h
  | cons c t ih =>
      have hcons : w ++ c :: t = (w ++ [c]) ++ t := by simp
      rw [hcons] at h
      cases hc : p (w ++ [c]) with
      | more => exact Nat.lt_succ_of_lt (ih hc h)
      | failed e =>
          rw [hp.failed t hc] at h
          cases h
      | done a' r =>
          obtain rfl := hp.prompt hmore hc
          rw [hp.done t hc] at h
          cases h
          exact Nat.lt_succ_self _

/-- **An item at the beginning**, and what is behind it. -/
theorem IsIncremental.done_iff {p : Parser β ε α} (hp : IsIncremental p) {b rest : List β} {a : α} :
    p b = .done a rest ↔ ∃ w, b = w ++ rest ∧ p w = .done a [] := by
  constructor
  · intro h
    obtain ⟨w, rfl⟩ := hp.suffix h
    refine ⟨w, rfl, ?_⟩
    cases hw : p w with
    | more => exact absurd (hp.rest_lt hw h) (Nat.lt_irrefl _)
    | failed e =>
        rw [hp.failed rest hw] at h
        cases h
    | done a' r =>
        rw [hp.done rest hw] at h
        obtain ⟨rfl, hr⟩ := Progress.done.inj h
        rw [List.append_left_eq_self.mp hr]
  · rintro ⟨w, rfl, hw⟩
    exact hp.done rest hw

/-- A parser that takes nothing. -/
theorem ret_done_iff {a a' : α} {w : List β} :
    (ret a : Parser β ε α) w = .done a' [] ↔ a = a' ∧ w = [] := by
  rw [ret, Progress.done.injEq]

/-- A parser that takes all. -/
theorem take_done_iff {n : ℕ} {w a : List β} :
    (take n : Parser β ε (List β)) w = .done a [] ↔ w.length = n ∧ a = w := by
  constructor
  · intro h
    obtain ⟨hle, rfl, hrest⟩ := take_done h
    have hlength := List.drop_eq_nil_iff.mp hrest.symm
    exact ⟨Nat.le_antisymm hlength hle, List.take_of_length_le hlength⟩
  · rintro ⟨rfl, rfl⟩
    rw [take, if_pos (Nat.le_refl _), List.take_length, List.drop_length]

/-- The two parts of an item. -/
theorem andThen_done_iff {p : Parser β ε α} (hp : IsIncremental p) {f : α → Parser β ε γ}
    {w : List β} {c : γ} : andThen p f w = .done c [] ↔
      ∃ a u v, w = u ++ v ∧ p u = .done a [] ∧ f a v = .done c [] := by
  constructor
  · intro h
    obtain ⟨a, r, ha, hr⟩ := andThen_done h
    obtain ⟨u, hu, hdone⟩ := hp.done_iff.mp ha
    exact ⟨a, u, r, hu, hdone, hr⟩
  · rintro ⟨a, u, v, rfl, hu, hv⟩
    rw [andThen, hp.done v hu]
    exact hv

/-- An error in one of the two parts. -/
theorem andThen_failed_iff {p : Parser β ε α} (hp : IsIncremental p) {f : α → Parser β ε γ}
    {b : List β} {e : ε} : andThen p f b = .failed e ↔
      p b = .failed e ∨ ∃ a u v, b = u ++ v ∧ p u = .done a [] ∧ f a v = .failed e := by
  constructor
  · intro h
    rw [andThen] at h
    split at h
    · cases h
    · cases h
      exact Or.inl ‹_›
    · obtain ⟨u, hu, hdone⟩ := hp.done_iff.mp ‹_›
      exact Or.inr ⟨_, u, _, hu, hdone, h⟩
  · rintro (h | ⟨a, u, v, rfl, hu, hv⟩)
    · rw [andThen, h]
    · rw [andThen, hp.done v hu]
      exact hv

section FailsWith

variable {P : ε → Prop}

/-- It does not fail. -/
theorem FailsWith.ret (a : α) : FailsWith P (ret a : Parser β ε α) := by
  intro b e h
  cases h

/-- It fails with its error. -/
theorem FailsWith.fail {e : ε} (h : P e) : FailsWith P (fail e : Parser β ε α) := by
  intro b e' h'
  cases h'
  exact h

/-- It waits rather than fails. -/
theorem FailsWith.take (n : ℕ) : FailsWith P (take n : Parser β ε (List β)) := by
  intro b e h
  rw [Incremental.take] at h
  split at h <;> cases h

/-- One parser behind another. -/
theorem FailsWith.andThen {p : Parser β ε α} {f : α → Parser β ε γ} (hp : FailsWith P p)
    (hf : ∀ a, FailsWith P (f a)) : FailsWith P (andThen p f) := by
  intro b e h
  rw [Incremental.andThen] at h
  split at h
  · cases h
  · cases h
    exact hp _ _ ‹_›
  · exact hf _ _ _ h

/-- One of two parsers. -/
theorem FailsWith.ite {Q : Prop} [Decidable Q] {p q : Parser β ε α} (hp : FailsWith P p)
    (hq : FailsWith P q) : FailsWith P (if Q then p else q) := by
  split
  · exact hp
  · exact hq

end FailsWith

/-! ### Draining a buffer -/

/-- The loop that takes items from a buffer, `n` at most. -/
def drainLoop (p : Parser β ε α) : ℕ → List β → Drained ε α β
  | 0, b => ⟨[], b, none⟩
  | n + 1, b =>
      match p b with
      | .more => ⟨[], b, none⟩
      | .failed e => ⟨[], b, some e⟩
      | .done a rest =>
          let d := drainLoop p n rest
          ⟨a :: d.items, d.rest, d.error⟩

/-- All items are taken from a buffer. -/
def drain (p : Parser β ε α) (b : List β) : Drained ε α β := drainLoop p (b.length + 1) b

variable {p : Parser β ε α}

/-- One more pass of the loop. -/
theorem drainLoop_succ (p : Parser β ε α) (n : ℕ) (b : List β) :
    drainLoop p (n + 1) b =
      match p b with
      | .more => ⟨[], b, none⟩
      | .failed e => ⟨[], b, some e⟩
      | .done a rest =>
          ⟨a :: (drainLoop p n rest).items, (drainLoop p n rest).rest,
            (drainLoop p n rest).error⟩ := rfl

/-- It does not matter how many items the loop may take, if there are so many at most. -/
theorem drainLoop_congr (hp : Consumes p) {n m : ℕ} {b : List β} (hn : b.length < n)
    (hm : b.length < m) : drainLoop p n b = drainLoop p m b := by
  induction n generalizing m b with
  | zero => exact absurd hn (Nat.not_lt_zero _)
  | succ n ih =>
      cases m with
      | zero => exact absurd hm (Nat.not_lt_zero _)
      | succ m =>
          rw [drainLoop_succ, drainLoop_succ]
          split
          · rfl
          · rfl
          · have hrest := hp ‹_›
            rw [ih (hrest.trans_le (Nat.le_of_lt_succ hn)) (hrest.trans_le (Nat.le_of_lt_succ hm))]

/-- The error of a drain is one of its parser. -/
theorem drain_error {P : ε → Prop} (hp : FailsWith P p) {b : List β} {e : ε}
    (h : (drain p b).error = some e) : P e := by
  rw [drain] at h
  generalize b.length + 1 = n at h
  induction n generalizing b with
  | zero => cases h
  | succ n ih =>
      rw [drainLoop_succ] at h
      split at h
      · cases h
      · cases h
        exact hp _ _ ‹_›
      · exact ih h

/-- A drain that waits. -/
theorem drain_more {b : List β} (h : p b = .more) : drain p b = ⟨[], b, none⟩ := by
  rw [drain, drainLoop_succ, h]

/-- A drain that fails. -/
theorem drain_failed {b : List β} {e : ε} (h : p b = .failed e) : drain p b = ⟨[], b, some e⟩ := by
  rw [drain, drainLoop_succ, h]

/-- A drain that goes on. -/
theorem drain_done (hp : Consumes p) {b rest : List β} {a : α} (h : p b = .done a rest) :
    drain p b = ⟨a :: (drain p rest).items, (drain p rest).rest, (drain p rest).error⟩ := by
  rw [drain, drainLoop_succ, h]
  dsimp only
  rw [drainLoop_congr hp (hp h) (Nat.lt_succ_self rest.length)]
  rfl

/-- **Draining a buffer, and then the rest of it with what has come since.** -/
theorem drain_append (hp : IsIncremental p) (hc : Consumes p) {b : List β}
    (h : (drain p b).error = none) (t : List β) :
    drain p (b ++ t) = ⟨(drain p b).items ++ (drain p ((drain p b).rest ++ t)).items,
      (drain p ((drain p b).rest ++ t)).rest, (drain p ((drain p b).rest ++ t)).error⟩ := by
  induction hn : b.length using Nat.strong_induction_on generalizing b with
  | _ n ih =>
      cases hb : p b with
      | more =>
          rw [drain_more hb]
          rfl
      | failed e =>
          rw [drain_failed hb] at h
          cases h
      | done a rest =>
          have hrest := drain_done hc hb
          rw [hrest] at h ⊢
          have hnext := ih rest.length (hn ▸ hc hb) h rfl
          rw [drain_done hc (hp.done t hb), hnext]
          rfl

/-- An error does not go away. -/
theorem drain_append_of_error (hp : IsIncremental p) (hc : Consumes p) {b : List β} {e : ε}
    (h : (drain p b).error = some e) (t : List β) :
    (drain p (b ++ t)).items = (drain p b).items ∧ (drain p (b ++ t)).error = some e := by
  induction hn : b.length using Nat.strong_induction_on generalizing b with
  | _ n ih =>
      cases hb : p b with
      | more =>
          rw [drain_more hb] at h
          cases h
      | failed e' =>
          rw [drain_failed hb] at h ⊢
          rw [drain_failed (hp.failed t hb)]
          exact ⟨rfl, h⟩
      | done a rest =>
          have hrest := drain_done hc hb
          rw [hrest] at h ⊢
          obtain ⟨hitems, herror⟩ := ih rest.length (hn ▸ hc hb) h rfl
          rw [drain_done hc (hp.done t hb)]
          exact ⟨congrArg (a :: ·) hitems, herror⟩

/-- What is left needs more. -/
theorem drain_rest (hc : Consumes p) {b : List β} (h : (drain p b).error = none) :
    p (drain p b).rest = .more := by
  induction hn : b.length using Nat.strong_induction_on generalizing b with
  | _ n ih =>
      cases hb : p b with
      | more => rwa [drain_more hb]
      | failed e =>
          rw [drain_failed hb] at h
          cases h
      | done a rest =>
          rw [drain_done hc hb] at h ⊢
          exact ih rest.length (hn ▸ hc hb) h rfl

/-- What is left is malformed. -/
theorem drain_malformed (hc : Consumes p) {b : List β} {e : ε} (h : (drain p b).error = some e) :
    p (drain p b).rest = .failed e := by
  induction hn : b.length using Nat.strong_induction_on generalizing b with
  | _ n ih =>
      cases hb : p b with
      | more =>
          rw [drain_more hb] at h
          cases h
      | failed e' =>
          rw [drain_failed hb] at h ⊢
          cases h
          exact hb
      | done a rest =>
          rw [drain_done hc hb] at h ⊢
          exact ih rest.length (hn ▸ hc hb) h rfl

/-- **The items of a buffer**, one behind the other, and what is left of it. -/
theorem drain_parts (hp : IsIncremental p) (hc : Consumes p) (b : List β) :
    ∃ parts, b = parts.flatten ++ (drain p b).rest ∧
      List.Forall₂ (fun w a => p w = .done a []) parts (drain p b).items := by
  induction hn : b.length using Nat.strong_induction_on generalizing b with
  | _ n ih =>
      cases hb : p b with
      | more =>
          rw [drain_more hb]
          exact ⟨[], rfl, .nil⟩
      | failed e =>
          rw [drain_failed hb]
          exact ⟨[], rfl, .nil⟩
      | done a rest =>
          obtain ⟨w, hw, hdone⟩ := hp.done_iff.mp hb
          obtain ⟨parts, hparts, hitems⟩ := ih rest.length (hn ▸ hc hb) rest rfl
          rw [drain_done hc hb]
          refine ⟨w :: parts, ?_, .cons hdone hitems⟩
          rw [List.flatten_cons, List.append_assoc]
          exact hw.trans (congrArg (w ++ ·) hparts)

/-- Items that stand one behind the other. -/
theorem drain_of_parts (hp : IsIncremental p) (hc : Consumes p) {parts : List (List β)}
    {items : List α} (h : List.Forall₂ (fun w a => p w = .done a []) parts items) (t : List β) :
    drain p (parts.flatten ++ t) =
      ⟨items ++ (drain p t).items, (drain p t).rest, (drain p t).error⟩ := by
  induction h with
  | nil => rfl
  | cons hw _ ih =>
      rw [List.flatten_cons, List.append_assoc, drain_done hc (hp.done _ hw), List.nil_append, ih]
      rfl

/-- **A last part completes one item at most**, and nothing is behind it. -/
theorem drain_snoc (hp : IsIncremental p) (hc : Consumes p) {b : List β} (h : p b = .more)
    (c : β) : (drain p (b ++ [c])).items = [] ∨
      ∃ a, (drain p (b ++ [c])).items = [a] ∧ (drain p (b ++ [c])).error = none := by
  have hnil : p [] = .more := by
    cases hb : p [] with
    | more => rfl
    | failed e => exact absurd (h.symm.trans (hp.failed b hb)) (by simp)
    | done a rest => exact absurd (hc hb) (Nat.not_lt_zero _)
  cases hb : p (b ++ [c]) with
  | more => exact Or.inl (by rw [drain_more hb])
  | failed e => exact Or.inl (by rw [drain_failed hb])
  | done a rest =>
      obtain rfl := hp.prompt h hb
      rw [drain_done hc hb, drain_more hnil]
      exact Or.inr ⟨a, rfl, rfl⟩

end Incremental
