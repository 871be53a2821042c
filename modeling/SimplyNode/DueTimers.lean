import SimplyNode.Undisturbed

/-!
# The Batch of Due Timers

An event loop takes its due entries out of `m_timers` and dispatches them one after another. The
entries carry raw pointers, and what is in the batch is out of reach of `cancelTimer`: a slot of one
timer of the batch can destroy another one, and can move it to another executor. The strand path
looks at the life and at the owner of the timer before it dispatches; the loop does neither.

## Main results

* `batch_timers_alive`: if no timer is freed while a loop has taken an entry of it, every timer in a
  batch is alive. `deleted_in_batch`: a slot that deletes another timer of the batch.
* `emitted_by_owner`: if no timer leaves its owner while a loop has taken an entry of its current
  generation, `timeout` is emitted inside the owner only. `emitted_by_former_owner`: a slot that
  moves another timer of the batch away.
-/

open Transition

namespace SimplyNode

/-- The work is on its way to an emission of the timer. -/
def TimerWork.Emits : TimerWork → Addr → Prop
  | .rearm b _ _ _, a | .emit b _ _, a => b = a
  | _, _ => False

/-- Work that emits for a timer is about it. -/
theorem TimerWork.Emits.timer? {k : TimerWork} {a : Addr} (h : k.Emits a) :
    k.timer? = some a := by
  cases k with
  | rearm b d g f | emit b f w => exact congrArg some h
  | idle | arm | disarm | leave | enter | destroy => exact h.elim

namespace TimerRun

variable {s s₀ s' : TimerRun} {e e' : ExecutorId} {a b : Addr} {g f : ℕ} {T : OwnedTimer}
  {T' : Option OwnedTimer} {k : TimerWork} {v : Option TimerEvent} {i : Bool}
  {l : TimerStep} {L : ExecutorId → Addr → ℕ → Prop}

/-! ### Timers in a batch are alive -/

/-- The condition on a step: calls on a timer do not overlap, and no timer is freed while a loop
has taken an entry of it. -/
def SparesBatches (s : TimerRun) (l : TimerStep) : Prop :=
  s.Undisturbed l ∧ ∀ e a, l = .work e → s.doing e = .destroy a →
    ∀ t g, ¬ s.Taken (.loop t) a g

/-- Every entry that a loop has taken is of a timer that is alive. -/
def BatchesAlive (s : TimerRun) : Prop :=
  ∀ t a g, s.Taken (.loop t) a g → ∃ T, s.timers a = some T

/-- Passing entries on keeps the timers of the batches alive. -/
theorem BatchesAlive.flows (h : s.BatchesAlive) (hi : s.Inv) (hf : Flows s s' L) :
    s'.BatchesAlive := by
  intro t a g hx
  rw [hf.timers]
  rcases hf.taken hi.booked _ a g hx with hx | hx
  · exact h t a g hx
  · obtain ⟨T, hT, -⟩ := hi.armed _ a g hx
    exact ⟨T, hT⟩

/-- **The step lemma.** -/
theorem BatchesAlive.step (h : s.BatchesAlive) (hi : s.Inv) (hok : s.SparesBatches l)
    (hst : Step s l s') : s'.BatchesAlive := by
  cases hst.kinds hi hok.1 with
  | passes L hf => exact h.flows hi hf
  | works s₀ L e a T T' k v i hf hL hent hl hfree ht hp =>
      intro t b g hx
      by_cases hba : b = a
      · subst hba
        rw [ht.timers, Function.update_self]
        cases hp with
        | apply | fire | destroy | move | arm | rearm | disarm | emit | leave | enter =>
            exact ⟨_, rfl⟩
        | free hd hact hno htk =>
            have hwork := hl (by rw [hd]; simp)
            exact absurd (htk _ g hx) (hok.2 e b hwork hd t g)
      · rw [ht.timers_ne hba]
        exact h.flows hi hf t b g ((ht.taken ..).mp hx)

/-- **The timers of a batch are alive** when they are dispatched, in runs in which no timer is freed
while a loop has taken an entry of it. -/
theorem batch_timers_alive {s s' : TimerRun} {ls : List TimerStep} (hs : s.Unused)
    (hrun : Run Step SparesBatches s ls s') :
    ∀ t x rest, s'.batches t = x :: rest → ∃ T, s'.timers x.timer = some T := by
  have hinv : s'.Inv ∧ s'.BatchesAlive := by
    refine Run.invariant (I := fun s => s.Inv ∧ s.BatchesAlive) ?_ hrun
      ⟨hs.inv, fun t a g hx => absurd hx hs.not_taken⟩
    intro s l s' h hok hst
    exact ⟨h.1.step hok.1 hst, h.2.step h.1 hok hst⟩
  intro t x rest hb
  exact hinv.2 t x.timer x.generation ⟨x, hb ▸ List.mem_cons_self, rfl, rfl⟩

/-- The timers 9, 8 and 7 of loop 0 are due together. The slot of timer 9 stops timer 8, which stays
in the batch, and deletes timer 6, which is not in it. -/
def slotInBatch : List TimerStep :=
  [.call (.loop 0) 9 (.startWith 0), .work (.loop 0),
    .call (.loop 0) 8 (.startWith 0), .work (.loop 0),
    .call (.loop 0) 7 (.startWith 0), .work (.loop 0),
    .take 0, .dispatch 0, .work (.loop 0), .work (.loop 0),
    .call (.loop 0) 8 .stop, .work (.loop 0), .destroy (.loop 0) 6, .work (.loop 0)]

/-- A slot that stops a timer of the batch and deletes another one. -/
theorem slot_spares_batch : ∃ s s' : TimerRun, Run Step SparesBatches s slotInBatch s' ∧
    s'.batches 0 = [⟨8, 0, 1⟩, ⟨7, 0, 1⟩] ∧ s'.timers 6 = none ∧ ∃ T, s'.timers 8 = some T := by
  have hs : (start fun a => if 6 ≤ a ∧ a ≤ 9 then some { owner := .loop 0 } else none).Unused :=
    unused_start_if rfl
  have hwork : ∀ {s : TimerRun} {k : TimerWork}, s.doing (.loop 0) = k →
      (∀ a, k ≠ .destroy a) → s.SparesBatches (.work (.loop 0)) := by
    intro s k hk hne
    refine ⟨undisturbed_work, fun e a he hd => ?_⟩
    obtain rfl := TimerStep.work.inj he
    exact absurd (hk.symm.trans hd) (hne a)
  have hidle : ∀ {s : TimerRun} {l : TimerStep}, (∀ e, l ≠ .work e) →
      (∀ e, s.doing e = .idle) → s.SparesBatches l :=
    fun hl h => ⟨undisturbed_of_idle h, fun e a he => absurd he (hl e)⟩
  have hrun : ∃ s', Run Step SparesBatches
      (start fun a => if 6 ≤ a ∧ a ≤ 9 then some { owner := .loop 0 } else none) slotInBatch s' ∧
      s'.batches 0 = [⟨8, 0, 1⟩, ⟨7, 0, 1⟩] ∧ s'.timers 6 = none := by
    refine ⟨_, .cons (hidle (by simp) fun _ => rfl) (.call rfl rfl rfl)
      (.cons (hwork (k := .arm 9 0 1) rfl (by simp)) (.work rfl)
      (.cons (hidle (by simp) (idle_of_first rfl (fun _ => rfl) rfl fun _ => rfl))
        (.call rfl rfl rfl)
      (.cons (hwork (k := .arm 8 0 1) rfl (by simp)) (.work rfl)
      (.cons (hidle (by simp) (idle_of_first rfl (fun _ => rfl) rfl fun _ => rfl))
        (.call rfl rfl rfl)
      (.cons (hwork (k := .arm 7 0 1) rfl (by simp)) (.work rfl)
      (.cons ⟨fun _ h => h.elim, by simp⟩ (.take rfl)
      (.cons (hidle (by simp) (idle_of_first rfl (fun _ => rfl) rfl fun _ => rfl))
        (.dispatch rfl rfl rfl)
      (.cons (hwork (k := .rearm 9 0 2 1) rfl (by simp)) (.work rfl)
      (.cons (hwork (k := .emit 9 1 false) rfl (by simp)) (.work rfl)
      (.cons (hidle (by simp) (idle_of_first rfl (fun _ => rfl) rfl fun _ => rfl))
        (.call rfl rfl rfl)
      (.cons (hwork (k := .disarm 8) rfl (by simp)) (.work rfl)
      (.cons (hidle (by simp) (idle_of_first rfl (fun _ => rfl) rfl fun _ => rfl))
        (.destroy rfl rfl rfl)
      (.cons ⟨undisturbed_work, ?_⟩ (.work rfl) (.nil _)))))))))))))), rfl, rfl⟩
    -- timer 6 is freed, and is in no batch
    intro e a he hd t g hx
    obtain rfl := TimerStep.work.inj he
    obtain rfl : 6 = a := TimerWork.destroy.inj hd
    obtain ⟨x, hmem, htimer, -⟩ := hx
    match t with
    | 0 =>
        have hmem : x ∈ [⟨8, 0, 1⟩, ⟨7, 0, 1⟩] := hmem
        simp only [List.mem_cons, List.not_mem_nil, or_false] at hmem
        rcases hmem with rfl | rfl <;> cases htimer
    | t + 1 => cases (show x ∈ [] from hmem)
  obtain ⟨s', hrun, hb, h6⟩ := hrun
  exact ⟨_, s', hrun, hb, h6, batch_timers_alive hs hrun 0 _ _ hb⟩

/-- The timers 8 and 7 of loop 0 are due together, and the slot of timer 8 deletes timer 7. -/
def deleteInBatch : List TimerStep :=
  [.call (.loop 0) 8 (.startWith 0), .work (.loop 0),
    .call (.loop 0) 7 (.startWith 0), .work (.loop 0),
    .take 0, .dispatch 0, .work (.loop 0), .work (.loop 0),
    .destroy (.loop 0) 7, .work (.loop 0)]

/-- **A freed timer is dispatched**: it is the next one of the batch, and the loop is idle. -/
theorem deleted_in_batch : ∃ s s' : TimerRun, ∃ x rest, s.Unused ∧
    Reaches Step s deleteInBatch s' ∧ s'.doing (.loop 0) = .idle ∧
    s'.batches 0 = x :: rest ∧ s'.timers x.timer = none := by
  have hs : (start fun a => if a = 7 ∨ a = 8 then some { owner := .loop 0 } else none).Unused :=
    unused_start_if rfl
  have hrun : ∃ s', Reaches Step
      (start fun a => if a = 7 ∨ a = 8 then some { owner := .loop 0 } else none) deleteInBatch s' ∧
      s'.doing (.loop 0) = .idle ∧ s'.batches 0 = [⟨7, 0, 1⟩] ∧ s'.timers 7 = none := by
    exact ⟨_, .cons trivial (.call rfl rfl rfl) (.cons trivial (.work rfl)
      (.cons trivial (.call rfl rfl rfl) (.cons trivial (.work rfl)
      (.cons trivial (.take rfl) (.cons trivial (.dispatch rfl rfl rfl)
      (.cons trivial (.work rfl) (.cons trivial (.work rfl)
      (.cons trivial (.destroy rfl rfl rfl) (.cons trivial (.work rfl) (.nil _)))))))))),
      rfl, rfl, rfl⟩
  obtain ⟨s', hrun, hidle, hb, hT⟩ := hrun
  exact ⟨_, s', _, _, hs, hrun, hidle, hb, hT⟩

/-! ### Emissions inside the owner -/

/-- The timer is active, and of the generation. -/
def Current (s : TimerRun) (a : Addr) (g : ℕ) : Prop :=
  ∃ T, s.timers a = some T ∧ T.state.active = true ∧ T.state.generation = g

/-- The condition on a step: calls on a timer do not overlap, and no timer gets another owner while
a loop has taken an entry of its current generation. -/
def KeepsOwner (s : TimerRun) (l : TimerStep) : Prop :=
  s.Undisturbed l ∧ ∀ e a target, l = .work e → s.doing e = .leave a target →
    ∀ t g, s.Taken (.loop t) a g → ¬ s.Current a g

/-- **The invariant**: an entry of the current generation that a loop has taken is of a timer of
this loop, and whoever is about to emit owns the timer. -/
structure AtHome (s : TimerRun) : Prop where
  taken : ∀ t a T, s.timers a = some T → T.state.active = true →
    s.Taken (.loop t) a T.state.generation → T.owner = .loop t
  emits : ∀ e a, (s.doing e).Emits a → ∃ T, s.timers a = some T ∧ T.owner = e

/-- Passing entries on keeps them at home. -/
theorem AtHome.flows (h : s.AtHome) (hi : s.Inv) (hf : Flows s s' L) : s'.AtHome where
  taken t a T hT hact hx := by
    rw [hf.timers] at hT
    rcases hf.taken hi.booked _ a _ hx with hx | hx
    · exact h.taken t a T hT hact hx
    · obtain ⟨T', hT', howner, -⟩ := hi.armed _ a _ hx
      obtain rfl := Option.some.inj (hT.symm.trans hT')
      exact howner
  emits e a he := by
    rw [hf.doing] at he
    rw [hf.timers]
    exact h.emits e a he

/-- What is left to emit was left before, or has just been decided. -/
theorem Part.emits (h : Part s s' e a T T' k v i) (hk : k.Emits b) :
    i = true ∨ (s.doing e).Emits a := by
  cases h with
  | fire => exact Or.inl rfl
  | rearm d f hd => exact Or.inr (by rw [hd]; exact rfl)
  | apply c =>
      cases c with
      | start | startWith | stop | setSingleShot => exact hk.elim
      | setInterval j =>
          rw [TimerCall.work] at hk
          split at hk
          · exact hk.elim
          · exact hk.elim
  | destroy | move | arm | disarm | emit | leave | free => exact hk.elim
  | enter =>
      split at hk
      · exact hk.elim
      · exact hk.elim

/-- A timer that is left to emit keeps its owner. -/
theorem Part.owner_of_emits (h : Part s s' e a T T' k v i) (hk : k.Emits b) :
    ∃ T₁, T' = some T₁ ∧ T₁.owner = T.owner := by
  cases h with
  | leave | free => exact hk.elim
  | apply | fire | destroy | move | arm | rearm | disarm | emit | enter => exact ⟨_, rfl, rfl⟩

/-- A part of a call changes the owner in the middle of a migration only. -/
theorem Part.owner_eq {T₁ : OwnedTimer} (h : Part s s' e a T (some T₁) k v i) :
    T₁.owner = T.owner ∨ ∃ target, s.doing e = .leave a target := by
  cases h with
  | leave target hd => exact Or.inr ⟨target, hd⟩
  | apply | fire | destroy | move | arm | rearm | disarm | emit | enter => exact Or.inl rfl

/-- What a part of a call leaves of its own timer is at home. -/
theorem AtHome.self {T₁ : OwnedTimer} (h : s.AtHome) (hi : s.Inv) (hok : s.KeepsOwner l)
    (hf : Flows s s₀ L) (hl : s.doing e ≠ .idle → l = .work e)
    (ht : Turn s₀ s' e a T (some T₁) k) (hp : Part s s' e a T (some T₁) k v i)
    {t : ThreadId} (hact : T₁.state.active = true)
    (hx : s'.Taken (.loop t) a T₁.state.generation) : T₁.owner = .loop t := by
  have hold : s.timers a = some T := (congrFun hf.timers a).symm.trans ht.old
  have hx₀ := (ht.taken ..).mp hx
  have hle := (hi.flows hf).taken _ a _ hx₀ T ht.old
  have hgen : T₁.state.generation = T.state.generation :=
    Nat.le_antisymm hle hp.generation
  have hact' := hp.active hact hgen
  rw [hgen] at hx₀
  have hhome : T.owner = .loop t := (h.flows hi hf).taken t a T ht.old hact' hx₀
  rcases hp.owner_eq with howner | ⟨target, hd⟩
  · exact howner.trans hhome
  · have hwork := hl (by rw [hd]; simp)
    rcases hf.taken hi.booked _ a _ hx₀ with hx₁ | hx₁
    · exact absurd ⟨T, hold, hact', rfl⟩ (hok.2 e a target hwork hd t _ hx₁)
    · have hwk := hi.work e
      rw [hd] at hwk
      exact absurd hx₁ (hwk.2 _ _)

/-- **The step lemma.** -/
theorem AtHome.step (h : s.AtHome) (hi : s.Inv) (hok : s.KeepsOwner l) (hst : Step s l s') :
    s'.AtHome := by
  cases hst.kinds hi hok.1 with
  | passes L hf => exact h.flows hi hf
  | works s₀ L e a T T' k v i hf hL hent hl hfree ht hp =>
      have hold : s.timers a = some T := (congrFun hf.timers a).symm.trans ht.old
      have h₀ := h.flows hi hf
      constructor
      · intro t b T₁ hT₁ hact hx
        by_cases hba : b = a
        · subst hba
          rw [ht.timers, Function.update_self] at hT₁
          subst hT₁
          exact h.self hi hok hf hl ht hp hact hx
        · rw [ht.timers_ne hba] at hT₁
          exact h₀.taken t b T₁ hT₁ hact ((ht.taken ..).mp hx)
      · intro e' b hx
        rw [ht.doing] at hx
        by_cases he : e' = e
        · subst he
          rw [Function.update_self] at hx
          obtain rfl := hp.timer? hx.timer?
          have howner : T.owner = e' := by
            rcases hp.emits hx with rfl | hd
            · obtain ⟨hown, hstrand⟩ := hent rfl
              rcases hown with hown | htk
              · exact hown
              · cases he : e' with
                | strand j => exact he ▸ (hstrand j he).1
                | loop t =>
                    subst he
                    cases hp with
                    | fire hd hact => exact h.taken t b T hold hact htk
            · obtain ⟨T₁, hT₁, howner⟩ := h.emits e' b hd
              obtain rfl := Option.some.inj (hold.symm.trans hT₁)
              exact howner
          obtain ⟨T₁, rfl, howner₁⟩ := hp.owner_of_emits hx
          exact ⟨T₁, by rw [ht.timers, Function.update_self], howner₁.trans howner⟩
        · rw [Function.update_of_ne he] at hx
          have hba : b ≠ a := by
            rintro rfl
            rw [hf.doing] at hx
            exact hfree e' he hx.timer?
          rw [ht.timers_ne hba]
          exact h₀.emits e' b hx

/-- Unused timers are at home. -/
theorem Unused.atHome (h : s.Unused) : s.AtHome where
  taken t a T hT hact hx := absurd hx h.not_taken
  emits e a he := by
    rw [h.doing] at he
    exact he.elim

/-- **`timeout` is emitted inside the owner only**, in runs in which no timer gets another owner
while a loop has taken an entry of its current generation. -/
theorem emitted_by_owner {s s' : TimerRun} {ls : List TimerStep} (hs : s.Unused)
    (hrun : Run Step KeepsOwner s ls s') :
    ∀ e a f singleShot, s'.doing e = .emit a f singleShot →
      ∃ T, s'.timers a = some T ∧ T.owner = e := by
  have hinv : s'.Inv ∧ s'.AtHome := by
    refine Run.invariant (I := fun s => s.Inv ∧ s.AtHome) ?_ hrun ⟨hs.inv, hs.atHome⟩
    intro s l s' h hok hst
    exact ⟨h.1.step hok.1 hst, h.2.step h.1 hok hst⟩
  intro e a f w hd
  exact hinv.2.emits e a (by rw [hd]; exact rfl)

/-- Loop 0 dispatches a timer of its own. -/
theorem loop_emits_own : ∃ s' : TimerRun, s'.doing (.loop 0) = .emit 7 1 false ∧
    ∃ T, s'.timers 7 = some T ∧ T.owner = .loop 0 := by
  have hs : (start fun a => if a = 7 then some { owner := .loop 0 } else none).Unused :=
    unused_start_if rfl
  have hwork : ∀ {s : TimerRun} {k : TimerWork}, s.doing (.loop 0) = k →
      (∀ a target, k ≠ .leave a target) → s.KeepsOwner (.work (.loop 0)) := by
    intro s k hk hne
    refine ⟨undisturbed_work, fun e a target he hd => ?_⟩
    obtain rfl := TimerStep.work.inj he
    exact absurd (hk.symm.trans hd) (hne a target)
  have hrun : ∃ s', Run Step KeepsOwner
      (start fun a => if a = 7 then some { owner := .loop 0 } else none)
      [.call (.loop 0) 7 (.startWith 0), .work (.loop 0), .take 0, .dispatch 0,
        .work (.loop 0)] s' ∧ s'.doing (.loop 0) = .emit 7 1 false := by
    exact ⟨_, .cons ⟨undisturbed_of_idle fun _ => rfl, by simp⟩ (.call rfl rfl rfl)
      (.cons (hwork (k := .arm 7 0 1) rfl (by simp)) (.work rfl)
      (.cons ⟨fun _ h => h.elim, by simp⟩ (.take rfl)
      (.cons ⟨undisturbed_of_idle (idle_update_update (.loop 0) _), by simp⟩ (.dispatch rfl rfl rfl)
      (.cons (hwork (k := .rearm 7 0 2 1) rfl (by simp)) (.work rfl) (.nil _))))), rfl⟩
  obtain ⟨s', hrun, hd⟩ := hrun
  exact ⟨s', hd, emitted_by_owner hs hrun _ _ _ _ hd⟩

/-- The timers 8 and 7 of loop 0 are due together, and the slot of timer 8 moves timer 7 to
loop 1. -/
def moveInBatch : List TimerStep :=
  [.call (.loop 0) 8 (.startWith 0), .work (.loop 0),
    .call (.loop 0) 7 (.startWith 0), .work (.loop 0),
    .take 0, .dispatch 0, .work (.loop 0), .work (.loop 0),
    .move (.loop 0) 7 (.loop 1), .work (.loop 0), .work (.loop 0), .work (.loop 0),
    .dispatch 0, .work (.loop 0)]

/-- **A former owner emits**: loop 0 is about to emit for timer 7, which loop 1 owns. -/
theorem emitted_by_former_owner : ∃ s s' : TimerRun, ∃ T, s.Unused ∧
    Reaches Step s moveInBatch s' ∧ s'.doing (.loop 0) = .emit 7 1 false ∧
    s'.timers 7 = some T ∧ T.owner = .loop 1 := by
  have hs : (start fun a => if a = 7 ∨ a = 8 then some { owner := .loop 0 } else none).Unused :=
    unused_start_if rfl
  have hrun : ∃ s', Reaches Step
      (start fun a => if a = 7 ∨ a = 8 then some { owner := .loop 0 } else none) moveInBatch s' ∧
      s'.doing (.loop 0) = .emit 7 1 false ∧ (s'.timers 7).map (·.owner) = some (.loop 1) := by
    exact ⟨_, .cons trivial (.call rfl rfl rfl) (.cons trivial (.work rfl)
      (.cons trivial (.call rfl rfl rfl) (.cons trivial (.work rfl)
      (.cons trivial (.take rfl) (.cons trivial (.dispatch rfl rfl rfl)
      (.cons trivial (.work rfl) (.cons trivial (.work rfl)
      (.cons trivial (.move rfl rfl rfl (by decide)) (.cons trivial (.work rfl)
      (.cons trivial (.work rfl) (.cons trivial (.work rfl)
      (.cons trivial (.dispatch rfl rfl rfl) (.cons trivial (.work rfl)
      (.nil _)))))))))))))), rfl, rfl⟩
  obtain ⟨s', hrun, hd, hT⟩ := hrun
  obtain ⟨T, hT, howner⟩ := Option.map_eq_some_iff.mp hT
  exact ⟨_, s', T, hs, hrun, hd, hT, howner⟩

end TimerRun

end SimplyNode
