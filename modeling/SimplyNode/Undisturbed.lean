import SimplyNode.TimerEntries

/-!
# Calls on a Timer that do not Overlap

The calls on a timer are made inside its owner, one after another; what can make two of them
overlap is that the owner is published before a migration has ended, or that a loop dispatches an
entry of a timer that has left it. A run is undisturbed if that does not happen: a call on a timer
begins only when nobody is in the middle of another one.

## Main results

* `Undisturbed`: the condition on a step.
* `Step.kinds`: an undisturbed step passes entries on, or it is a part of a call (`Part`) that
  changes one timer and its entry (`Turn`).
* `Inv.step`: the invariant of the entries and of the work in progress is kept by every undisturbed
  step.
-/

open Transition

namespace SimplyNode

/-- The timer that a task concerns. -/
def Task.timer? : Task → Option Addr
  | .timer p _ | .timeout p _ => some p.node
  | _ => none

namespace TimerRun

/-- The step begins a call on the timer. A task is such a call when the executor that runs it
owns the timer. -/
def Begins (s : TimerRun) : TimerStep → Addr → Prop
  | .call _ b _, a | .move _ b _, a | .destroy _ b, a => b = a
  | .dispatch t, a => ∃ x rest, s.batches t = x :: rest ∧ x.timer = a
  | .runTask e, a => ∃ k rest T, s.tasks e = k :: rest ∧ k.timer? = some a ∧
      s.timers a = some T ∧ T.owner = e
  | _, _ => False

/-- No call on a timer begins while an executor is in the middle of another one. -/
def Undisturbed (s : TimerRun) (l : TimerStep) : Prop :=
  ∀ a, s.Begins l a → ∀ e, (s.doing e).timer? ≠ some a

variable {s s₀ s' : TimerRun} {e e' : ExecutorId} {a b : Addr} {g f : ℕ} {T : OwnedTimer}
  {T' : Option OwnedTimer} {k : TimerWork} {c : TimerCall} {v : Option TimerEvent} {i : Bool}
  {l : TimerStep} {L : ExecutorId → Addr → ℕ → Prop}

/-! ### What the parts of a call do to the timer -/

/-- A control call does not lower the generation. -/
theorem generation_after (t : TimerState) (now : TimePoint) (c : TimerCall) :
    t.generation ≤ (t.after now c).generation := by
  cases c with
  | start | startWith i | stop => exact Nat.le_succ _
  | setSingleShot b => exact Nat.le_refl _
  | setInterval i =>
      rw [TimerState.after, TimerState.withInterval]
      split
      · exact Nat.le_succ _
      · exact Nat.le_refl _

/-- An emission ends the generation that it is for. -/
theorem generation_fired (t : TimerState) (now : TimePoint) :
    (t.fired now).generation = t.generation + 1 := by
  rw [TimerState.fired]
  split <;> rfl

/-- A repeating timer goes on running when it emits. -/
theorem active_fired {t : TimerState} {now : TimePoint} :
    (t.fired now).active = !t.singleShot := by
  rw [TimerState.fired]
  cases t.singleShot <;> rfl

/-- What a control call leaves to do is about its timer. -/
theorem timer?_work {t t' : TimerState} (h : (c.work a t t').timer? = some b) : b = a := by
  cases c with
  | start | startWith i | stop => exact (Option.some.inj h).symm
  | setSingleShot v => exact absurd h (by simp [TimerCall.work, TimerWork.timer?])
  | setInterval i =>
      rw [TimerCall.work] at h
      split at h
      · exact (Option.some.inj h).symm
      · exact absurd h (by simp [TimerWork.timer?])

/-- What an emission leaves to do is about its timer. -/
theorem timer?_firing {t : TimerState} {now : TimePoint} :
    (t.firing a now).timer? = some a := by
  rw [TimerState.firing]
  split <;> rfl

/-! ### The parts of a call -/

/-- The executor `e` makes one part of a call on the timer `a`, whose object is `T` before, and goes
on to the work `k`. In `s` the part has not begun, and in `s'` it is done. The last index says
whether `dispatchTimeout` has decided to emit. -/
inductive Part (s s' : TimerRun) (e : ExecutorId) (a : Addr) (T : OwnedTimer) :
    Option OwnedTimer → TimerWork → Option TimerEvent → Bool → Prop
  | apply (c : TimerCall) : s.doing e = .idle → T.owner = e →
      (∀ e' g, s.Armed e' a g → s'.Armed e' a g) →
      Part s s' e a T (some { T with state := T.state.after s.now c })
        (c.work a T.state (T.state.after s.now c)) (some (.applied a c)) false
  | fire : s.doing e = .idle → T.state.active = true →
      Part s s' e a T (some { T with state := T.state.fired s.now })
        (T.state.firing a s.now) none true
  | destroy : s.doing e = .idle → T.owner = e →
      Part s s' e a T (some { T with state := T.state.stopped }) (.destroy a) none false
  | move (target : ExecutorId) : s.doing e = .idle → T.owner = e → target ≠ e →
      (∀ e' g, ¬ s'.Armed e' a g) → Part s s' e a T (some T) (.leave a target) none false
  | arm (d : TimePoint) : s.doing e = .arm a d T.state.generation →
      T.state.active = true →
      (s.Serves T.owner → s'.Armed T.owner a T.state.generation) →
      Part s s' e a T (some T) .idle none false
  | rearm (d : TimePoint) (f : ℕ) : s.doing e = .rearm a d T.state.generation f →
      T.state.active = true → f < T.state.generation →
      (s.Serves T.owner → s'.Armed T.owner a T.state.generation) →
      Part s s' e a T (some T) (.emit a f false) none false
  | disarm : s.doing e = .disarm a → T.state.active = false →
      Part s s' e a T (some T) .idle none false
  | emit (f : ℕ) (singleShot : Bool) : s.doing e = .emit a f singleShot →
      f < T.state.generation → (∀ e' g, s.Armed e' a g → s'.Armed e' a g) →
      Part s s' e a T (some T) .idle (some (.emitted a f singleShot T.state.active)) false
  | leave (target : ExecutorId) : s.doing e = .leave a target → T.owner = e →
      (∀ e' g, ¬ s.Armed e' a g) → (∀ e' g, ¬ s'.Armed e' a g) →
      Part s s' e a T (some { T with owner := target }) (.enter a) none false
  | enter : s.doing e = .enter a → (∀ e' g, ¬ s'.Armed e' a g) → Part s s' e a T (some T)
      (if T.state.active then .arm a T.state.deadline T.state.generation else .idle) none false
  | free : s.doing e = .destroy a → T.state.active = false → (∀ e' g, ¬ s'.Armed e' a g) →
      (∀ e' g, s'.Taken e' a g → s.Taken e' a g) →
      Part s s' e a T none .idle none false

/-- What one part of a call on the timer `a` changes. -/
structure Turn (s s' : TimerRun) (e : ExecutorId) (a : Addr) (T : OwnedTimer)
    (T' : Option OwnedTimer) (k : TimerWork) : Prop where
  old : s.timers a = some T
  timers : s'.timers = Function.update s.timers a T'
  doing : s'.doing = Function.update s.doing e k
  pool : ∀ j, (s'.strands j).pool = (s.strands j).pool
  stopped : ∀ p, (s'.services p).stopped = (s.services p).stopped
  booked : s'.Booked
  armed : ∀ e' b g, s'.Armed e' b g →
    b = a ∧ e' = T.owner ∧ g = T.state.generation ∧ s.Serves e' ∨ s.Armed e' b g
  keeps : ∀ e' b g, b ≠ a → s.Armed e' b g → s'.Armed e' b g
  taken : ∀ e' b g, s'.Taken e' b g ↔ s.Taken e' b g

/-- The entries of `L` are of no use: their timers have another owner, are not active, or are of
another generation. -/
def Lapsed (s : TimerRun) (L : ExecutorId → Addr → ℕ → Prop) : Prop :=
  ∀ e a g, L e a g → ∀ T, s.timers a = some T → T.owner = e → T.state.active = true →
    T.state.generation ≠ g

/-- What an executor calls `dispatchTimeout` for: an entry that has been taken for it. A strand
looks at the owner first. -/
def Entitled (s : TimerRun) (e : ExecutorId) (a : Addr) (T : OwnedTimer) : Prop :=
  (T.owner = e ∨ s.Taken e a T.state.generation) ∧
    ∀ j, e = .strand j → T.owner = e ∧ s.Taken e a T.state.generation

/-- **What an undisturbed step can be**: it passes entries on, or it is a part of a call on a timer
that no other executor works on. Only an emission uses up an entry. -/
inductive Kind (s : TimerRun) (l : TimerStep) (s' : TimerRun) : Prop
  | passes (L : ExecutorId → Addr → ℕ → Prop) : Flows s s' L →
      ((∀ p, l ≠ .serviceStop p) → s.Lapsed L) → Kind s l s'
  | works (s₀ : TimerRun) (L : ExecutorId → Addr → ℕ → Prop) (e : ExecutorId) (a : Addr)
      (T : OwnedTimer) (T' : Option OwnedTimer) (k : TimerWork) (v : Option TimerEvent)
      (i : Bool) :
      Flows s s₀ L → (∀ e' b g, L e' b g → b = a ∧ i = true) →
      (i = true → s.Entitled e a T) → (s.doing e ≠ .idle → l = .work e) →
      s.Free e a → Turn s₀ s' e a T T' k → Part s s' e a T T' k v i →
      s'.log = v.toList ++ s.log → Kind s l s'

/-! ### The turns -/

namespace Turn

/-- A timer is changed. -/
theorem change (hb : s.Booked) (hT : s.timers a = some T) (T₁ : OwnedTimer) (k : TimerWork) :
    Turn s (s.change e a T₁ k) e a T (some T₁) k where
  old := hT
  timers := rfl
  doing := rfl
  pool _ := rfl
  stopped _ := rfl
  booked := ⟨hb.indexed, hb.home⟩
  armed e' b g h := by
    cases e' <;> exact Or.inr h
  keeps e' b g _ h := by
    cases e' <;> exact h
  taken e' b g := by
    cases e' <;> exact Iff.rfl

/-- The executor only goes on. -/
theorem goOn (hb : s.Booked) (hT : s.timers a = some T) (k : TimerWork) :
    Turn s (s.goOn e k) e a T (some T) k where
  old := hT
  timers := (Function.update_eq_self_iff.mpr hT.symm).symm
  doing := rfl
  pool _ := rfl
  stopped _ := rfl
  booked := ⟨hb.indexed, hb.home⟩
  armed e' b g h := by
    cases e' <;> exact Or.inr h
  keeps e' b g _ h := by
    cases e' <;> exact h
  taken e' b g := by
    cases e' <;> exact Iff.rfl

/-- The owner schedules the timer. -/
theorem scheduleTimer (hb : s.Booked) (hT : s.timers a = some T) (d : TimePoint)
    (k : TimerWork) : Turn s ((s.scheduleTimer T.owner a d T.state.generation).goOn e k)
      e a T (some T) k where
  old := hT
  timers := objects_scheduleTimer.trans (Function.update_eq_self_iff.mpr hT.symm).symm
  doing := by rw [TimerRun.goOn, doing_scheduleTimer]
  pool j := by rw [TimerRun.goOn, strands_scheduleTimer]
  stopped p := stopped_scheduleTimer p
  booked :=
    have hb' := booked_scheduleTimer (e := T.owner) hb
    ⟨hb'.indexed, hb'.home⟩
  armed e' b g h := by
    have h' : (s.scheduleTimer T.owner a d T.state.generation).Armed e' b g := by
      cases e' <;> exact h
    rcases armed_scheduleTimer hb h' with ⟨rfl, rfl, rfl, hs⟩ | h'
    · exact Or.inl ⟨rfl, rfl, rfl, hs⟩
    · exact Or.inr h'
  keeps e' b g hne h := by
    have h' : (s.scheduleTimer T.owner a d T.state.generation).Armed e' b g :=
      h.scheduleTimer hb hne
    cases e' <;> exact h'
  taken e' b g := by
    have htk : (s.scheduleTimer T.owner a d T.state.generation).Taken e' b g ↔
        s.Taken e' b g := taken_scheduleTimer
    refine Iff.trans ?_ htk
    cases e' <;> exact Iff.rfl

/-- An executor cancels the timer. -/
theorem cancelTimer (hb : s.Booked) (hT : s.timers a = some T) (o : ExecutorId)
    (k : TimerWork) : Turn s ((s.cancelTimer o a).goOn e k) e a T (some T) k where
  old := hT
  timers := objects_cancelTimer.trans (Function.update_eq_self_iff.mpr hT.symm).symm
  doing := by rw [TimerRun.goOn, doing_cancelTimer]
  pool j := by rw [TimerRun.goOn, strands_cancelTimer]
  stopped p := stopped_cancelTimer p
  booked :=
    have hb' := booked_cancelTimer (e := o) (a := a) hb
    ⟨hb'.indexed, hb'.home⟩
  armed e' b g h := by
    have h' : (s.cancelTimer o a).Armed e' b g := by
      cases e' <;> exact h
    exact Or.inr (armed_cancelTimer hb h').1
  keeps e' b g hne h := by
    have h' : (s.cancelTimer o a).Armed e' b g := h.cancelTimer hb hne
    cases e' <;> exact h'
  taken e' b g := by
    have htk : (s.cancelTimer o a).Taken e' b g ↔ s.Taken e' b g := taken_cancelTimer
    refine Iff.trans ?_ htk
    cases e' <;> exact Iff.rfl

/-- The object is freed as well. -/
theorem free {T₁ : Option OwnedTimer} (h : Turn s s' e a T T₁ k) :
    Turn s { s' with timers := Function.update s.timers a none } e a T none k where
  old := h.old
  timers := rfl
  doing := h.doing
  pool := h.pool
  stopped := h.stopped
  booked := ⟨h.booked.indexed, h.booked.home⟩
  armed e' b g hx := by
    have hx' : s'.Armed e' b g := by
      cases e' <;> exact hx
    exact h.armed e' b g hx'
  keeps e' b g hne hx := by
    have hx' := h.keeps e' b g hne hx
    cases e' <;> exact hx'
  taken e' b g := by
    refine Iff.trans ?_ (h.taken e' b g)
    cases e' <;> exact Iff.rfl

/-- What is observed changes nothing else. -/
theorem record (h : Turn s s' e a T T' k) (v : TimerEvent) : Turn s (s'.record v) e a T T' k where
  old := h.old
  timers := h.timers
  doing := h.doing
  pool := h.pool
  stopped := h.stopped
  booked := ⟨h.booked.indexed, h.booked.home⟩
  armed e' b g hx := by
    have hx' : s'.Armed e' b g := by
      cases e' <;> exact hx
    exact h.armed e' b g hx'
  keeps e' b g hne hx := by
    have hx' := h.keeps e' b g hne hx
    cases e' <;> exact hx'
  taken e' b g := by
    refine Iff.trans ?_ (h.taken e' b g)
    cases e' <;> exact Iff.rfl

end Turn

/-- The owner's cancelled timer has no entry. -/
theorem Inv.not_armed_cancelTimer (hi : s.Inv) (hT : s.timers a = some T) :
    ¬ (s.cancelTimer T.owner a).Armed e' a g := by
  intro h
  obtain ⟨h, hne⟩ := armed_cancelTimer hi.booked h
  obtain ⟨T', hT', howner, -⟩ := hi.armed e' a g h
  obtain rfl := Option.some.inj (hT.symm.trans hT')
  exact hne ⟨howner.symm, rfl⟩

theorem armed_change {T₁ : OwnedTimer} :
    (s.change e a T₁ k).Armed e' b g ↔ s.Armed e' b g := by
  cases e' <;> exact Iff.rfl

theorem armed_goOn : (s.goOn e k).Armed e' b g ↔ s.Armed e' b g := by
  cases e' <;> exact Iff.rfl

/-! ### What each step is -/

/-- Nothing is lost. -/
theorem lapsed_false : s.Lapsed fun _ _ _ => False :=
  fun _ _ _ h => h.elim

/-- A control call inside the owner. -/
theorem kind_apply (hi : s.Inv) (hf : Flows s s₀ fun _ _ _ => False) (hlog : s₀.log = s.log)
    (hnow : s₀.now = s.now) (hidle : s.doing e = .idle) (hfree : s.Free e a)
    (hT : s.timers a = some T) (hown : T.owner = e)
    (harm : ∀ e' g, s.Armed e' a g → s₀.Armed e' a g) : Kind s l (s₀.apply e a T c) := by
  have hT₀ : s₀.timers a = some T := (congrFun hf.timers a).trans hT
  have ht := (Turn.change (e := e) (hf.booked hi.booked) hT₀
    { T with state := T.state.after s.now c } (c.work a T.state (T.state.after s.now c))).record
    (.applied a c)
  rw [apply, hnow]
  refine .works s₀ _ e a T _ _ _ _ hf (fun _ _ _ h => h.elim) (by simp)
    (fun h => absurd hidle h) hfree ht (.apply c hidle hown fun e' g hx => ?_)
    (by simp [record, change, hlog])
  have hx₀ := harm e' g hx
  cases e' <;> exact hx₀

/-- `dispatchTimeout` for an entry that has just been taken up. -/
theorem kind_dispatch (hi : s.Inv) (hf : Flows s s₀ L)
    (hL : ∀ e' b f, L e' b f → e' = e ∧ b = a ∧ f = g) (hlog : s₀.log = s.log)
    (hnow : s₀.now = s.now) (hidle : s.doing e = .idle) (hfree : s.Free e a)
    (hT : s.timers a = some T)
    (hent : T.state.generation = g → s.Entitled e a T) :
    Kind s l (s₀.dispatch e a g T) := by
  have hT₀ : s₀.timers a = some T := (congrFun hf.timers a).trans hT
  rw [dispatch]
  split
  · rename_i hcur
    simp only [Bool.and_eq_true, beq_iff_eq] at hcur
    obtain ⟨hact, rfl⟩ := hcur
    have ht := Turn.change (e := e) (hf.booked hi.booked) hT₀
      { T with state := T.state.fired s.now } (T.state.firing a s.now)
    rw [hnow]
    exact .works s₀ L e a T _ _ none _ hf (fun e' b f h => ⟨(hL e' b f h).2.1, rfl⟩)
      (fun _ => hent rfl) (fun h => absurd hidle h) hfree ht (.fire hidle hact) hlog
  · rename_i hcur
    refine .passes L hf fun _ e' b f h T₁ hT₁ _ hact hgen => ?_
    obtain ⟨rfl, rfl, rfl⟩ := hL e' b f h
    obtain rfl := Option.some.inj (hT.symm.trans hT₁)
    exact hcur (by simp [hact, hgen])

/-- A task is run. -/
theorem kind_runTask {t : Task} {rest : List Task} (hi : s.Inv) (hidle : s.doing e = .idle)
    (hq : s.tasks e = t :: rest) (hfree : ∀ a T, t.timer? = some a → s.timers a = some T →
      T.owner = e → s.Free e a) : Kind s l ((s.setTasks e rest).runTask e t) := by
  have hlog : (s.setTasks e rest).log = s.log := log_setTasks
  have hnow : (s.setTasks e rest).now = s.now := by cases e <;> rfl
  have hobj : (s.setTasks e rest).timers = s.timers := objects_setTasks
  have hpass : (∀ p g, t ≠ .timeout p g) → ∀ L, Flows s (s.setTasks e rest) L :=
    fun ht L => .pop hq fun p g hp => absurd hp (ht p g)
  cases t with
  | timer p c =>
      have hflow := hpass (by simp) fun _ _ _ => False
      simp only [runTask, hobj]
      cases hT : s.timers p.node with
      | none => exact .passes _ hflow fun _ => lapsed_false
      | some T =>
          dsimp only
          split
          · exact kind_apply hi hflow hlog hnow hidle (hfree _ T rfl hT ‹_›) hT ‹_›
              fun _ _ => armed_setTasks.mpr
          · exact .passes _ (hflow.trans (.post fun _ _ => by simp) hlog) fun _ => lapsed_false
  | timeout p g =>
      have hflow : Flows s (s.setTasks e rest) fun e' b f => e' = e ∧ b = p.node ∧ f = g :=
        .pop hq fun q f hp => by
          obtain ⟨rfl, rfl⟩ := Task.timeout.inj hp
          exact ⟨rfl, rfl, rfl⟩
      simp only [runTask, hobj]
      cases hT : s.timers p.node with
      | none =>
          refine .passes _ hflow fun _ e' b f h T hT' => ?_
          obtain ⟨-, rfl, -⟩ := h
          exact absurd (hT.symm.trans hT') (by simp)
      | some T =>
          dsimp only
          split
          · rename_i hown
            refine kind_dispatch hi hflow (fun _ _ _ h => h) hlog hnow hidle
              (hfree _ T rfl hT hown) hT fun hgen => ⟨Or.inl hown, ?_⟩
            rintro j rfl
            exact ⟨hown, Or.inr ⟨p, rfl, hq ▸ hgen ▸ List.mem_cons_self⟩⟩
          · rename_i hown
            refine .passes _ hflow fun _ e' b f h T₁ hT₁ howner => ?_
            obtain ⟨rfl, rfl, -⟩ := h
            obtain rfl := Option.some.inj (hT.symm.trans hT₁)
            exact absurd howner hown
  | deleteNode | moveToThread | moveToTaskPool | slot | call =>
      exact .passes _ (hpass (by simp) fun _ _ _ => False) fun _ => lapsed_false

/-- A part of a call that is under way. -/
theorem kind_work {T' : Option OwnedTimer} {k : TimerWork} {v : Option TimerEvent}
    (hfree : s.Free e a) (ht : Turn s s' e a T T' k) (hpart : Part s s' e a T T' k v false)
    (hlog : s'.log = v.toList ++ s.log) : Kind s (.work e) s' := by
  have hflow : Flows s s fun _ _ _ => False :=
    .of_iff rfl rfl rfl rfl rfl (Or.inl rfl) (fun _ _ _ => Iff.rfl) fun _ _ _ => Iff.rfl
  exact .works s _ e a T T' k v false hflow (fun _ _ _ h => h.elim) (fun h => by cases h)
    (fun _ => rfl) hfree ht hpart hlog

/-- The next part of a call. -/
theorem kind_advance (hi : s.Inv) (h : s.advance e = some s') : Kind s (.work e) s' := by
  have hwork := hi.work e
  have hfree : ∀ a, (s.doing e).timer? = some a → s.Free e a := hi.sole e
  have hb := hi.booked
  rw [advance] at h
  cases hd : s.doing e with
  | idle =>
      rw [hd] at h
      exact absurd h (by simp)
  | arm a d g =>
      rw [hd] at h hwork hfree
      obtain ⟨T, hT, hact, rfl⟩ := hwork
      simp only [hT, Option.map_some] at h
      obtain rfl := Option.some.inj h
      exact kind_work (hfree a rfl) (.scheduleTimer hb hT d _)
        (.arm d hd hact fun hs => armed_goOn.mpr (armed_scheduleTimer_self hb hs))
        log_scheduleTimer
  | rearm a d g f =>
      rw [hd] at h hwork hfree
      obtain ⟨T, hT, hact, rfl, hlt⟩ := hwork
      simp only [hT, Option.map_some] at h
      obtain rfl := Option.some.inj h
      exact kind_work (hfree a rfl) (.scheduleTimer hb hT d _)
        (.rearm d f hd hact hlt fun hs => armed_goOn.mpr (armed_scheduleTimer_self hb hs))
        log_scheduleTimer
  | disarm a =>
      rw [hd] at h hwork hfree
      obtain ⟨T, hT, hact⟩ := hwork
      simp only [hT, Option.map_some] at h
      obtain rfl := Option.some.inj h
      exact kind_work (hfree a rfl) (.cancelTimer hb hT _ _) (.disarm hd hact) log_cancelTimer
  | emit a f v =>
      rw [hd] at h hwork hfree
      obtain ⟨T, hT, hlt⟩ := hwork
      simp only [hT, Option.map_some] at h
      obtain rfl := Option.some.inj h
      exact kind_work (hfree a rfl) ((Turn.goOn hb hT _).record _)
        (.emit f v hd hlt fun e' g hx => by cases e' <;> exact hx) rfl
  | leave a target =>
      rw [hd] at h hwork hfree
      obtain ⟨⟨T, hT, hown⟩, hnone⟩ := hwork
      simp only [hT, Option.map_some] at h
      obtain rfl := Option.some.inj h
      exact kind_work (hfree a rfl) (.change hb hT _ _)
        (.leave target hd hown hnone fun e' g hx => hnone e' g (armed_change.mp hx)) rfl
  | enter a =>
      rw [hd] at h hwork hfree
      obtain ⟨⟨T, hT⟩, hnone⟩ := hwork
      simp only [hT, Option.map_some] at h
      obtain rfl := Option.some.inj h
      exact kind_work (hfree a rfl) (.goOn hb hT _)
        (.enter hd fun e' g hx => hnone e' g (armed_goOn.mp hx)) rfl
  | destroy a =>
      rw [hd] at h hwork hfree
      obtain ⟨T, hT, hact⟩ := hwork
      simp only [hT, Option.map_some] at h
      obtain rfl := Option.some.inj h
      have ht : Turn s _ e a T none .idle := Turn.free (.cancelTimer hb hT T.owner .idle)
      refine kind_work (hfree a rfl) ht
        (.free hd hact (fun e' g hx => ?_) fun e' g => (ht.taken e' a g).mp) log_cancelTimer
      have hx' : (s.cancelTimer T.owner a).Armed e' a g := by
        cases e' <;> exact hx
      exact hi.not_armed_cancelTimer hT hx'

/-- What begins in an undisturbed step is free for its executor. -/
theorem Undisturbed.free (hu : s.Undisturbed l) (h : s.Begins l a) : s.Free e a :=
  fun e' _ => hu a h e'

/-- **Undisturbed steps** pass entries on, or are parts of calls. -/
theorem Step.kinds (hi : s.Inv) (hu : s.Undisturbed l) (h : Step s l s') : Kind s l s' := by
  have hflow : Flows s s fun _ _ _ => False :=
    .of_iff rfl rfl rfl rfl rfl (Or.inl rfl) (fun _ _ _ => Iff.rfl) fun _ _ _ => Iff.rfl
  have hb := hi.booked
  cases h with
  | post hT =>
      exact .passes _ ((Flows.post fun _ _ => by simp).trans .called log_setTasks)
        fun _ => lapsed_false
  | call hidle hT hown =>
      exact kind_apply hi hflow rfl rfl hidle (hu.free rfl) hT hown fun _ _ h => h
  | @runTask e k rest hidle hq =>
      exact kind_runTask hi hidle hq fun a T hk hT hown => hu.free ⟨k, rest, T, hq, hk, hT, hown⟩
  | take hidle => exact .passes _ .take fun _ => lapsed_false
  | @dispatch t x rest T hidle hq hT =>
      refine kind_dispatch hi (.popBatch (L := fun e' b f => e' = .loop t ∧ b = x.timer ∧
        f = x.generation) hq ⟨rfl, rfl, rfl⟩) (fun _ _ _ h => h) rfl rfl hidle
        (hu.free ⟨x, rest, hq, rfl⟩) hT fun hgen => ⟨Or.inr ?_, fun j hj => absurd hj (by simp)⟩
      exact ⟨x, hq ▸ List.mem_cons_self, rfl, hgen.symm⟩
  | @move e target a T hidle hT hown hne =>
      subst hown
      exact .works s _ _ a T _ _ none _ hflow (fun _ _ _ h => h.elim) (by simp)
        (fun h => absurd hidle h) (hu.free rfl)
        (.cancelTimer hb hT _ _)
        (.move target hidle rfl hne fun e' g hx => hi.not_armed_cancelTimer hT (armed_goOn.mp hx))
        log_cancelTimer
  | destroy hidle hT hown =>
      exact .works s _ _ _ _ _ _ none _ hflow (fun _ _ _ h => h.elim) (by simp)
        (fun h => absurd hidle h) (hu.free rfl)
        (.change hb hT _ _) (.destroy hidle hown) rfl
  | work hw => exact kind_advance hi hw
  | serviceTake hs hd => exact .passes _ (.serviceTake hd) fun _ => lapsed_false
  | servicePost hd => exact .passes _ (.servicePost hd) fun _ => lapsed_false
  | serviceStop =>
      exact .passes (fun _ _ _ => True) (.serviceStop fun _ _ _ _ => trivial)
        fun h => absurd rfl (h _)
  | serviceJoin hs hd => exact .passes _ .clock fun _ => lapsed_false
  | tick hle => exact .passes _ .clock fun _ => lapsed_false

/-! ### What running a task leaves alone -/

theorem services_dispatch : (s.dispatch e a g T).services = s.services := by
  rw [dispatch]
  split <;> rfl

theorem services_runTask {t : Task} : (s.runTask e t).services = s.services := by
  cases t with
  | timer p c =>
      simp only [runTask]
      cases s.timers p.node with
      | none => rfl
      | some T =>
          dsimp only
          split
          · rfl
          · exact services_setTasks
  | timeout p g =>
      simp only [runTask]
      cases s.timers p.node with
      | none => rfl
      | some T =>
          dsimp only
          split
          · exact services_dispatch
          · rfl
  | deleteNode | moveToThread | moveToTaskPool | slot | call => rfl

theorem joined_runTask {t : Task} : (s.runTask e t).joined = s.joined := by
  have hpost : ∀ (o : ExecutorId) (u : Task), (s.post o u).joined = s.joined := by
    intro o u
    cases o <;> rfl
  cases t with
  | timer p c =>
      simp only [runTask]
      cases s.timers p.node with
      | none => rfl
      | some T =>
          dsimp only
          split
          · rfl
          · exact hpost ..
  | timeout p g =>
      simp only [runTask, dispatch]
      cases s.timers p.node with
      | none => rfl
      | some T =>
          dsimp only
          split
          · split <;> rfl
          · rfl
  | deleteNode | moveToThread | moveToTaskPool | slot | call => rfl

/-! ### The invariant -/

/-- What a part of a call leaves to do is about its timer. -/
theorem Part.timer? (h : Part s s' e a T T' k v i) (hk : k.timer? = some b) : b = a := by
  cases h with
  | apply c => exact timer?_work hk
  | fire => exact (Option.some.inj (timer?_firing.symm.trans hk)).symm
  | destroy | move | rearm | leave => exact (Option.some.inj hk).symm
  | arm | disarm | emit | free => exact absurd hk (by simp [TimerWork.timer?])
  | enter =>
      split at hk
      · exact (Option.some.inj hk).symm
      · exact absurd hk (by simp [TimerWork.timer?])

/-- No part of a call lowers the generation. -/
theorem Part.generation {T₁ : OwnedTimer} (h : Part s s' e a T (some T₁) k v i) :
    T.state.generation ≤ T₁.state.generation := by
  cases h with
  | apply c => exact generation_after ..
  | fire => exact Nat.le_of_lt (by rw [generation_fired]; exact Nat.lt_succ_self _)
  | destroy => exact Nat.le_succ _
  | move | arm | rearm | disarm | emit | leave | enter => exact Nat.le_refl _

/-- **A part of a call that ends no generation** leaves the timer as active as it was. -/
theorem Part.active {T₁ : OwnedTimer} (h : Part s s' e a T (some T₁) k v i)
    (hact : T₁.state.active = true) (hgen : T₁.state.generation = T.state.generation) :
    T.state.active = true := by
  cases h with
  | apply c =>
      cases c with
      | start | startWith j =>
          exact absurd hgen (Nat.succ_ne_self _)
      | stop => exact absurd hact (by simp [TimerState.after, TimerState.stopped])
      | setSingleShot j => exact hact
      | setInterval j =>
          by_cases hold : T.state.active = true
          · exact hold
          · simp [TimerState.after, TimerState.withInterval, hold] at hact
  | fire hd hold => exact hold
  | destroy => exact absurd hact (by simp [TimerState.stopped])
  | move | arm | rearm | disarm | emit | leave | enter => exact hact

/-- A timer that has an entry after a part of a call has its owner from before. -/
theorem Part.owner (h : Part s s' e a T T' k v i) (hx : s'.Armed e' a g) :
    ∃ T₁, T' = some T₁ ∧ T₁.owner = T.owner := by
  cases h with
  | apply | fire | destroy | arm | rearm | disarm | emit => exact ⟨_, rfl, rfl⟩
  | move target hidle hown hne hno => exact absurd hx (hno e' g)
  | leave target hd hown hold hno => exact absurd hx (hno e' g)
  | enter hd hno => exact absurd hx (hno e' g)
  | free hd hact hno htk => exact absurd hx (hno e' g)

/-- What a part of a call leaves to do agrees with the timer. -/
theorem Part.workOk (h : Part s s' e a T T' k v i) (hself : s'.timers a = T') :
    s'.WorkOk e k := by
  cases h with
  | apply c =>
      cases c with
      | start | startWith i => exact ⟨_, hself, rfl, rfl⟩
      | stop => exact ⟨_, hself, rfl⟩
      | setSingleShot v => trivial
      | setInterval i =>
          simp only [TimerCall.work, TimerState.after, TimerState.withInterval] at hself ⊢
          split
          · rename_i hact
            rw [if_pos hact] at hself
            exact ⟨_, hself, rfl, rfl⟩
          · trivial
  | fire hidle hact =>
      have hgen := generation_fired T.state s.now
      rw [TimerState.firing]
      cases hs : T.state.singleShot with
      | true => exact ⟨_, hself, by rw [hgen]; exact Nat.lt_succ_self _⟩
      | false =>
          refine ⟨_, hself, ?_, rfl, by rw [hgen]; exact Nat.lt_succ_self _⟩
          exact active_fired.trans (by rw [hs]; rfl)
  | destroy => exact ⟨_, hself, rfl⟩
  | move target hidle hown hne hno => exact ⟨⟨_, hself, hown⟩, hno⟩
  | arm | disarm | emit | free => trivial
  | rearm d f hd hact hlt => exact ⟨_, hself, hlt⟩
  | leave target hd hown hold hno => exact ⟨⟨_, hself⟩, hno⟩
  | enter hd hno =>
      split
      · exact ⟨T, hself, ‹_›, rfl⟩
      · trivial

/-- The timers and the work of the others stay as they are. -/
theorem Turn.timers_ne (h : Turn s s' e a T T' k) (hb : b ≠ a) : s'.timers b = s.timers b := by
  rw [h.timers, Function.update_of_ne hb]

/-- **A part of a call keeps the invariant.** -/
theorem Inv.turn (hi : s.Inv) (hf : Flows s s₀ L) (hfree : s.Free e a)
    (ht : Turn s₀ s' e a T T' k) (hp : Part s s' e a T T' k v i) : s'.Inv := by
  have hi₀ := hi.flows hf
  have hself : s'.timers a = T' := by rw [ht.timers, Function.update_self]
  have hfree₀ : s₀.Free e a := by
    rw [Free, hf.doing]
    exact hfree
  exact
    { booked := ht.booked
      sole := by
        intro e' b hb e'' hne
        rw [ht.doing] at hb ⊢
        by_cases he' : e' = e
        · subst he'
          rw [Function.update_self] at hb
          obtain rfl := hp.timer? hb
          rw [Function.update_of_ne hne]
          exact hfree₀ e'' hne
        · rw [Function.update_of_ne he'] at hb
          by_cases he'' : e'' = e
          · subst he''
            rw [Function.update_self]
            intro hk
            obtain rfl := hp.timer? hk
            exact hfree₀ e' he' hb
          · rw [Function.update_of_ne he'']
            exact hi₀.sole e' b hb e'' hne
      work := by
        intro e'
        rw [ht.doing]
        by_cases he' : e' = e
        · subst he'
          rw [Function.update_self]
          exact hp.workOk hself
        · rw [Function.update_of_ne he']
          have hne : ∀ b, (s₀.doing e').timer? = some b → b ≠ a := by
            rintro b hb rfl
            exact hfree₀ e' he' hb
          refine (hi₀.work e').mono (fun b hb => ht.timers_ne (hne b hb)) ?_
          intro b hb e'' g hx
          exact (ht.armed e'' b g hx).resolve_left fun h => hne b hb h.1
      armed := by
        intro e' b g hx
        by_cases hba : b = a
        · subst hba
          obtain ⟨T₁, rfl, howner⟩ := hp.owner hx
          refine ⟨T₁, hself, ?_⟩
          rcases ht.armed e' b g hx with ⟨-, rfl, rfl, -⟩ | hx
          · exact ⟨howner, hp.generation⟩
          · obtain ⟨T₀, hT₀, rfl, hle⟩ := hi₀.armed e' b g hx
            obtain rfl := Option.some.inj (ht.old.symm.trans hT₀)
            exact ⟨howner, Nat.le_trans hle hp.generation⟩
        · rw [ht.timers_ne hba]
          exact hi₀.armed e' b g ((ht.armed e' b g hx).resolve_left fun h => hba h.1)
      taken := by
        intro e' b g hx T₁ hT₁
        have hx₀ := (ht.taken e' b g).mp hx
        by_cases hba : b = a
        · subst hba
          obtain rfl := hself.symm.trans hT₁
          exact Nat.le_trans (hi₀.taken e' b g hx₀ T ht.old) hp.generation
        · rw [ht.timers_ne hba] at hT₁
          exact hi₀.taken e' b g hx₀ T₁ hT₁ }

/-- **The step lemma.** -/
theorem Inv.step (hi : s.Inv) (hu : s.Undisturbed l) (h : Step s l s') : s'.Inv := by
  cases h.kinds hi hu with
  | passes L hf => exact hi.flows hf
  | works s₀ L e a T T' k v i hf hL hent hl hfree ht hp => exact hi.turn hf hfree ht hp

/-! ### Where runs start -/

/-- Timers that have been constructed and not been used: none is active, no entry is anywhere, and
no executor is in the middle of anything. -/
structure Unused (s : TimerRun) : Prop where
  doing : ∀ e, s.doing e = .idle
  inactive : ∀ a T, s.timers a = some T → T.state.active = false
  loops : ∀ t, (s.loops t).timers = []
  batches : ∀ t, s.batches t = []
  services : ∀ p, s.services p = {}
  due : ∀ p, s.due p = []
  tasks : ∀ e k, k ∈ s.tasks e → k.timer? = none
  joined : ∀ p, s.joined p = false
  log : s.log = []

namespace Unused

variable (h : s.Unused)

include h

theorem not_armed : ¬ s.Armed e a g := by
  cases e with
  | loop t =>
      rintro ⟨x, hx, -⟩
      rw [h.loops] at hx
      exact absurd hx List.not_mem_nil
  | strand k =>
      rintro ⟨x, hx, -⟩
      rw [service, h.services] at hx
      exact absurd hx List.not_mem_nil

theorem not_taken : ¬ s.Taken e a g := by
  cases e with
  | loop t =>
      rintro ⟨x, hx, -⟩
      rw [h.batches] at hx
      exact absurd hx List.not_mem_nil
  | strand k =>
      rintro (⟨x, hx, -⟩ | ⟨p, -, hmem⟩)
      · rw [h.due] at hx
        exact absurd hx List.not_mem_nil
      · exact absurd (h.tasks _ _ hmem) (by simp [Task.timer?])

/-- Unused timers satisfy the invariant. -/
theorem inv : s.Inv where
  booked :=
    { indexed := fun p => by
        rw [h.services]
        exact TimerService.Indexed.stop (v := {})
      home := fun p x hx => by
        rw [h.services, h.due] at hx
        rcases hx with hx | hx
        · exact absurd hx List.not_mem_nil
        · exact absurd hx List.not_mem_nil }
  sole e a he := by
    rw [h.doing] at he
    exact absurd he (by simp [TimerWork.timer?])
  work e := by
    rw [h.doing]
    trivial
  armed e a g hx := absurd hx h.not_armed
  taken e a g hx := absurd hx h.not_taken

end Unused

/-- Timers right after their construction, and executors that have done nothing yet. -/
def start (timers : Addr → Option OwnedTimer) : TimerRun where
  timers := timers
  loops _ := {}
  strands _ := {}
  services _ := {}
  batches _ := []
  due _ := []
  doing _ := .idle
  joined _ := false
  now := 0
  log := []

theorem unused_start {timers : Addr → Option OwnedTimer}
    (h : ∀ a T, timers a = some T → T.state.active = false) : (start timers).Unused where
  doing _ := rfl
  inactive := h
  loops _ := rfl
  batches _ := rfl
  services _ := rfl
  due _ := rfl
  tasks e k hk := by
    cases e <;> exact absurd hk List.not_mem_nil
  joined _ := rfl
  log := rfl

/-- Some timers of one kind, none of which is active. -/
theorem unused_start_if {p : Addr → Prop} [DecidablePred p] {T : OwnedTimer}
    (hT : T.state.active = false) : (start fun a => if p a then some T else none).Unused := by
  refine unused_start fun a U hU => ?_
  split at hU
  · exact Option.some.inj hU ▸ hT
  · cases hU

/-- While nobody is in the middle of anything, every call begins undisturbed. -/
theorem undisturbed_of_idle (h : ∀ e, s.doing e = .idle) : s.Undisturbed l := by
  intro a _ e he
  rw [h e] at he
  exact absurd he (by simp [TimerWork.timer?])

/-- Where one loop and one strand are the only ones that were ever at work, it is enough that these
two have nothing more to do. -/
theorem idle_of_first (hloop : s.doing (.loop 0) = .idle)
    (hloops : ∀ t, s.doing (.loop (t + 1)) = .idle) (hstrand : s.doing (.strand 0) = .idle)
    (hstrands : ∀ j, s.doing (.strand (j + 1)) = .idle) : ∀ e, s.doing e = .idle
  | .loop 0 => hloop
  | .loop (t + 1) => hloops t
  | .strand 0 => hstrand
  | .strand (j + 1) => hstrands j

/-- Going on with a call begins none. -/
theorem undisturbed_work : s.Undisturbed (.work e) :=
  fun _ h => h.elim

/-- An executor that has nothing more to do is idle like the others. -/
theorem idle_update {d : ExecutorId → TimerWork} (h : ∀ e', e' ≠ e → d e' = .idle) :
    ∀ e', Function.update d e .idle e' = .idle := by
  intro e'
  by_cases he : e' = e
  · rw [he, Function.update_self]
  · rw [Function.update_of_ne he, h e' he]

/-- One executor has been at work, and has nothing more to do. -/
theorem idle_update_update (e : ExecutorId) (k : TimerWork) :
    ∀ e', Function.update (Function.update (fun _ => TimerWork.idle) e k) e .idle e' = .idle :=
  idle_update fun _ he => Function.update_of_ne he ..

end TimerRun

end SimplyNode
