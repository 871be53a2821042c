import SimplyNode.Undisturbed

/-!
# Active Timers are not Forgotten

An active timer has an entry of its current generation where its owner will find it: in the
`m_timers` of the owner's event loop or in the batch that the loop has taken, in the queue of the
timer service with the owner's strand, or in a task posted to the strand. On the way from the
service's queue to the strand the entry is with the service's thread, and while a call on the timer
is under way the entry may still have to be made.

The entry is lost when two calls on the timer overlap. The second hook of a migration reads the
generation of the timer and then schedules it; a `start` that the new owner, already published, runs
between the two has its entry replaced by the older one.

## Main results

* `Remembered.step`: what an undisturbed step keeps.
* `active_timer_has_entry`: in runs whose calls on a timer do not overlap, an active timer has its
  entry, and the two maps of each timer service are in bijection.
* `started_during_move`: a timer that is started while it is being moved is forgotten.
-/

open Transition

namespace SimplyNode

/-- The work is on its way to scheduling the timer. -/
def TimerWork.Arms : TimerWork → Addr → Prop
  | .arm b _ _, a | .rearm b _ _ _, a | .leave b _, a | .enter b, a => b = a
  | _, _ => False

/-- Work that schedules a timer is about it. -/
theorem TimerWork.Arms.timer? {k : TimerWork} {a : Addr} (h : k.Arms a) : k.timer? = some a := by
  cases k with
  | arm b d g | rearm b d g f | leave b target | enter b => exact congrArg some h
  | idle | disarm | emit | destroy => exact h.elim

namespace TimerRun

variable {s s₀ s' : TimerRun} {e e' : ExecutorId} {a b : Addr} {g f : ℕ} {T : OwnedTimer}
  {T' : Option OwnedTimer} {k : TimerWork} {v : Option TimerEvent} {i : Bool}
  {l : TimerStep}
  {L : ExecutorId → Addr → ℕ → Prop}

/-- An entry of the timer's generation is where its owner will dispatch it. -/
def HasEntry (s : TimerRun) (a : Addr) (T : OwnedTimer) : Prop :=
  match T.owner with
  | .loop t =>
      (∃ x ∈ (s.loops t).timers, x.timer = a ∧ x.generation = T.state.generation) ∨
      ∃ x ∈ s.batches t, x.timer = a ∧ x.generation = T.state.generation
  | .strand j =>
      (∃ x ∈ (s.service j).queue,
        x.strand = j ∧ x.name = a ∧ x.generation = T.state.generation) ∨
      ∃ p : NodePtr, p.node = a ∧ Task.timeout p T.state.generation ∈ (s.strands j).queue

/-- Nobody is in the middle of a call on the timer, and no timer service in the middle of a
pass. -/
def Between (s : TimerRun) (a : Addr) : Prop :=
  (∀ e, (s.doing e).timer? ≠ some a) ∧ ∀ p, s.due p = []

/-- The condition on a step: the calls on a timer do not overlap. The pools run, so no timer
service stops. -/
def Orderly (s : TimerRun) (l : TimerStep) : Prop :=
  s.Undisturbed l ∧ ∀ p, l ≠ .serviceStop p

/-- **The invariant**: an active timer has an entry of its generation with its owner, or somebody is
about to schedule it. -/
structure Remembered (s : TimerRun) : Prop where
  entry : ∀ a T, s.timers a = some T → T.state.active = true →
    (∃ e, (s.doing e).Arms a) ∨ s.Armed T.owner a T.state.generation ∨
      s.Taken T.owner a T.state.generation
  running : ∀ p, (s.services p).stopped = false

/-- An executor that makes a part of a call was idle, or in the middle of that call. -/
theorem Part.before (h : Part s s' e a T T' k v i) (hb : (s.doing e).timer? = some b) : b = a := by
  cases h with
  | apply _ hd | fire hd | destroy hd | move _ hd =>
      rw [hd] at hb
      exact absurd hb (by simp [TimerWork.timer?])
  | arm _ hd | rearm _ _ hd | disarm hd | emit _ _ hd | leave _ hd | enter hd | free hd =>
      rw [hd] at hb
      exact (Option.some.inj hb).symm

/-- An executor without a strand of a stopped service takes entries. -/
theorem Remembered.serves (hr : s.Remembered) : s.Serves e := by
  cases e with
  | loop t => trivial
  | strand j => exact hr.running _

/-- Passing entries on forgets none that is of use. -/
theorem Remembered.flows (hi : s.Inv) (hr : s.Remembered) (hf : Flows s s' L)
    (hL : s.Lapsed L) (hrun : ∀ p, (s'.services p).stopped = false) : s'.Remembered where
  running := hrun
  entry a T hT hact := by
    rw [hf.timers] at hT
    rw [hf.doing]
    rcases hr.entry a T hT hact with h | h | h
    · exact Or.inl h
    · rcases hf.keepsArmed hi.booked _ a _ h with h | h | h
      · exact Or.inr (Or.inl h)
      · exact Or.inr (Or.inr h)
      · exact absurd rfl (hL _ a _ h T hT rfl hact)
    · rcases hf.keepsTaken hi.booked _ a _ h with h | h
      · exact Or.inr (Or.inr h)
      · exact absurd rfl (hL _ a _ h T hT rfl hact)

/-- What a part of a call leaves of its own timer: it is about to be scheduled, it has its entry,
or it is not active. -/
theorem Remembered.self (hr : s.Remembered) (hi : s.Inv) (hf : Flows s s₀ L)
    (hL : ∀ e' b g, L e' b g → b = a ∧ i = true)
    (hfree : s.Free e a) (ht : Turn s₀ s' e a T T' k) (hp : Part s s' e a T T' k v i)
    {T₁ : OwnedTimer} (hT₁ : T' = some T₁) (hact : T₁.state.active = true) :
    k.Arms a ∨ s'.Armed T₁.owner a T₁.state.generation ∨
      s'.Taken T₁.owner a T₁.state.generation := by
  have hold : s.timers a = some T := (congrFun hf.timers a).symm.trans ht.old
  -- Where the part of the call neither schedules nor cancels, the entry is still where it was.
  have hstay : (∀ e' g, s.Armed e' a g → s'.Armed e' a g) → T.state.active = true →
      ¬ (s.doing e).Arms a → (∀ e' b g, ¬ L e' b g) →
      s'.Armed T.owner a T.state.generation ∨ s'.Taken T.owner a T.state.generation := by
    intro harm hact hnot hnone
    rcases hr.entry a T hold hact with ⟨e', h⟩ | h | h
    · by_cases he : e' = e
      · exact absurd (he ▸ h) hnot
      · exact absurd h.timer? (hfree e' he)
    · exact Or.inl (harm _ _ h)
    · rcases hf.keepsTaken hi.booked _ a _ h with h | h
      · exact Or.inr ((ht.taken ..).mpr h)
      · exact absurd h (hnone _ _ _)
  cases hp with
  | apply c hd hown harm =>
      obtain rfl := Option.some.inj hT₁
      cases c with
      | start | startWith i => exact Or.inl rfl
      | stop => exact absurd hact (by simp [TimerState.after, TimerState.stopped])
      | setSingleShot w =>
          exact Or.inr (hstay harm hact (by rw [hd]; exact id) fun e' b g h =>
            absurd (hL e' b g h).2 (by simp))
      | setInterval i =>
          by_cases hold : T.state.active = true
          · refine Or.inl ?_
            rw [TimerCall.work, if_pos hold]
            exact rfl
          · simp [TimerState.after, TimerState.withInterval, hold] at hact
  | fire hd hold =>
      obtain rfl := Option.some.inj hT₁
      rw [active_fired] at hact
      refine Or.inl ?_
      rw [TimerState.firing, if_neg (by simpa using hact)]
      exact rfl
  | destroy hd hown =>
      obtain rfl := Option.some.inj hT₁
      exact absurd hact (by simp [TimerState.stopped])
  | move target hd hown hne hno => exact Or.inl rfl
  | arm d hd hold harm =>
      obtain rfl := Option.some.inj hT₁
      exact Or.inr (Or.inl (harm hr.serves))
  | rearm d f hd hold hlt harm =>
      obtain rfl := Option.some.inj hT₁
      exact Or.inr (Or.inl (harm hr.serves))
  | disarm hd hold =>
      obtain rfl := Option.some.inj hT₁
      exact absurd (hact.symm.trans hold) (by simp)
  | emit f w hd hlt harm =>
      obtain rfl := Option.some.inj hT₁
      exact Or.inr (hstay harm hact (by rw [hd]; exact id) fun e' b g h =>
        absurd (hL e' b g h).2 (by simp))
  | leave target hd hown hno hno' => exact Or.inl rfl
  | enter hd hno =>
      obtain rfl := Option.some.inj hT₁
      rw [if_pos hact]
      exact Or.inl rfl
  | free => exact absurd hT₁ (by simp)

/-- A part of a call forgets no active timer. -/
theorem Remembered.turn (hr : s.Remembered) (hi : s.Inv) (hf : Flows s s₀ L)
    (hL : ∀ e' b g, L e' b g → b = a ∧ i = true)
    (hfree : s.Free e a) (ht : Turn s₀ s' e a T T' k) (hp : Part s s' e a T T' k v i)
    (hrun : ∀ p, (s'.services p).stopped = false) : s'.Remembered where
  running := hrun
  entry b T₁ hT₁ hact := by
    by_cases hba : b = a
    · subst hba
      rw [ht.timers, Function.update_self] at hT₁
      rcases hr.self hi hf hL hfree ht hp hT₁ hact with h | h
      · refine Or.inl ⟨e, ?_⟩
        rw [ht.doing, Function.update_self]
        exact h
      · exact Or.inr h
    · rw [ht.timers_ne hba, hf.timers] at hT₁
      rcases hr.entry b T₁ hT₁ hact with ⟨e', h⟩ | h | h
      · refine Or.inl ⟨e', ?_⟩
        have hne : e' ≠ e := by
          rintro rfl
          exact hba (hp.before h.timer?)
        rw [ht.doing, Function.update_of_ne hne, hf.doing]
        exact h
      · rcases hf.keepsArmed hi.booked _ b _ h with h | h | h
        · exact Or.inr (Or.inl (ht.keeps _ b _ hba h))
        · exact Or.inr (Or.inr ((ht.taken ..).mpr h))
        · exact absurd (hL _ _ _ h).1 hba
      · rcases hf.keepsTaken hi.booked _ b _ h with h | h
        · exact Or.inr (Or.inr ((ht.taken ..).mpr h))
        · exact absurd (hL _ _ _ h).1 hba

/-! ### The services run -/

/-- The next part of a call neither stops nor restarts a service. -/
theorem stopped_advance (h : s.advance e = some s') (p : PoolId) :
    (s'.services p).stopped = (s.services p).stopped := by
  rw [advance] at h
  cases hd : s.doing e with
  | idle =>
      rw [hd] at h
      exact absurd h (by simp)
  | arm a | rearm a =>
      simp only [hd, Option.map_eq_some_iff] at h
      obtain ⟨T, -, rfl⟩ := h
      exact stopped_scheduleTimer p
  | disarm a | destroy a =>
      simp only [hd, Option.map_eq_some_iff] at h
      obtain ⟨T, -, rfl⟩ := h
      exact stopped_cancelTimer p
  | emit a | leave a | enter a =>
      simp only [hd, Option.map_eq_some_iff] at h
      obtain ⟨T, -, rfl⟩ := h
      rfl

/-- A service that runs is stopped by its own stop only. -/
theorem running_step (h : Step s l s') (hl : ∀ p, l ≠ .serviceStop p)
    (hr : ∀ p, (s.services p).stopped = false) (p : PoolId) :
    (s'.services p).stopped = false := by
  rw [← hr p]
  cases h with
  | post hT => exact congrArg (fun v => (v p).stopped) services_setTasks
  | call | destroy | serviceJoin | tick | take => rfl
  | runTask => exact congrArg (fun v => (v p).stopped) (services_runTask.trans services_setTasks)
  | dispatch => exact congrArg (fun v => (v p).stopped) services_dispatch
  | move => exact stopped_cancelTimer p
  | work hw => exact stopped_advance hw p
  | @serviceTake q hs hd =>
      by_cases hq : p = q
      · subst hq
        simp only [Function.update_self]
        rfl
      · simp only [Function.update_of_ne hq]
  | servicePost hd => exact congrArg (fun v => (v p).stopped) services_setTasks
  | serviceStop => exact absurd rfl (hl _)

/-! ### Runs -/

/-- **The step lemma.** -/
theorem Remembered.step (hr : s.Remembered) (hi : s.Inv) (ho : s.Orderly l)
    (h : Step s l s') : s'.Remembered := by
  have hrun := running_step h ho.2 hr.running
  cases h.kinds hi ho.1 with
  | passes L hf hL => exact hr.flows hi hf (hL ho.2) hrun
  | works s₀ L e a T T' k v i hf hL hent hl hfree ht hp => exact hr.turn hi hf hL hfree ht hp hrun

/-- Unused timers are not active. -/
theorem Unused.remembered (h : s.Unused) : s.Remembered where
  entry a T hT hact := absurd (hact.symm.trans (h.inactive a T hT)) (by simp)
  running p := by rw [h.services]

/-- Between calls and passes an active timer has its entry. -/
theorem Remembered.hasEntry (hr : s.Remembered) (hb : s.Between a) (hT : s.timers a = some T)
    (hact : T.state.active = true) : s.HasEntry a T := by
  have hentry := hr.entry a T hT hact
  rw [HasEntry]
  rcases hentry with ⟨e, h⟩ | h | h
  · exact absurd h.timer? (hb.1 e)
  · cases howner : T.owner with
    | loop t =>
        rw [howner] at h
        exact Or.inl h
    | strand j =>
        rw [howner] at h
        exact Or.inl h
  · cases howner : T.owner with
    | loop t =>
        rw [howner] at h
        exact Or.inr h
    | strand j =>
        rw [howner] at h
        rcases h with ⟨x, hx, -⟩ | h
        · rw [hb.2] at hx
          exact absurd hx List.not_mem_nil
        · exact Or.inr h

/-- **An active timer is not forgotten** in runs whose calls on a timer do not overlap: between the
operations it has an entry of its current generation that its current owner will dispatch, and in
every timer service queue and index are in bijection. -/
theorem active_timer_has_entry {s s' : TimerRun} {ls : List TimerStep} (hs : s.Unused)
    (hrun : Run Step Orderly s ls s') :
    (∀ a T, s'.timers a = some T → T.state.active = true → s'.Between a → s'.HasEntry a T) ∧
      ∀ p, (s'.services p).Indexed := by
  have hinv : s'.Inv ∧ s'.Remembered := by
    refine Run.invariant (I := fun s => s.Inv ∧ s.Remembered) ?_ hrun ⟨hs.inv, hs.remembered⟩
    intro s l s' h ho hst
    exact ⟨h.1.step ho.1 hst, h.2.step h.1 ho hst⟩
  exact ⟨fun a T hT hact hb => hinv.2.hasEntry hb hT hact, hinv.1.booked.indexed⟩

/-- Loop 0 starts a timer and moves it to strand 0. The service of the pool posts the entry that
comes due, and the strand dispatches it. -/
def moveThenFire : List TimerStep :=
  [.call (.loop 0) 7 (.startWith 10), .work (.loop 0),
    .move (.loop 0) 7 (.strand 0), .work (.loop 0), .work (.loop 0), .work (.loop 0),
    .tick 10000000, .serviceTake 0, .servicePost 0,
    .runTask (.strand 0), .work (.strand 0), .work (.strand 0)]

/-- A timer that has been moved while it was running, and has fired behind that, is scheduled
again. -/
theorem moved_timer_has_entry : ∃ s s' : TimerRun, ∃ T, Run Step Orderly s moveThenFire s' ∧
    s'.timers 7 = some T ∧ T.owner = .strand 0 ∧ T.state.generation = 2 ∧
    s'.HasEntry 7 T := by
  have hs : (start fun a => if a = 7 then some { owner := .loop 0 } else none).Unused :=
    unused_start_if rfl
  have hrun : ∃ s', Run Step Orderly
      (start fun a => if a = 7 then some { owner := .loop 0 } else none) moveThenFire s' ∧
      s'.timers 7 = some { state := ⟨10, false, true, 2, 20000000⟩, owner := .strand 0 } ∧
      (∀ e, s'.doing e = .idle) ∧ ∀ p, s'.due p = [] := by
    refine ⟨_, .cons ⟨undisturbed_of_idle fun _ => rfl, by simp⟩ (.call rfl rfl rfl)
      (.cons ⟨undisturbed_work, by simp⟩ (.work rfl)
      (.cons ⟨undisturbed_of_idle (idle_of_first rfl (fun _ => rfl) rfl fun _ => rfl), by simp⟩
        (.move rfl rfl rfl (by decide))
      (.cons ⟨undisturbed_work, by simp⟩ (.work rfl)
      (.cons ⟨undisturbed_work, by simp⟩ (.work rfl)
      (.cons ⟨undisturbed_work, by simp⟩ (.work rfl)
      (.cons ⟨fun _ h => h.elim, by simp⟩ (.tick (by decide))
      (.cons ⟨fun _ h => h.elim, by simp⟩ (.serviceTake rfl rfl)
      (.cons ⟨fun _ h => h.elim, by simp⟩ (.servicePost rfl)
      (.cons ⟨undisturbed_of_idle (idle_of_first rfl (fun _ => rfl) rfl fun _ => rfl), by simp⟩
        (.runTask rfl rfl)
      (.cons ⟨undisturbed_work, by simp⟩ (.work rfl)
      (.cons ⟨undisturbed_work, by simp⟩ (.work rfl) (.nil _)))))))))))), rfl,
      idle_of_first rfl (fun _ => rfl) rfl fun _ => rfl, ?_⟩
    intro p
    match p with
    | 0 | p + 1 => rfl
  obtain ⟨s', hrun, hT, hidle, hdue⟩ := hrun
  refine ⟨_, s', _, hrun, hT, rfl, rfl,
    (active_timer_has_entry hs hrun).1 7 _ hT rfl ⟨fun e => ?_, hdue⟩⟩
  rw [hidle e]
  simp [TimerWork.timer?]

/-- Loop 0 moves its running timer to loop 1, which runs a `start` that another thread has called
after the owner was changed. Loop 0 has read the generation before, and schedules it afterwards. -/
def startDuringMove : List TimerStep :=
  [.call (.loop 0) 7 (.startWith 10), .work (.loop 0),
    .move (.loop 0) 7 (.loop 1), .work (.loop 0), .work (.loop 0),
    .post 7 .start, .runTask (.loop 1), .work (.loop 1),
    .work (.loop 0)]

/-- **A timer is forgotten**: it is active, nobody is in the middle of anything, and no executor has
an entry of its generation. -/
theorem started_during_move : ∃ s s' : TimerRun, ∃ T, s.Unused ∧
    Reaches Step s startDuringMove s' ∧ s'.timers 7 = some T ∧ T.state.active = true ∧
    s'.Between 7 ∧ ¬ s'.HasEntry 7 T := by
  have hs : (start fun a => if a = 7 then some { owner := .loop 0 } else none).Unused :=
    unused_start_if rfl
  have hrun : ∃ s', Reaches Step
      (start fun a => if a = 7 then some { owner := .loop 0 } else none) startDuringMove s' ∧
      s'.timers 7 = some { state := ⟨10, false, true, 2, 10000000⟩, owner := .loop 1 } ∧
      (s'.loops 1).timers = [⟨7, 10000000, 1⟩] ∧ s'.batches 1 = [] ∧
      (∀ e, s'.doing e = .idle) ∧ ∀ p, s'.due p = [] := by
    refine ⟨_, .cons trivial (.call rfl rfl rfl) (.cons trivial (.work rfl)
      (.cons trivial (.move rfl rfl rfl (by decide)) (.cons trivial (.work rfl)
      (.cons trivial (.work rfl) (.cons trivial (.post rfl) (.cons trivial (.runTask rfl rfl)
      (.cons trivial (.work rfl) (.cons trivial (.work rfl) (.nil _))))))))), rfl, rfl, rfl, ?_,
      fun _ => rfl⟩
    intro e
    match e with
    | .loop 0 | .loop 1 | .loop (t + 2) | .strand j => rfl
  obtain ⟨s', hrun, hT, htimers, hbatch, hidle, hdue⟩ := hrun
  refine ⟨_, s', _, hs, hrun, hT, rfl, ⟨fun e => ?_, hdue⟩, ?_⟩
  · rw [hidle e]
    simp [TimerWork.timer?]
  · simp [HasEntry, htimers, hbatch]

end TimerRun

end SimplyNode
