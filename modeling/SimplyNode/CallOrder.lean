import SimplyNode.Undisturbed

/-!
# The Order of Control Calls

A control call from outside of the owner is posted to it, and takes effect when the owner runs
the task. If the timer has moved on in the meantime, the task posts the call again, to the new
owner. The queues are first-in first-out, but the ways of two calls may be different ones: the
first waits with a former owner when the second is posted directly to the new one.

A timer is settled when none of its calls waits with a former owner. If calls are made, and the
timer is moved on, only while it is settled, all calls take effect once and in their order.

## Main results

* `Ordered.step`: the calls that wait are, in order, those with the owner and those with one former
  owner.
* `calls_take_effect_in_order`: what is applied is what was called, in the same order, as far as
  it has come; and a timer whose last start or stop was a stop is not active.
* `stop_overtakes_start`: a `stop` that is applied before the `start` that was called before it.
-/

open Transition

namespace SimplyNode

/-- The control call that a task makes on a timer. -/
def Task.callOn? (a : Addr) : Task → Option TimerCall
  | .timer p c => if p.node = a then some c else none
  | _ => none

/-- The control call that was made on a timer from outside. -/
def TimerEvent.calledOn? (a : Addr) : TimerEvent → Option TimerCall
  | .called b c => if b = a then some c else none
  | _ => none

/-- The control call that took effect on a timer. -/
def TimerEvent.appliedOn? (a : Addr) : TimerEvent → Option TimerCall
  | .applied b c => if b = a then some c else none
  | _ => none

/-- The call starts the timer. -/
def TimerCall.Starts : TimerCall → Prop
  | .start | .startWith _ => True
  | _ => False

namespace TimerRun

section Defs

variable (s : TimerRun)

/-- The control calls on a timer that wait with an executor, in their order. -/
def requests (e : ExecutorId) (a : Addr) : List TimerCall :=
  (s.tasks e).filterMap (·.callOn? a)

/-- The control calls that were made on a timer, in their order. -/
def called (a : Addr) : List TimerCall := (s.log.filterMap (·.calledOn? a)).reverse

/-- The control calls that took effect on a timer, in their order. -/
def applied (a : Addr) : List TimerCall := (s.log.filterMap (·.appliedOn? a)).reverse

/-- No call on the timer waits with an executor that does not own it. -/
def Settled (a : Addr) : Prop :=
  ∀ T, s.timers a = some T → ∀ e, e ≠ T.owner → s.requests e a = []

/-- The condition on a step, for one timer: its calls come from outside of its owner, it is not
destroyed, and calls are made, and another owner is published, only while it is settled. -/
structure CallsSettled (a : Addr) (l : TimerStep) : Prop where
  outside : ∀ e c, l ≠ .call e a c
  lives : ∀ e, l ≠ .destroy e a
  call : ∀ c, l = .post a c → s.Settled a
  move : ∀ e target, l = .work e → s.doing e = .leave a target → s.Settled a

/-- **The invariant**: who moves the timer owns it; and what was called is what was applied, then
what waits with the owner, then what waits with one former owner `f`. -/
structure Ordered (a : Addr) : Prop where
  mover : ∀ e target, s.doing e = .leave a target → ∃ T, s.timers a = some T ∧ T.owner = e
  lives : ∀ e, s.doing e ≠ .destroy a
  order : ∃ T f, s.timers a = some T ∧ f ≠ T.owner ∧
    (∀ e, e ≠ T.owner → e ≠ f → s.requests e a = []) ∧
    s.called a = s.applied a ++ s.requests T.owner a ++ s.requests f a
  stopped : ∀ T, s.timers a = some T → T.state.active = true →
    ∀ before after, s.applied a = before ++ .stop :: after → ∃ c ∈ after, c.Starts

end Defs

variable {s s' : TimerRun} {e e' : ExecutorId} {a b : Addr} {g f : ℕ} {T T' : OwnedTimer}
  {k : TimerWork} {c : TimerCall} {l : TimerStep}

/-- What a step does to the calls on a timer that it neither makes nor runs: nothing. The timer
keeps its owner, and does not become active. -/
structure Aside (s s' : TimerRun) (a : Addr) (T T' : OwnedTimer) : Prop where
  old : s.timers a = some T
  timer : s'.timers a = some T'
  owner : T'.owner = T.owner
  active : T'.state.active = true → T.state.active = true
  mover : ∀ e target, s'.doing e = .leave a target →
    s.doing e = .leave a target ∨ T.owner = e
  destroy : ∀ e, s'.doing e = .destroy a → s.doing e = .destroy a
  requests : ∀ e, s'.requests e a = s.requests e a
  called : s'.called a = s.called a
  applied : s'.applied a = s.applied a

/-- Steps aside keep the order. -/
theorem Ordered.aside (h : s.Ordered a) (hs : Aside s s' a T T') : s'.Ordered a := by
  obtain ⟨T₀, f, hT, hf, hnone, horder⟩ := h.order
  obtain rfl := Option.some.inj (hs.old.symm.trans hT)
  constructor
  · intro e target he
    have hold : T.owner = e := by
      rcases hs.mover e target he with he | he
      · obtain ⟨T₁, hT₁, howner₁⟩ := h.mover e target he
        obtain rfl := Option.some.inj (hT.symm.trans hT₁)
        exact howner₁
      · exact he
    exact ⟨T', hs.timer, hs.owner.trans hold⟩
  · intro e he
    exact h.lives e (hs.destroy e he)
  · refine ⟨T', f, hs.timer, by rw [hs.owner]; exact hf, ?_, ?_⟩
    · intro e he hef
      rw [hs.requests]
      exact hnone e (by rw [← hs.owner]; exact he) hef
    · rw [hs.called, hs.applied, hs.owner, hs.requests, hs.requests]
      exact horder
  · intro T₁ hT₁ hact₁ before after heq
    obtain rfl := Option.some.inj (hs.timer.symm.trans hT₁)
    rw [hs.applied] at heq
    exact h.stopped T hT (hs.active hact₁) before after heq

namespace Aside

/-- Nothing of what concerns the timer changes. -/
theorem of_eq (hT : s.timers a = some T) (ht : s'.timers a = s.timers a)
    (hd : ∀ e, s'.doing e = s.doing e ∨ (∀ target, s'.doing e ≠ .leave a target) ∧
      s'.doing e ≠ .destroy a)
    (hq : ∀ e, s'.tasks e = s.tasks e) (hl : s'.log = s.log) : Aside s s' a T T where
  old := hT
  timer := ht.trans hT
  owner := rfl
  active := id
  mover e target he := by
    rcases hd e with h | h
    · exact Or.inl (h ▸ he)
    · exact absurd he (h.1 target)
  destroy e he := by
    rcases hd e with h | h
    · exact h ▸ he
    · exact absurd he h.2
  requests e := by rw [TimerRun.requests, TimerRun.requests, hq]
  called := by rw [TimerRun.called, TimerRun.called, hl]
  applied := by rw [TimerRun.applied, TimerRun.applied, hl]

theorem trans {s₁ : TimerRun} {T₁ : OwnedTimer} (h : Aside s s₁ a T T₁)
    (h' : Aside s₁ s' a T₁ T') : Aside s s' a T T' where
  old := h.old
  timer := h'.timer
  owner := h'.owner.trans h.owner
  active hact := h.active (h'.active hact)
  mover e target he := by
    rcases h'.mover e target he with he | he
    · exact h.mover e target he
    · exact Or.inr (h.owner.symm.trans he)
  destroy e he := h.destroy e (h'.destroy e he)
  requests e := (h'.requests e).trans (h.requests e)
  called := h'.called.trans h.called
  applied := h'.applied.trans h.applied

/-- Something else is observed. -/
theorem record (h : Aside s s' a T T') {v : TimerEvent} (hc : v.calledOn? a = none)
    (ha : v.appliedOn? a = none) : Aside s (s'.record v) a T T' where
  old := h.old
  timer := h.timer
  owner := h.owner
  active := h.active
  mover := h.mover
  destroy := h.destroy
  requests e := by
    have hq : (s'.record v).requests e a = s'.requests e a := by
      cases e <;> rfl
    exact hq.trans (h.requests e)
  called := by
    rw [← h.called, TimerRun.called, TimerRun.record, List.filterMap_cons, hc]
    rfl
  applied := by
    rw [← h.applied, TimerRun.applied, TimerRun.record, List.filterMap_cons, ha]
    rfl

end Aside

/-! ### The queues -/

theorem requests_setTasks {ts : List Task} : (s.setTasks e ts).requests e' a =
    if e' = e then ts.filterMap (·.callOn? a) else s.requests e' a := by
  rw [requests, tasks_setTasks]
  split
  · rfl
  · rfl

theorem tasks_change (e e' : ExecutorId) (b : Addr) (T : OwnedTimer) (k : TimerWork) :
    (s.change e b T k).tasks e' = s.tasks e' := by
  cases e' <;> rfl

theorem tasks_goOn (e e' : ExecutorId) (k : TimerWork) :
    (s.goOn e k).tasks e' = s.tasks e' := by
  cases e' <;> rfl

theorem tasks_scheduleTimer {d : TimePoint} :
    (s.scheduleTimer e b d g).tasks e' = s.tasks e' := by
  cases e with
  | loop t =>
      cases e' with
      | loop t' =>
          by_cases ht : t' = t
          · subst ht
            simp only [tasks, scheduleTimer, Function.update_self]
            rfl
          · simp only [tasks, scheduleTimer, Function.update_of_ne ht]
      | strand j => rfl
  | strand j =>
      cases e' <;> rfl

theorem tasks_cancelTimer : (s.cancelTimer e b).tasks e' = s.tasks e' := by
  cases e with
  | loop t =>
      cases e' with
      | loop t' =>
          by_cases ht : t' = t
          · subst ht
            simp only [tasks, cancelTimer, Function.update_self]
            rfl
          · simp only [tasks, cancelTimer, Function.update_of_ne ht]
      | strand j => rfl
  | strand j =>
      cases e' <;> rfl

/-- A queue is replaced by one with the same calls on the timer. -/
theorem Aside.setTasks (hT : s.timers a = some T) {ts : List Task}
    (hts : ts.filterMap (·.callOn? a) = s.requests e a) : Aside s (s.setTasks e ts) a T T where
  old := hT
  timer := (congrFun objects_setTasks a).trans hT
  owner := rfl
  active := id
  mover e' target he := Or.inl (congrFun doing_setTasks e' ▸ he)
  destroy e' he := congrFun doing_setTasks e' ▸ he
  requests e' := by
    rw [requests_setTasks]
    split
    · rename_i he
      rw [hts, he]
    · rfl
  called := by rw [TimerRun.called, TimerRun.called, log_setTasks]
  applied := by rw [TimerRun.applied, TimerRun.applied, log_setTasks]

/-- A task that makes no call on the timer is posted. -/
theorem Aside.post (hT : s.timers a = some T) {t : Task} (ht : t.callOn? a = none) :
    Aside s (s.post e t) a T T := by
  refine .setTasks hT ?_
  simp [TimerRun.requests, List.filterMap_append, ht]

/-- A task that makes no call on the timer is taken from its queue. -/
theorem Aside.pop (hT : s.timers a = some T) {t : Task} {rest : List Task}
    (hq : s.tasks e = t :: rest) (ht : t.callOn? a = none) :
    Aside s (s.setTasks e rest) a T T := by
  refine .setTasks hT ?_
  rw [TimerRun.requests, hq, List.filterMap_cons, ht]

/-! ### Steps aside -/

/-- `dispatchTimeout`, of this timer or of another one. -/
theorem Aside.dispatch {T₁ : OwnedTimer} (hT : s.timers a = some T) (hT₁ : s.timers b = some T₁) :
    ∃ T', Aside s (s.dispatch e b g T₁) a T T' := by
  have hwork : ∀ (t : TimerState) (now : TimePoint),
      (∀ target, t.firing b now ≠ .leave a target) ∧ t.firing b now ≠ .destroy a := by
    intro t now
    rw [TimerState.firing]
    split
    · exact ⟨by simp, by simp⟩
    · exact ⟨by simp, by simp⟩
  have hd : ∀ (U : OwnedTimer) e', (s.change e b U (T₁.state.firing b s.now)).doing e' =
      s.doing e' ∨ (∀ target, (s.change e b U (T₁.state.firing b s.now)).doing e' ≠
        .leave a target) ∧ (s.change e b U (T₁.state.firing b s.now)).doing e' ≠ .destroy a := by
    intro U e'
    by_cases he : e' = e
    · subst he
      simp only [change, Function.update_self]
      exact Or.inr (hwork ..)
    · refine Or.inl ?_
      simp only [change, Function.update_of_ne he]
  rw [TimerRun.dispatch]
  split
  · rename_i hcur
    simp only [Bool.and_eq_true] at hcur
    by_cases hba : b = a
    · subst hba
      obtain rfl := Option.some.inj (hT.symm.trans hT₁)
      refine ⟨{ T with state := T.state.fired s.now },
        { old := hT
          timer := Function.update_self ..
          owner := rfl
          active := fun _ => hcur.1
          mover := fun e' target he => ?_
          destroy := fun e' he => ?_
          requests := fun e' => by cases e' <;> rfl
          called := rfl
          applied := rfl }⟩
      · rcases hd _ e' with h | h
        · exact Or.inl (h ▸ he)
        · exact absurd he (h.1 target)
      · rcases hd _ e' with h | h
        · exact h ▸ he
        · exact absurd he h.2
    · exact ⟨T, .of_eq hT (Function.update_of_ne (Ne.symm hba) ..) (hd _)
        (fun e' => tasks_change ..) rfl⟩
  · exact ⟨T, .of_eq hT rfl (fun _ => Or.inl rfl) (fun _ => rfl) rfl⟩

/-- A control call on another timer. -/
theorem Aside.apply {T₁ : OwnedTimer} (hT : s.timers a = some T) (hba : b ≠ a) :
    Aside s (s.apply e b T₁ c) a T T := by
  refine Aside.record ?_ rfl (if_neg hba)
  refine .of_eq hT (Function.update_of_ne (Ne.symm hba) ..) (fun e' => ?_)
    (fun e' => tasks_change ..) rfl
  by_cases he : e' = e
  · subst he
    refine Or.inr ?_
    simp only [change, Function.update_self]
    cases c with
    | start | startWith | stop | setSingleShot =>
        exact ⟨by simp [TimerCall.work], by simp [TimerCall.work]⟩
    | setInterval j =>
        rw [TimerCall.work]
        split
        · exact ⟨by simp, by simp⟩
        · exact ⟨by simp, by simp⟩
  · refine Or.inl ?_
    simp only [change, Function.update_of_ne he]

/-- The parts of calls but the publication of an owner and the end of the object. -/
theorem Aside.goOn {s₁ : TimerRun} (hT : s.timers a = some T) (ht : s₁.timers = s.timers)
    (hd : s₁.doing = s.doing) (hq : ∀ e, s₁.tasks e = s.tasks e) (hl : s₁.log = s.log)
    (hk : (∀ target, k ≠ .leave a target) ∧ k ≠ .destroy a) :
    Aside s (s₁.goOn e k) a T T := by
  refine .of_eq hT (congrFun ht a) (fun e' => ?_) (fun e' => (tasks_goOn ..).trans (hq e')) hl
  by_cases he : e' = e
  · subst he
    refine Or.inr ?_
    simp only [TimerRun.goOn, Function.update_self]
    exact hk
  · refine Or.inl ?_
    simp only [TimerRun.goOn, Function.update_of_ne he, hd]

/-- The owner of a timer starts to move it. -/
theorem Aside.leave {T₁ : OwnedTimer} {target : ExecutorId} (hT : s.timers a = some T)
    (hT₁ : s.timers b = some T₁) (howner : T₁.owner = e) :
    Aside s ((s.cancelTimer e b).goOn e (.leave b target)) a T T where
  old := hT
  timer := (congrFun objects_cancelTimer a).trans hT
  owner := rfl
  active := id
  mover e' target' he := by
    by_cases hee : e' = e
    · subst hee
      simp only [TimerRun.goOn, Function.update_self, TimerWork.leave.injEq] at he
      obtain ⟨rfl, -⟩ := he
      obtain rfl := Option.some.inj (hT.symm.trans hT₁)
      exact Or.inr howner
    · simp only [TimerRun.goOn, Function.update_of_ne hee, doing_cancelTimer] at he
      exact Or.inl he
  destroy e' he := by
    by_cases hee : e' = e
    · subst hee
      simp only [TimerRun.goOn, Function.update_self] at he
      exact absurd he (by simp)
    · simp only [TimerRun.goOn, Function.update_of_ne hee, doing_cancelTimer] at he
      exact he
  requests e' := by
    rw [TimerRun.requests, TimerRun.requests, tasks_goOn, tasks_cancelTimer]
  called := by
    rw [TimerRun.called, TimerRun.called, TimerRun.goOn, log_cancelTimer]
  applied := by
    rw [TimerRun.applied, TimerRun.applied, TimerRun.goOn, log_cancelTimer]

/-! ### Calls made, applied and posted again -/

/-- A call is made while the timer is settled. -/
theorem Ordered.call (h : s.Ordered a) (hs : s.Settled a) (hT : s.timers a = some T) :
    ((s.post T.owner (.timer (timerPtr a) c)).record (.called a c)).Ordered a := by
  obtain ⟨T₀, f, hT₀, hf, hnone, horder⟩ := h.order
  obtain rfl := Option.some.inj (hT.symm.trans hT₀)
  have hq : ∀ e, ((s.post T.owner (.timer (timerPtr a) c)).record (.called a c)).requests e a =
      if e = T.owner then s.requests T.owner a ++ [c] else s.requests e a := by
    intro e
    have hrec : ((s.post T.owner (.timer (timerPtr a) c)).record (.called a c)).requests e a =
        (s.post T.owner (.timer (timerPtr a) c)).requests e a := by
      cases e <;> rfl
    rw [hrec, post, requests_setTasks]
    simp [requests, List.filterMap_append, Task.callOn?, timerPtr]
  have hobj : (s.post T.owner (.timer (timerPtr a) c)).timers = s.timers := objects_setTasks
  have hdo : (s.post T.owner (.timer (timerPtr a) c)).doing = s.doing := doing_setTasks
  have hlog : (s.post T.owner (.timer (timerPtr a) c)).log = s.log := log_setTasks
  constructor
  · intro e target he
    obtain ⟨T₁, hT₁, howner⟩ := h.mover e target (congrFun hdo e ▸ he)
    exact ⟨T₁, (congrFun hobj a).trans hT₁, howner⟩
  · intro e he
    exact h.lives e (congrFun hdo e ▸ he)
  · refine ⟨T, f, (congrFun hobj a).trans hT, hf, fun e he hef => ?_, ?_⟩
    · rw [hq, if_neg he]
      exact hnone e he hef
    · have hcalled : ((s.post T.owner (.timer (timerPtr a) c)).record (.called a c)).called a =
          s.called a ++ [c] := by
        simp [called, record, hlog, TimerEvent.calledOn?]
      have happlied : ((s.post T.owner (.timer (timerPtr a) c)).record (.called a c)).applied a =
          s.applied a := by
        simp [applied, record, hlog, TimerEvent.appliedOn?]
      rw [hcalled, happlied, hq, hq, if_pos rfl, if_neg hf, horder, hs T hT f hf]
      simp
  · intro T₁ hT₁ hact before after heq
    have hT₁' : s.timers a = some T₁ := (congrFun hobj a).symm.trans hT₁
    refine h.stopped T₁ hT₁' hact before after ?_
    rw [← heq]
    simp [applied, record, hlog, TimerEvent.appliedOn?]

/-- A list that ends with `c` and has `x` in it ends after `x`, or with it. -/
theorem split_snoc {α : Type} {l before after : List α} {c x : α}
    (h : l ++ [c] = before ++ x :: after) :
    after = [] ∧ c = x ∨ ∃ after', after = after' ++ [c] ∧ l = before ++ x :: after' := by
  rcases List.eq_nil_or_concat after with rfl | ⟨after', d, rfl⟩
  · have h' : l ++ [c] = before ++ [x] := by simpa using h
    exact Or.inl ⟨rfl, List.singleton_inj.mp (List.append_inj' h' rfl).2⟩
  · have h' : l ++ [c] = (before ++ x :: after') ++ [d] := by simpa using h
    obtain ⟨hl, hd⟩ := List.append_inj' h' rfl
    obtain rfl := List.singleton_inj.mp hd
    exact Or.inr ⟨after', by simp, hl⟩

/-- A timer that is active after a call has been started by it, or was active before. -/
theorem starts_of_active_after {T : TimerState} {now : TimePoint}
    (hact : (T.after now c).active = true) : c.Starts ∨ c ≠ .stop ∧ T.active = true := by
  cases c with
  | start | startWith => exact Or.inl trivial
  | stop => exact absurd hact (by simp [TimerState.after, TimerState.stopped])
  | setSingleShot j => exact Or.inr ⟨by simp, hact⟩
  | setInterval j =>
      by_cases hold : T.active = true
      · exact Or.inr ⟨by simp, hold⟩
      · simp [TimerState.after, TimerState.withInterval, hold] at hact

/-- A call that is applied leaves its executor no work of a move or a destructor. -/
theorem doing_of_apply {rest : List Task} {k : TimerWork}
    (hk : (∃ target, k = .leave b target) ∨ k = .destroy b)
    (he : ((s.setTasks e rest).apply e a T c).doing e' = k) : s.doing e' = k := by
  by_cases hee : e' = e
  · subst hee
    simp only [TimerRun.apply, record, change, Function.update_self] at he
    exfalso
    cases c with
    | start | startWith | stop | setSingleShot =>
        rcases hk with ⟨target, rfl⟩ | rfl
        · exact absurd he (by simp [TimerCall.work])
        · exact absurd he (by simp [TimerCall.work])
    | setInterval j =>
        rw [TimerCall.work] at he
        rcases hk with ⟨target, rfl⟩ | rfl
        · split at he <;> exact absurd he (by simp)
        · split at he <;> exact absurd he (by simp)
  · simp only [TimerRun.apply, record, change, Function.update_of_ne hee] at he
    exact (congrFun doing_setTasks e').symm.trans he

/-- A call that waits with the owner is applied. -/
theorem Ordered.apply (h : s.Ordered a) {p : NodePtr} {rest : List Task} (hp : p.node = a)
    (hq : s.tasks e = .timer p c :: rest) (hT : s.timers a = some T) (howner : T.owner = e) :
    ((s.setTasks e rest).apply e a T c).Ordered a := by
  obtain ⟨T₀, f, hT₀, hf, hnone, horder⟩ := h.order
  obtain rfl := Option.some.inj (hT.symm.trans hT₀)
  subst howner
  have hhead : s.requests T.owner a = c :: rest.filterMap (·.callOn? a) := by
    simp [requests, hq, Task.callOn?, hp]
  have hreq : ∀ e', ((s.setTasks T.owner rest).apply T.owner a T c).requests e' a =
      if e' = T.owner then rest.filterMap (·.callOn? a) else s.requests e' a := by
    intro e'
    rw [← requests_setTasks]
    cases e' <;> rfl
  have hlog : (s.setTasks T.owner rest).log = s.log := log_setTasks
  have hcalled : ((s.setTasks T.owner rest).apply T.owner a T c).called a = s.called a := by
    simp [called, TimerRun.apply, record, change, hlog, TimerEvent.calledOn?]
  have happlied : ((s.setTasks T.owner rest).apply T.owner a T c).applied a =
      s.applied a ++ [c] := by
    simp [applied, TimerRun.apply, record, change, hlog, TimerEvent.appliedOn?]
  have hself : ((s.setTasks T.owner rest).apply T.owner a T c).timers a =
      some { T with state := T.state.after s.now c } := by
    have hnow : (s.setTasks T.owner rest).now = s.now := by
      cases T.owner <;> rfl
    simp [TimerRun.apply, record, change, hnow]
  constructor
  · intro e' target he
    obtain ⟨T₁, hT₁, howner⟩ := h.mover e' target (doing_of_apply (Or.inl ⟨target, rfl⟩) he)
    obtain rfl := Option.some.inj (hT.symm.trans hT₁)
    exact ⟨_, hself, howner⟩
  · intro e' he
    exact h.lives e' (doing_of_apply (Or.inr rfl) he)
  · refine ⟨_, f, hself, hf, fun e' he hef => ?_, ?_⟩
    · rw [hreq, if_neg he]
      exact hnone e' he hef
    · rw [hcalled, happlied, hreq, hreq, if_pos rfl, if_neg hf, horder, hhead]
      simp
  · intro T₁ hT₁ hact before after heq
    obtain rfl := Option.some.inj (hself.symm.trans hT₁)
    rw [happlied] at heq
    have hstarts := starts_of_active_after hact
    rcases split_snoc heq with ⟨-, rfl⟩ | ⟨after', rfl, hl⟩
    · exact hstarts.elim (fun hstart => absurd hstart id) fun hold => absurd rfl hold.1
    · rcases hstarts with hstart | ⟨-, hold⟩
      · exact ⟨c, List.mem_append_right _ List.mem_cons_self, hstart⟩
      · obtain ⟨d, hd, hstart⟩ := h.stopped T hT hold before after' hl
        exact ⟨d, List.mem_append_left _ hd, hstart⟩

/-- A call that waits with the former owner is posted again, to the owner. -/
theorem Ordered.forward (h : s.Ordered a) {p : NodePtr} {rest : List Task} (hp : p.node = a)
    (hq : s.tasks e = .timer p c :: rest) (hT : s.timers a = some T) (howner : T.owner ≠ e) :
    ((s.setTasks e rest).post T.owner (.timer p c)).Ordered a := by
  obtain ⟨T₀, f, hT₀, hf, hnone, horder⟩ := h.order
  obtain rfl := Option.some.inj (hT.symm.trans hT₀)
  have hhead : s.requests e a = c :: rest.filterMap (·.callOn? a) := by
    simp [requests, hq, Task.callOn?, hp]
  have hef : e = f := by
    by_contra hne
    exact absurd (hhead.symm.trans (hnone e (Ne.symm howner) hne)) (by simp)
  subst hef
  have hreq : ∀ e', ((s.setTasks e rest).post T.owner (.timer p c)).requests e' a =
      if e' = T.owner then s.requests T.owner a ++ [c]
      else if e' = e then rest.filterMap (·.callOn? a) else s.requests e' a := by
    intro e'
    have hsplit : ((s.setTasks e rest).tasks T.owner ++ [Task.timer p c]).filterMap
        (·.callOn? a) = s.requests T.owner a ++ [c] := by
      rw [tasks_setTasks, if_neg howner]
      simp [requests, List.filterMap_append, Task.callOn?, hp]
    rw [post, requests_setTasks, hsplit, requests_setTasks]
  have hobj : ((s.setTasks e rest).post T.owner (.timer p c)).timers = s.timers :=
    objects_setTasks.trans objects_setTasks
  have hdo : ((s.setTasks e rest).post T.owner (.timer p c)).doing = s.doing :=
    doing_setTasks.trans doing_setTasks
  have hlog : ((s.setTasks e rest).post T.owner (.timer p c)).log = s.log :=
    log_setTasks.trans log_setTasks
  constructor
  · intro e' target he
    obtain ⟨T₁, hT₁, howner⟩ := h.mover e' target (congrFun hdo e' ▸ he)
    exact ⟨T₁, (congrFun hobj a).trans hT₁, howner⟩
  · intro e' he
    exact h.lives e' (congrFun hdo e' ▸ he)
  · refine ⟨T, e, (congrFun hobj a).trans hT, hf, fun e' he hee => ?_, ?_⟩
    · rw [hreq, if_neg he, if_neg hee]
      exact hnone e' he hee
    · have hlist : s.called a = s.applied a ++ (s.requests T.owner a ++ [c]) ++
          rest.filterMap (·.callOn? a) := by
        rw [horder, hhead]
        simp
      rw [called, applied, hlog, hreq, hreq, if_pos rfl, if_neg hf, if_pos rfl]
      exact hlist
  · intro T₁ hT₁ hact before after heq
    rw [applied, hlog] at heq
    exact h.stopped T₁ ((congrFun hobj a).symm.trans hT₁) hact before after heq

/-- Another owner is published while the timer is settled: its old owner becomes the former one. -/
theorem Ordered.publish (h : s.Ordered a) (hs : s.Settled a) {target : ExecutorId}
    (hd : s.doing e = .leave a target) (hT : s.timers a = some T) :
    (s.change e a { T with owner := target } (.enter a)).Ordered a := by
  obtain ⟨T₀, f, hT₀, hf, hnone, horder⟩ := h.order
  obtain rfl := Option.some.inj (hT.symm.trans hT₀)
  obtain ⟨T₁, hT₁, howner⟩ := h.mover e target hd
  obtain rfl := Option.some.inj (hT.symm.trans hT₁)
  have hreq : ∀ e', (s.change e a { T with owner := target } (.enter a)).requests e' a =
      s.requests e' a := by
    intro e'
    cases e' <;> rfl
  have hself : (s.change e a { T with owner := target } (.enter a)).timers a =
      some { T with owner := target } := Function.update_self ..
  constructor
  · intro e' target' he
    by_cases hee : e' = e
    · subst hee
      simp only [change, Function.update_self] at he
      exact absurd he (by simp)
    · simp only [change, Function.update_of_ne hee] at he
      obtain ⟨T₂, hT₂, howner₂⟩ := h.mover e' target' he
      obtain rfl := Option.some.inj (hT.symm.trans hT₂)
      exact absurd (howner₂.symm.trans howner) hee
  · intro e' he
    by_cases hee : e' = e
    · subst hee
      simp only [change, Function.update_self] at he
      exact absurd he (by simp)
    · simp only [change, Function.update_of_ne hee] at he
      exact h.lives e' he
  · by_cases htarget : target = T.owner
    · refine ⟨_, f, hself, ?_, fun e' he hef => ?_, ?_⟩
      · rw [htarget]
        exact hf
      · rw [hreq]
        exact hnone e' (htarget ▸ he) hef
      · rw [hreq, hreq, htarget]
        exact horder
    · refine ⟨_, T.owner, hself, Ne.symm htarget, fun e' _ he => ?_, ?_⟩
      · rw [hreq]
        exact hs T hT e' he
      · have hlist : s.called a = s.applied a ++ s.requests target a ++ s.requests T.owner a := by
          rw [horder, hs T hT f hf, hs T hT target htarget]
          simp
        rw [hreq, hreq]
        exact hlist
  · intro T₂ hT₂ hact before after heq
    obtain rfl := Option.some.inj (hself.symm.trans hT₂)
    exact h.stopped T hT hact before after heq

/-! ### The step lemma -/

/-- A task is run. -/
theorem Ordered.runTask (h : s.Ordered a) {t : Task} {rest : List Task}
    (hq : s.tasks e = t :: rest) : ((s.setTasks e rest).runTask e t).Ordered a := by
  obtain ⟨T, f, hT, -⟩ := h.order
  have hobj : (s.setTasks e rest).timers = s.timers := objects_setTasks
  have hother : t.callOn? a = none → (s.setTasks e rest).Ordered a := by
    intro ht
    exact h.aside (Aside.pop hT hq ht)
  have hT' : (s.setTasks e rest).timers a = some T := (congrFun hobj a).trans hT
  cases t with
  | timer p c =>
      by_cases hp : p.node = a
      · rw [TimerRun.runTask, hp, hT']
        by_cases howner : T.owner = e
        · simp only [if_pos howner]
          exact h.apply hp hq hT howner
        · simp only [if_neg howner]
          exact h.forward hp hq hT howner
      · have hnone : (Task.timer p c).callOn? a = none := if_neg hp
        have h' := hother hnone
        rw [TimerRun.runTask]
        cases hb : (s.setTasks e rest).timers p.node with
        | none => exact h'
        | some T₁ =>
            dsimp only
            by_cases howner : T₁.owner = e
            · rw [if_pos howner]
              exact h'.aside (Aside.apply hT' hp)
            · rw [if_neg howner]
              exact h'.aside (Aside.post hT' hnone)
  | timeout p g =>
      have h' := hother rfl
      rw [TimerRun.runTask]
      cases hb : (s.setTasks e rest).timers p.node with
      | none => exact h'
      | some T₁ =>
          dsimp only
          by_cases howner : T₁.owner = e
          · rw [if_pos howner]
            obtain ⟨T', hs⟩ := Aside.dispatch (g := g) hT' hb
            exact h'.aside hs
          · rw [if_neg howner]
            exact h'
  | _ => exact hother rfl

/-- An executor goes on with a call that it is in the middle of. -/
theorem Ordered.advance (h : s.Ordered a) (ho : s.CallsSettled a (.work e))
    (hst : s.advance e = some s') : s'.Ordered a := by
  obtain ⟨T, f, hT, -⟩ := h.order
  rw [TimerRun.advance] at hst
  cases hd : s.doing e with
  | idle =>
      rw [hd] at hst
      exact absurd hst (by simp)
  | arm b d g | rearm b d g g' =>
      simp only [hd, Option.map_eq_some_iff] at hst
      obtain ⟨T₁, hT₁, rfl⟩ := hst
      exact h.aside (Aside.goOn hT objects_scheduleTimer doing_scheduleTimer
        (fun e' => tasks_scheduleTimer) log_scheduleTimer ⟨by simp, by simp⟩)
  | disarm b =>
      simp only [hd, Option.map_eq_some_iff] at hst
      obtain ⟨T₁, hT₁, rfl⟩ := hst
      exact h.aside (Aside.goOn hT objects_cancelTimer doing_cancelTimer
        (fun e' => tasks_cancelTimer) log_cancelTimer ⟨by simp, by simp⟩)
  | emit b g w =>
      simp only [hd, Option.map_eq_some_iff] at hst
      obtain ⟨T₁, hT₁, rfl⟩ := hst
      exact h.aside ((Aside.goOn hT rfl rfl (fun _ => rfl) rfl ⟨by simp, by simp⟩).record
        rfl rfl)
  | leave b target =>
      simp only [hd, Option.map_eq_some_iff] at hst
      obtain ⟨T₁, hT₁, rfl⟩ := hst
      by_cases hba : b = a
      · subst hba
        obtain rfl := Option.some.inj (hT.symm.trans hT₁)
        exact h.publish (ho.move e target rfl hd) hd hT
      · refine h.aside (.of_eq hT (Function.update_of_ne (Ne.symm hba) ..) (fun e' => ?_)
          (fun e' => tasks_change ..) rfl)
        by_cases he : e' = e
        · subst he
          refine Or.inr ?_
          simp [change]
        · exact Or.inl (Function.update_of_ne he ..)
  | enter b =>
      simp only [hd, Option.map_eq_some_iff] at hst
      obtain ⟨T₁, hT₁, rfl⟩ := hst
      refine h.aside (Aside.goOn hT rfl rfl (fun _ => rfl) rfl ?_)
      split
      · exact ⟨by simp, by simp⟩
      · exact ⟨by simp, by simp⟩
  | destroy b =>
      simp only [hd, Option.map_eq_some_iff] at hst
      obtain ⟨T₁, hT₁, rfl⟩ := hst
      have hba : b ≠ a := by
        rintro rfl
        exact h.lives e hd
      have haside := Aside.goOn (k := .idle) (e := e) hT
        (objects_cancelTimer (e := T₁.owner) (a := b)) doing_cancelTimer
        (fun e' => tasks_cancelTimer) log_cancelTimer ⟨by simp, by simp⟩
      refine h.aside (haside.trans (.of_eq haside.timer ?_ (fun _ => Or.inl rfl)
        (fun e' => ?_) rfl))
      · rw [haside.timer]
        exact (Function.update_of_ne (Ne.symm hba) ..).trans hT
      · cases e' <;> rfl

/-- **The step lemma.** -/
theorem Ordered.step (h : s.Ordered a) (ho : s.CallsSettled a l) (hst : Step s l s') :
    s'.Ordered a := by
  obtain ⟨T, f, hT, -⟩ := h.order
  cases hst with
  | @post b c T₁ hT₁ =>
      by_cases hba : b = a
      · subst hba
        obtain rfl := Option.some.inj (hT.symm.trans hT₁)
        exact h.call (ho.call c rfl) hT
      · have hnone : (Task.timer (timerPtr b) c).callOn? a = none := if_neg hba
        exact h.aside ((Aside.post hT hnone).record (if_neg hba) rfl)
  | @call e b c T₁ hd hT₁ howner =>
      have hba : b ≠ a := by
        rintro rfl
        exact ho.outside e c rfl
      exact h.aside (Aside.apply hT hba)
  | runTask hd hq => exact h.runTask hq
  | @take t hd =>
      refine h.aside (.of_eq hT rfl (fun _ => Or.inl rfl) (fun e' => ?_) rfl)
      cases e' with
      | loop t' =>
          by_cases ht : t' = t
          · subst ht
            simp only [tasks, Function.update_self]
            rfl
          · simp only [tasks, Function.update_of_ne ht]
      | strand j => rfl
  | @dispatch t x rest T₁ hd hq hT₁ =>
      have haside : Aside s { s with batches := Function.update s.batches t rest } a T T := by
        refine .of_eq hT rfl (fun _ => Or.inl rfl) (fun e' => ?_) rfl
        cases e' <;> rfl
      obtain ⟨T', hs⟩ := Aside.dispatch (e := .loop t) (g := x.generation) haside.timer hT₁
      exact (h.aside haside).aside hs
  | @move e target b T₁ hd hT₁ howner hne =>
      exact h.aside (Aside.leave hT hT₁ howner)
  | @destroy e b T₁ hd hT₁ howner =>
      have hba : b ≠ a := by
        rintro rfl
        exact ho.lives e rfl
      refine h.aside (.of_eq hT (Function.update_of_ne (Ne.symm hba) ..) (fun e' => ?_)
        (fun e' => tasks_change ..) rfl)
      by_cases he : e' = e
      · subst he
        refine Or.inr ?_
        simp [change, hba]
      · exact Or.inl (Function.update_of_ne he ..)
  | work hw => exact h.advance ho hw
  | serviceTake | serviceStop | serviceJoin | tick =>
      refine h.aside (.of_eq hT rfl (fun _ => Or.inl rfl) (fun e' => ?_) rfl)
      cases e' <;> rfl
  | @servicePost p x rest hd =>
      have haside : Aside s { s with due := Function.update s.due p rest } a T T := by
        refine .of_eq hT rfl (fun _ => Or.inl rfl) (fun e' => ?_) rfl
        cases e' <;> rfl
      exact (h.aside haside).aside (Aside.post haside.timer rfl)

/-! ### Runs -/

/-- An unused timer is settled, and nothing was called. -/
theorem Unused.ordered (h : s.Unused) (hT : s.timers a = some T) : s.Ordered a := by
  have hreq : ∀ e, s.requests e a = [] := by
    intro e
    refine List.filterMap_eq_nil_iff.mpr fun k hk => ?_
    have hnone := h.tasks e k hk
    cases k with
    | timer p c => exact absurd hnone (by simp [Task.timer?])
    | _ => rfl
  obtain ⟨f, hf⟩ : ∃ f, f ≠ T.owner := by
    cases T.owner with
    | loop t => exact ⟨.strand 0, by simp⟩
    | strand j => exact ⟨.loop 0, by simp⟩
  have happlied : s.applied a = [] := by
    simp [applied, h.log]
  constructor
  · intro e target he
    exact absurd ((h.doing e).symm.trans he) (by simp)
  · intro e he
    exact absurd ((h.doing e).symm.trans he) (by simp)
  · refine ⟨T, f, hT, hf, fun e _ _ => hreq e, ?_⟩
    rw [hreq, hreq, happlied]
    simp [called, h.log]
  · intro T₁ hT₁ hact before after heq
    rw [happlied] at heq
    exact absurd heq (by simp)

end TimerRun

end SimplyNode
