import Mathlib.Algebra.Ring.Int.Defs
import Mathlib.Algebra.Ring.Nat
import SimplyNode.Lib.Transition
import SimplyNode.Timer

/-!
# Timers on the Steady Clock

The deadlines of `Timer` and `EventLoop` as the machine computes them: an interval is a number of
milliseconds of 64 bits, a reading of the steady clock a number of nanoseconds of 64 bits, and the
interval is converted to nanoseconds and added to the reading in this width. The modules about the
order of starts, stops and dispatches have deadlines without a bound; they are these deadlines as
long as none is out of the range of the clock.

## Main results

* `Deadline.right_iff`: a deadline is right when it is in the range of the clock.
* `toState_started`: a start in this range is a start of a timer without a bound.
* `inRange_perform`: what a step does to the deadlines.
* `timer_deadlines_iff`: the deadlines are right all along a run if and only if every interval that
  is started ends in the range of the clock.
-/

open Transition

namespace SimplyNode

namespace TimerClock

/-! ### Deadlines -/

/-- `sanitizeInterval`, of a number of milliseconds. -/
def sanitizeInterval (interval : Int64) : Int64 := if interval < 0 then 0 else interval

/-- A deadline, by the reading of the clock and the interval it is computed from. -/
structure Deadline where
  readAt : Int64 := 0
  interval : Int64 := 0
  nonneg : 0 ≤ interval := by decide

namespace Deadline

/-- The time point that is stored: `now() + interval`. -/
def count (d : Deadline) : Int64 := d.readAt + d.interval * 1000000

/-- The true deadline. -/
def due (d : Deadline) : ℤ := deadlineAfter d.readAt.toInt d.interval.toInt

/-- **A deadline is right**: it is not before the reading it was computed from, and the clock
reaches it when it reaches the true deadline. -/
def Right (d : Deadline) : Prop :=
  d.readAt ≤ d.count ∧ ∀ now : Int64, d.count ≤ now ↔ d.due ≤ now.toInt

/-- The true deadline is in the range of the clock. -/
def InRange (d : Deadline) : Prop := d.due < 2 ^ 63

end Deadline

theorem sanitizeInterval_nonneg (interval : Int64) : 0 ≤ sanitizeInterval interval := by
  rw [sanitizeInterval]
  split
  · decide
  · rename_i h
    exact Int64.not_lt.mp h

/-- The deadline of an interval that begins with a reading of the clock. -/
def deadlineFrom (now interval : Int64) : Deadline where
  readAt := now
  interval := sanitizeInterval interval
  nonneg := sanitizeInterval_nonneg interval

/-! ### Timers and loops -/

/-- The members of a `Timer`, and the event loop that owns it, if one does. -/
structure ClockTimer where
  owner : Option ThreadId := none
  interval : Int64 := 0
  singleShot : Bool := false
  active : Bool := false
  generation : ℕ := 0
  deadline : Deadline := {}

/-- The timer runs from a reading of the clock on, for a new generation. -/
def ClockTimer.started (T : ClockTimer) (interval now : Int64) : ClockTimer :=
  { T with
    interval := sanitizeInterval interval
    active := true
    generation := T.generation + 1
    deadline := deadlineFrom now interval }

/-- `EventLoop::TimerEntry`. -/
structure ClockEntry where
  timer : Addr
  deadline : Deadline
  generation : ℕ

/-- `EventLoop::takeDueTimers`: what is taken, and what is left in `m_timers`. -/
def takeDueTimers (now : Int64) : List ClockEntry → List ClockEntry × List ClockEntry
  | [] => ([], [])
  | entry :: entries =>
      let r := takeDueTimers now entries
      if entry.deadline.count ≤ now then (entry :: r.1, r.2) else (r.1, entry :: r.2)

end TimerClock

open TimerClock in
/-- The timers that exist, and `m_timers` of every event loop. -/
structure TimerClock where
  timers : Addr → Option ClockTimer := fun _ => none
  entries : ThreadId → List ClockEntry := fun _ => []

namespace TimerClock

/-- `EventLoop::scheduleTimer`, with the owner of a timer if this is an event loop. -/
def scheduleTimer (s : TimerClock) (owner : Option ThreadId) (entry : ClockEntry) : TimerClock :=
  match owner with
  | none => s
  | some t =>
      { s with
        entries := Function.update s.entries t
          ((s.entries t).filter (·.timer ≠ entry.timer) ++ [entry]) }

/-- `EventLoop::cancelTimer`. -/
def cancelTimer (s : TimerClock) (owner : Option ThreadId) (a : Addr) : TimerClock :=
  match owner with
  | none => s
  | some t =>
      { s with entries := Function.update s.entries t ((s.entries t).filter (·.timer ≠ a)) }

/-- The members of a timer are changed. -/
def setTimer (s : TimerClock) (a : Addr) (T : Option ClockTimer) : TimerClock :=
  { s with timers := Function.update s.timers a T }

/-- The members of a timer are changed, and its owner schedules it. -/
def arm (s : TimerClock) (a : Addr) (T : ClockTimer) : TimerClock :=
  (s.setTimer a (some T)).scheduleTimer T.owner ⟨a, T.deadline, T.generation⟩

/-- What is done to a timer, and the reading of the clock where there is one. -/
inductive Call
  | start (now : Int64)
  | startWith (interval now : Int64)
  | stop
  | setInterval (interval now : Int64)
  | setSingleShot (singleShot : Bool)
  | dispatchTimeout (generation : ℕ) (now : Int64)
  | move (target : Option ThreadId)
  | destroy

/-- `Timer::start(interval)` inside the owner; `Timer::start()` takes the interval of the timer. -/
def start (s : TimerClock) (a : Addr) (T : ClockTimer) (interval now : Int64) : TimerClock :=
  s.arm a (T.started interval now)

/-- `Timer::stop` inside the owner. -/
def stop (s : TimerClock) (a : Addr) (T : ClockTimer) : TimerClock :=
  (s.setTimer a (some { T with active := false, generation := T.generation + 1 })).cancelTimer
    T.owner a

/-- `Timer::setInterval` inside the owner. -/
def setInterval (s : TimerClock) (a : Addr) (T : ClockTimer) (interval now : Int64) : TimerClock :=
  if T.active then s.arm a (T.started interval now)
  else s.setTimer a (some { T with interval := sanitizeInterval interval })

/-- `Timer::dispatchTimeout`, up to the emission. -/
def dispatchTimeout (s : TimerClock) (a : Addr) (T : ClockTimer) (generation : ℕ)
    (now : Int64) : TimerClock :=
  if !T.active || generation ≠ T.generation then s
  else if T.singleShot then
    s.setTimer a (some { T with active := false, generation := T.generation + 1 })
  else
    s.arm a { T with
      generation := T.generation + 1
      deadline := deadlineFrom now T.interval }

/-- The two hooks of a migration, and the change of the owner between them. -/
def move (s : TimerClock) (a : Addr) (T : ClockTimer) (target : Option ThreadId) : TimerClock :=
  let s := s.cancelTimer T.owner a
  let T := { T with owner := target }
  if T.active then s.arm a T else s.setTimer a (some T)

/-- A call on a timer. -/
def apply (s : TimerClock) (a : Addr) (T : ClockTimer) : Call → TimerClock
  | .start now => s.start a T T.interval now
  | .startWith interval now => s.start a T interval now
  | .stop => s.stop a T
  | .setInterval interval now => s.setInterval a T interval now
  | .setSingleShot singleShot => s.setTimer a (some { T with singleShot })
  | .dispatchTimeout generation now => s.dispatchTimeout a T generation now
  | .move target => s.move a T target
  | .destroy => (s.setTimer a none).cancelTimer T.owner a

/-- A step: a timer is constructed, a call is made on a timer, or a loop takes its due timers. -/
inductive Step
  | construct (a : Addr) (owner : Option ThreadId)
  | call (a : Addr) (c : Call)
  | takeDueTimers (t : ThreadId) (now : Int64)

/-- A step is made. -/
def perform (s : TimerClock) : Step → TimerClock
  | .construct a owner =>
      match s.timers a with
      | none => s.setTimer a (some { owner })
      | some _ => s
  | .call a c =>
      match s.timers a with
      | none => s
      | some T => s.apply a T c
  | .takeDueTimers t now =>
      { s with
        entries := Function.update s.entries t (TimerClock.takeDueTimers now (s.entries t)).2 }

/-- A run. -/
def run (steps : List Step) : TimerClock := steps.foldl perform {}

/-- The reading of the clock and the interval with which a call starts a timer. -/
def Call.starts (T : ClockTimer) : Call → Option (Int64 × Int64)
  | .start now => some (now, T.interval)
  | .startWith interval now => some (now, interval)
  | .setInterval interval now => if T.active then some (now, interval) else none
  | .dispatchTimeout generation now =>
      if T.active ∧ generation = T.generation ∧ T.singleShot = false then some (now, T.interval)
      else none
  | .stop | .setSingleShot _ | .move _ | .destroy => none

/-- An interval that begins with a reading of the clock ends in the range of the clock. -/
def EndsInRange (now interval : Int64) : Prop :=
  now.toInt + max 0 interval.toInt * 1000000 < 2 ^ 63

/-- A step starts no interval that ends out of the range of the clock. -/
def Step.InRange (s : TimerClock) : Step → Prop
  | .call a c => ∀ T, s.timers a = some T → ∀ now interval, c.starts T = some (now, interval) →
      EndsInRange now interval
  | .construct _ _ | .takeDueTimers _ _ => True

/-- **The timers are on time**: the deadline of every timer is right, and whatever the clock reads,
a loop takes the entries whose true deadline has been reached and leaves the others. -/
structure OnTime (s : TimerClock) : Prop where
  deadlines : ∀ a T, s.timers a = some T → T.deadline.Right
  taken : ∀ t now, takeDueTimers now (s.entries t) =
    ((s.entries t).filter (·.deadline.due ≤ now.toInt),
      (s.entries t).filter (now.toInt < ·.deadline.due))

/-! ### Arithmetic -/

theorem toInt_sanitizeInterval (interval : Int64) :
    (sanitizeInterval interval).toInt = SimplyNode.sanitizeInterval interval.toInt := by
  have hneg : interval < 0 ↔ interval.toInt < 0 := Int64.lt_iff_toInt_lt
  simp only [sanitizeInterval, SimplyNode.sanitizeInterval, apply_ite Int64.toInt, hneg]
  rfl

namespace Deadline

theorem toInt_interval_nonneg (d : Deadline) : 0 ≤ d.interval.toInt :=
  Int64.le_iff_toInt_le.mp d.nonneg

/-- What is stored is the true deadline up to the width of the clock. -/
theorem toInt_count (d : Deadline) : d.count.toInt = d.due.bmod (2 ^ 64) := by
  have hmillion : (1000000 : Int64).toInt = 1000000 := rfl
  rw [count, Int64.toInt_add, Int64.toInt_mul, hmillion, Int.add_bmod_bmod]
  rfl

theorem inRange_default : InRange {} := by
  rw [InRange]
  decide

theorem readAt_le_due (d : Deadline) : d.readAt.toInt ≤ d.due :=
  Int.le_add_of_nonneg_right (Int.mul_nonneg d.toInt_interval_nonneg (by decide))

/-- In the range of the clock the true deadline is stored. -/
theorem InRange.toInt_count {d : Deadline} (h : d.InRange) : d.count.toInt = d.due := by
  have hread := d.readAt.le_toInt
  have hle := d.readAt_le_due
  rw [InRange] at h
  rw [Deadline.toInt_count]
  exact Int.bmod_eq_of_le (by omega) (by omega)

/-- **A deadline is right in the range of the clock**, and nowhere else: out of it, the clock
reaches what is stored and never the true deadline. -/
theorem right_iff (d : Deadline) : d.Right ↔ d.InRange := by
  constructor
  · intro h
    have hdue := (h.2 d.count).mp (Int64.le_refl _)
    exact Int.lt_of_le_of_lt hdue d.count.toInt_lt
  · intro h
    refine ⟨?_, fun now => ?_⟩
    · rw [Int64.le_iff_toInt_le, h.toInt_count]
      exact d.readAt_le_due
    · rw [Int64.le_iff_toInt_le, h.toInt_count]

end Deadline

theorem inRange_deadlineFrom (now interval : Int64) :
    (deadlineFrom now interval).InRange ↔ EndsInRange now interval := by
  have hmax : SimplyNode.sanitizeInterval interval.toInt = max 0 interval.toInt := by
    rw [SimplyNode.sanitizeInterval]
    split <;> omega
  rw [Deadline.InRange, Deadline.due, deadlineFrom, toInt_sanitizeInterval, hmax]
  rfl

/-! ### The model without a bound -/

/-- The members of a timer as numbers without a bound. -/
def ClockTimer.toState (T : ClockTimer) : TimerState where
  interval := T.interval.toInt
  singleShot := T.singleShot
  active := T.active
  generation := T.generation
  deadline := T.deadline.count.toInt

/-- **A start in the range of the clock** is a start of a timer without a bound. -/
theorem toState_started (T : ClockTimer) {interval now : Int64} (h : EndsInRange now interval) :
    (T.started interval now).toState = T.toState.started now.toInt interval.toInt := by
  have hdue := ((inRange_deadlineFrom now interval).mpr h).toInt_count
  rw [ClockTimer.toState, TimerState.started, ClockTimer.started, hdue, Deadline.due, deadlineFrom,
    toInt_sanitizeInterval]
  rfl

/-! ### What a loop takes -/

theorem takeDueTimers_eq (now : Int64) (entries : List ClockEntry) :
    takeDueTimers now entries = (entries.filter (·.deadline.count ≤ now),
      entries.filter (¬·.deadline.count ≤ now)) := by
  induction entries with
  | nil => rfl
  | cons entry entries ih =>
      rw [takeDueTimers, ih]
      split
      · rename_i h
        simp only [List.filter_cons, h, not_true_eq_false, decide_true, decide_false, if_true,
          Bool.false_eq_true, if_false]
      · rename_i h
        simp only [List.filter_cons, h, not_false_eq_true, decide_true, decide_false, if_true,
          Bool.false_eq_true, if_false]

/-- A loop takes the right entries, whatever the clock reads, if their deadlines are right. -/
theorem taken_iff (entries : List ClockEntry) :
    (∀ now, takeDueTimers now entries = (entries.filter (·.deadline.due ≤ now.toInt),
      entries.filter (now.toInt < ·.deadline.due))) ↔
        ∀ entry ∈ entries, entry.deadline.InRange := by
  constructor
  · intro h entry hentry
    have htaken := h entry.deadline.count
    rw [takeDueTimers_eq, Prod.mk.injEq] at htaken
    have hmem : entry ∈ entries.filter (·.deadline.count ≤ entry.deadline.count) :=
      List.mem_filter.mpr ⟨hentry, decide_eq_true (Int64.le_refl _)⟩
    rw [htaken.1] at hmem
    have hdue := of_decide_eq_true (List.mem_filter.mp hmem).2
    exact Int.lt_of_le_of_lt hdue entry.deadline.count.toInt_lt
  · intro h now
    have hdue : ∀ entry ∈ entries, entry.deadline.count ≤ now ↔ entry.deadline.due ≤ now.toInt :=
      fun entry hentry => ((Deadline.right_iff _).mpr (h entry hentry)).2 now
    rw [takeDueTimers_eq]
    refine Prod.ext (List.filter_congr fun entry hentry => ?_)
      (List.filter_congr fun entry hentry => ?_)
    · exact decide_eq_decide.mpr (hdue entry hentry)
    · exact decide_eq_decide.mpr ((not_congr (hdue entry hentry)).trans Int.not_le)

/-- All deadlines are in the range of the clock. -/
structure AllInRange (s : TimerClock) : Prop where
  timers : ∀ a T, s.timers a = some T → T.deadline.InRange
  entries : ∀ t, ∀ entry ∈ s.entries t, entry.deadline.InRange

theorem onTime_iff (s : TimerClock) : s.OnTime ↔ s.AllInRange := by
  constructor
  · intro h
    exact ⟨fun a T hT => (Deadline.right_iff _).mp (h.deadlines a T hT),
      fun t => (taken_iff _).mp (h.taken t)⟩
  · intro h
    exact ⟨fun a T hT => (Deadline.right_iff _).mpr (h.timers a T hT),
      fun t => (taken_iff _).mpr (h.entries t)⟩

/-! ### Steps -/

section Steps

variable {s : TimerClock} {a : Addr} {T : ClockTimer} {owner : Option ThreadId}

theorem timers_setTimer (T : Option ClockTimer) (b : Addr) :
    (s.setTimer a T).timers b = if b = a then T else s.timers b :=
  Function.update_apply s.timers a T b

theorem timers_scheduleTimer (entry : ClockEntry) :
    (s.scheduleTimer owner entry).timers = s.timers := by
  cases owner <;> rfl

theorem timers_arm (T : ClockTimer) : (s.arm a T).timers a = some T := by
  rw [arm, timers_scheduleTimer, timers_setTimer, if_pos rfl]

theorem AllInRange.setTimer (h : s.AllInRange) {T : Option ClockTimer}
    (hT : ∀ T' ∈ T, T'.deadline.InRange) : (s.setTimer a T).AllInRange where
  timers b T' hb := by
    rcases eq_or_ne b a with rfl | hba
    · rw [timers_setTimer, if_pos rfl] at hb
      exact hT T' hb
    · rw [timers_setTimer, if_neg hba] at hb
      exact h.timers b T' hb
  entries := h.entries

/-- Only the entries of one loop are others. -/
theorem AllInRange.update (h : s.AllInRange) {t : ThreadId} {entries : List ClockEntry}
    (hentries : ∀ entry ∈ entries, entry.deadline.InRange) :
    AllInRange { s with entries := Function.update s.entries t entries } where
  timers := h.timers
  entries t' entry hentry := by
    rcases eq_or_ne t' t with rfl | hne
    · exact hentries entry (by simpa only [Function.update_self] using hentry)
    · exact h.entries t' entry (by simpa only [Function.update_of_ne hne] using hentry)

theorem AllInRange.cancelTimer (h : s.AllInRange) : (s.cancelTimer owner a).AllInRange := by
  cases owner with
  | none => exact h
  | some t => exact h.update fun entry hentry => h.entries t entry (List.mem_of_mem_filter hentry)

theorem AllInRange.scheduleTimer (h : s.AllInRange) {entry : ClockEntry}
    (hentry : entry.deadline.InRange) : (s.scheduleTimer owner entry).AllInRange := by
  cases owner with
  | none => exact h
  | some t =>
      refine h.update fun other hother => ?_
      rcases List.mem_append.mp hother with hother | hother
      · exact h.entries t other (List.mem_of_mem_filter hother)
      · rw [List.mem_singleton.mp hother]
        exact hentry

/-- **A timer is armed** in range exactly when its deadline is. -/
theorem AllInRange.arm_iff (h : s.AllInRange) :
    (s.arm a T).AllInRange ↔ T.deadline.InRange := by
  constructor
  · intro harm
    exact harm.timers a T (timers_arm T)
  · intro hT
    refine AllInRange.scheduleTimer (h.setTimer fun T' hT' => ?_) hT
    rw [← Option.some.inj hT']
    exact hT

/-- What a timer becomes, with the deadline it has. -/
theorem AllInRange.setTimer_same (h : s.AllInRange) (hT : s.timers a = some T) (T' : ClockTimer)
    (hdeadline : T'.deadline = T.deadline) : (s.setTimer a (some T')).AllInRange := by
  refine h.setTimer fun T'' hT'' => ?_
  rw [← Option.some.inj hT'', hdeadline]
  exact h.timers a T hT

/-- The interval that is started, if there is one, ends in range. -/
theorem forall_starts_iff (now interval : Int64) :
    (∀ now' interval', some (now, interval) = some (now', interval') →
      EndsInRange now' interval') ↔ (deadlineFrom now interval).InRange := by
  rw [inRange_deadlineFrom]
  refine ⟨fun hall => hall now interval rfl, fun hends now' interval' heq => ?_⟩
  obtain ⟨rfl, rfl⟩ := Prod.mk.inj (Option.some.inj heq)
  exact hends

theorem AllInRange.stop (h : s.AllInRange) (hT : s.timers a = some T) :
    (s.stop a T).AllInRange := by
  rw [TimerClock.stop]
  refine AllInRange.cancelTimer (h.setTimer_same hT _ ?_)
  rfl

/-- An interval is started where the timer runs. -/
theorem AllInRange.setInterval_iff (h : s.AllInRange) (hT : s.timers a = some T)
    (interval now : Int64) : (s.setInterval a T interval now).AllInRange ↔
      ∀ now' interval', (if T.active then some (now, interval) else none) =
        some (now', interval') → EndsInRange now' interval' := by
  rw [setInterval]
  by_cases hactive : T.active
  · rw [if_pos hactive, if_pos hactive]
    exact h.arm_iff.trans (forall_starts_iff now interval).symm
  · rw [if_neg hactive, if_neg hactive]
    exact iff_of_true (h.setTimer_same hT _ rfl) fun now' interval' heq => by cases heq

/-- An interval is started where a timer that repeats is dispatched. -/
theorem AllInRange.dispatchTimeout_iff (h : s.AllInRange) (hT : s.timers a = some T)
    (generation : ℕ) (now : Int64) : (s.dispatchTimeout a T generation now).AllInRange ↔
      ∀ now' interval',
        (if T.active ∧ generation = T.generation ∧ T.singleShot = false then
          some (now, T.interval) else none) = some (now', interval') →
            EndsInRange now' interval' := by
  rw [dispatchTimeout]
  by_cases hcurrent : T.active = true ∧ generation = T.generation
  · rw [if_neg (by simp [hcurrent.1, hcurrent.2])]
    cases hsingle : T.singleShot with
    | false =>
        rw [if_neg Bool.false_ne_true, if_pos ⟨hcurrent.1, hcurrent.2, rfl⟩]
        exact h.arm_iff.trans (forall_starts_iff now T.interval).symm
    | true =>
        rw [if_pos rfl, if_neg fun hrepeats => Bool.noConfusion hrepeats.2.2]
        exact iff_of_true (h.setTimer_same hT _ rfl) fun now' interval' heq => by cases heq
  · -- the entry is an old one
    rw [if_pos (by simpa [← Bool.not_eq_true, imp_iff_not_or] using hcurrent),
      if_neg fun hrepeats => hcurrent ⟨hrepeats.1, hrepeats.2.1⟩]
    exact iff_of_true h fun now' interval' heq => by cases heq

/-- A timer moves with its deadline. -/
theorem AllInRange.move (h : s.AllInRange) (hT : s.timers a = some T) (target : Option ThreadId) :
    (s.move a T target).AllInRange := by
  rw [TimerClock.move]
  dsimp only
  split
  · exact h.cancelTimer.arm_iff.mpr (h.timers a T hT)
  · refine h.cancelTimer.setTimer fun T' hT' => ?_
    rw [← Option.some.inj hT']
    exact h.timers a T hT

/-- **A call** keeps the deadlines in range exactly when the interval that it starts, if it starts
one, ends in range. -/
theorem AllInRange.apply_iff (h : s.AllInRange) (hT : s.timers a = some T) (c : Call) :
    (s.apply a T c).AllInRange ↔
      ∀ now interval, c.starts T = some (now, interval) → EndsInRange now interval := by
  have hnone (hs : (s.apply a T c).AllInRange) : (s.apply a T c).AllInRange ↔
      ∀ now interval : Int64, none = some (now, interval) → EndsInRange now interval :=
    iff_of_true hs fun now interval heq => by cases heq
  cases c with
  | start now => exact h.arm_iff.trans (forall_starts_iff now T.interval).symm
  | startWith interval now => exact h.arm_iff.trans (forall_starts_iff now interval).symm
  | stop => exact hnone (h.stop hT)
  | setInterval interval now => exact h.setInterval_iff hT interval now
  | setSingleShot singleShot => exact hnone (h.setTimer_same hT _ rfl)
  | dispatchTimeout generation now => exact h.dispatchTimeout_iff hT generation now
  | move target => exact hnone (h.move hT target)
  | destroy =>
      refine hnone (AllInRange.cancelTimer (h.setTimer fun T' hT' => ?_))
      cases hT'

/-- **The step lemma.** -/
theorem inRange_perform (h : s.AllInRange) (l : Step) :
    (s.perform l).AllInRange ↔ l.InRange s := by
  cases l with
  | construct a owner =>
      refine iff_of_true ?_ trivial
      rw [perform]
      split
      · refine h.setTimer fun T' hT' => ?_
        rw [← Option.some.inj hT']
        exact Deadline.inRange_default
      · exact h
  | call a c =>
      rw [perform, Step.InRange]
      split
      · rename_i hnone
        exact iff_of_true h fun T hT => absurd (hnone.symm.trans hT) (by simp)
      · rename_i T hT
        rw [h.apply_iff hT]
        refine ⟨fun hall T' hT' => ?_, fun hall => hall T hT⟩
        rw [← Option.some.inj (hT.symm.trans hT')]
        exact hall
  | takeDueTimers t now =>
      refine iff_of_true (h.update fun entry hentry => ?_) trivial
      rw [takeDueTimers_eq] at hentry
      exact h.entries t entry (List.mem_of_mem_filter hentry)

end Steps

end TimerClock

open TimerClock

/-- **Timers are on time** all along a run if and only if every interval that is started in it ends
in the range of the clock. -/
theorem timer_deadlines_iff (steps : List TimerClock.Step) :
    (∀ before, before <+: steps → (TimerClock.run before).OnTime) ↔
      ∀ before l, before ++ [l] <+: steps → l.InRange (TimerClock.run before) := by
  have hempty : AllInRange {} := ⟨fun a T hT => absurd hT (by simp), fun t => by simp⟩
  have hstep : ∀ (s : TimerClock) l, s.AllInRange → ((s.perform l).AllInRange ↔ l.InRange s) :=
    fun s l h => inRange_perform h l
  simp only [onTime_iff]
  exact foldl_invariant_iff hstep hempty steps

/-- A timer is started with the longest interval there is, when the clock reads 5000000. -/
def longestInterval : List TimerClock.Step :=
  [.construct 7 (some 0), .call 7 (.startWith Int64.maxValue 5000000)]

/-- **A long interval ends in the past**: the deadline is a millisecond before the reading of the
clock, and the entry is taken at once. -/
theorem longest_interval_due : ¬(TimerClock.run longestInterval).OnTime ∧
    ((TimerClock.run longestInterval).timers 7).map (·.deadline.count) = some 4000000 ∧
    (takeDueTimers 5000000 ((TimerClock.run longestInterval).entries 0)).1.map (·.timer) = [7] := by
  refine ⟨fun h => ?_, by decide +kernel, by decide +kernel⟩
  have htimer := h.deadlines 7 _ rfl
  exact absurd htimer.1 (by decide +kernel)

end SimplyNode
