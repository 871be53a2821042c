import Mathlib.Data.Nat.Notation

/-!
# Monitors with One Waiter

Data under a mutex, and a condition variable on which one thread waits with a predicate. The
predicate may depend on a parameter that the thread chooses when it begins to wait. Other threads
change the data and notify after they have released the mutex, so a change may have been made
whose notification is still to come.

A waiter is blocked when it has slept through no notification and none is to come. The invariant
`Alert` says that a predicate that has become true is not slept through.

## Main results

* `Alert.change`: changes that do not make the predicate true need no notification.
* `alert_signal`, `alert_notify`, `alert_await`: all other operations keep `Alert` by themselves.
* `Alert.not_of_blocked`: when the waiter is blocked, its predicate is false.
-/

/-- Data of type `σ` under a mutex, with a waiter whose predicate has a parameter of type `ω`.
`woken` says that the waiter has been notified and not evaluated its predicate since, and `signals`
counts the notifications that are to come. -/
structure Monitor (σ ω : Type*) where
  shared : σ
  waiting : Option ω := none
  woken : Bool := false
  signals : ℕ := 0

namespace Monitor

variable {σ ω : Type*} (m : Monitor σ ω) (pred : ω → σ → Bool)

/-- The data are changed under the mutex. -/
def change (f : σ → σ) : Monitor σ ω := { m with shared := f m.shared }

/-- Somebody has released the mutex and is going to notify. -/
def signal : Monitor σ ω := { m with signals := m.signals + 1 }

/-- The waiter is notified. -/
def wake : Monitor σ ω := { m with woken := m.waiting.isSome }

/-- A notification that was to come is made. -/
def notify : Monitor σ ω := { m.wake with signals := m.signals - 1 }

/-- The waiter goes on. -/
def resume : Monitor σ ω := { m with waiting := none, woken := false }

/-- The waiter evaluates its predicate, at first or again, and goes on or to sleep. -/
def await (w : ω) : Monitor σ ω :=
  if pred w m.shared then m.resume else { m with waiting := some w, woken := false }

/-- The waiter sleeps, and no notification is on its way. -/
def Blocked : Prop := m.waiting.isSome ∧ m.woken = false ∧ m.signals = 0

/-- A waiter whose predicate is true has been notified, or is going to be. -/
def Alert : Prop :=
  ∀ w, m.waiting = some w → pred w m.shared = true → m.woken = true ∨ 0 < m.signals

variable {m pred} {w : ω}

/-- Where nobody waits nobody sleeps through anything. -/
theorem alert_of_not_waiting (h : m.waiting = none) : m.Alert pred := by
  intro w hw
  exact absurd (h.symm.trans hw) (by simp)

/-- A change that does not make the predicate true. -/
theorem Alert.change (h : m.Alert pred) {f : σ → σ}
    (hf : ∀ w, m.waiting = some w → pred w (f m.shared) = true → pred w m.shared = true) :
    (m.change f).Alert pred := by
  intro w hw hp
  exact h w hw (hf w hw hp)

/-- A change that is going to be notified. -/
theorem alert_signal : m.signal.Alert pred := by
  intro w hw hp
  exact Or.inr (Nat.succ_pos _)

/-- Whoever has been woken looks again. -/
theorem alert_wake : m.wake.Alert pred := by
  intro w hw hp
  have hsome : m.waiting = some w := hw
  exact Or.inl (by simp [wake, hsome])

/-- Whoever has been notified looks again. -/
theorem alert_notify : m.notify.Alert pred := by
  intro w hw hp
  have hsome : m.waiting = some w := hw
  exact Or.inl (by simp [notify, wake, hsome])

/-- A thread waits where its condition does not hold. -/
theorem waiting_await : (m.await pred w).waiting = if pred w m.shared then none else some w := by
  rw [await]
  split
  · rfl
  · rfl

/-- Waiting leaves the shared state as it is. -/
theorem shared_await : (m.await pred w).shared = m.shared := by
  rw [await]
  split
  · rfl
  · rfl

/-- A thread that begins to wait has just looked. -/
theorem alert_await : (m.await pred w).Alert pred := by
  intro w' hw hp
  rw [waiting_await] at hw
  rw [shared_await] at hp
  split at hw
  · exact absurd hw (by simp)
  · rename_i hfalse
    obtain rfl := Option.some.inj hw
    exact absurd hp hfalse

/-- **No notification is missed**: when the waiter is blocked, its predicate is false. -/
theorem Alert.not_of_blocked (h : m.Alert pred) (hb : m.Blocked) (hw : m.waiting = some w) :
    pred w m.shared = false := by
  cases hp : pred w m.shared with
  | false => rfl
  | true =>
      rcases h w hw hp with hwoken | hsignals
      · exact absurd (hwoken.symm.trans hb.2.1) (by simp)
      · have hzero := hb.2.2
        omega

end Monitor
