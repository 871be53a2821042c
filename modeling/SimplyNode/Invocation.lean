import Mathlib.Data.List.Pairwise
import Mathlib.Logic.Function.Basic
import SimplyNode.Lib.Transition

/-!
# Calls on the Thread of the Owner

`invokeOnOwnerThreadAndWait` (`UdpSocket.cpp`), by which `bind` and the calls for multicast groups
are made from another thread. A call posts a task to the executor of the socket, which runs its work
in order, and waits until the task has started, for two seconds at most. Then it waits for the
result, or it abandons the task. The state of a call is shared with its task and behind a mutex.

Any number of threads make calls, and the owner has other work for the socket. A section of a mutex
is one step, and the steps come in any order. That the two seconds are over may come at any time.

## Main results

* `Invocations.calls_linearized`: **the calls take effect one after the other**, in the order in
  which they were made, each with the result that its caller is told. A call that is given up has
  none.
* `Invocations.final`: what a caller has been told stays so.
-/

open Transition

namespace SimplyNode

universe u

/-- Where the thread that has made a call is. -/
inductive Caller
  /-- In the call of `wait_for`. -/
  | waits
  /-- In the second wait. -/
  | waitsForResult
  | returned (result : Bool)
  deriving DecidableEq

/-- The `State` of a call, with the thread that has made it. -/
structure Invocation where
  started : Bool := false
  done : Bool := false
  abandoned : Bool := false
  result : Bool := false
  caller : Caller := .waits
  deriving DecidableEq

/-- Where the owner is in the task of a call. -/
inductive TaskStage
  /-- Behind the first section of the mutex. -/
  | started (call : ℕ)
  /-- Behind the call of `fn`. -/
  | ran (call : ℕ) (result : Bool)
  deriving DecidableEq

/-- What has been done to the socket. -/
inductive Effect (σ : Type u)
  | call (call : ℕ) (result : Bool)
  | work (f : σ → σ)

/-- The calls on one socket and the executor that owns it, with all that has been done to the
socket. -/
structure Invocations (σ : Type u) where
  socket : σ
  /-- How many calls have been made. -/
  invoked : ℕ := 0
  calls : ℕ → Invocation := fun _ => {}
  tasks : List ℕ := []
  running : Option TaskStage := none
  history : List (Effect σ) := []

/-- The steps of the threads and of the owner. -/
inductive InvocationEvent (σ : Type u)
  | invokes
  | timesOut (call : ℕ)
  | sees (call : ℕ)
  | returns (call : ℕ)
  /-- The owner takes the next task. -/
  | starts
  | runs
  | finishes
  /-- The owner does something else. -/
  | works (f : σ → σ)
  /-- The executor comes to its end and drops its tasks. -/
  | drops

namespace Invocations

variable {σ : Type u} (fn : ℕ → σ → σ × Bool) (w : Invocations σ)

/-- The call is changed. -/
def setCall (i : ℕ) (call : Invocation) : Invocations σ :=
  { w with calls := Function.update w.calls i call }

/-- What an event does, if it can happen. The function of each call is given. -/
def step : InvocationEvent σ → Option (Invocations σ)
  | .invokes =>
      some { w with
        invoked := w.invoked + 1
        calls := Function.update w.calls w.invoked {}
        tasks := w.tasks ++ [w.invoked] }
  | .timesOut i =>
      let call := w.calls i
      if i < w.invoked ∧ call.caller = .waits ∧ ¬(call.started ∨ call.done) then
        some (w.setCall i { call with abandoned := true, caller := .returned false })
      else none
  | .sees i =>
      let call := w.calls i
      if i < w.invoked ∧ call.caller = .waits ∧ (call.started ∨ call.done) then
        some (w.setCall i { call with caller := .waitsForResult })
      else none
  | .returns i =>
      let call := w.calls i
      if i < w.invoked ∧ call.caller = .waitsForResult ∧ call.done then
        some (w.setCall i { call with caller := .returned call.result })
      else none
  | .starts =>
      match w.running, w.tasks with
      | none, i :: tasks =>
          if (w.calls i).abandoned then some { w with tasks := tasks }
          else
            some { w.setCall i { w.calls i with started := true } with
              tasks := tasks, running := some (.started i) }
      | _, _ => none
  | .runs =>
      match w.running with
      | some (.started i) =>
          let (socket, result) := fn i w.socket
          some { w with
            socket := socket
            running := some (.ran i result)
            history := w.history ++ [.call i result] }
      | _ => none
  | .finishes =>
      match w.running with
      | some (.ran i result) =>
          some { w.setCall i { w.calls i with result := result, done := true } with
            running := none }
      | _ => none
  | .works f =>
      if w.running = none then
        some { w with socket := f w.socket, history := w.history ++ [.work f] }
      else none
  | .drops => if w.running = none then some { w with tasks := [] } else none

/-- The steps of the calls of given functions. -/
def Step (w : Invocations σ) (e : InvocationEvent σ) (next : Invocations σ) : Prop :=
  w.step fn e = some next

/-! ### What has been done -/

/-- **A history of the socket alone**: one effect after the other. -/
inductive Replays (s₀ : σ) : List (Effect σ) → σ → Prop
  | nil : Replays s₀ [] s₀
  | call {es : List (Effect σ)} {s : σ} (i : ℕ) (h : Replays s₀ es s) :
      Replays s₀ (es ++ [.call i (fn i s).2]) (fn i s).1
  | work {es : List (Effect σ)} {s : σ} (f : σ → σ) (h : Replays s₀ es s) :
      Replays s₀ (es ++ [.work f]) (f s)

/-- The call of an effect. -/
def Effect.invocation : Effect σ → Option ℕ
  | .call i _ => some i
  | .work _ => none

/-- The calls that have taken effect. -/
def applied : List ℕ := w.history.filterMap Effect.invocation

/-- The task that has started and not called its function yet. -/
def begun : List ℕ :=
  match w.running with
  | some (.started i) => [i]
  | _ => []

/-- A call took effect with this result. -/
def Applied (i : ℕ) (result : Bool) : Prop := Effect.call i result ∈ w.history

/-- **What holds of the calls at any time.** -/
structure Sound (s₀ : σ) (w : Invocations σ) : Prop where
  replays : Replays fn s₀ w.history w.socket
  /-- The calls take effect in their order, and those that wait are behind them. -/
  order : (w.applied ++ (w.begun ++ w.tasks)).Pairwise (· < ·)
  known : ∀ i ∈ w.applied ++ (w.begun ++ w.tasks), i < w.invoked
  started : ∀ i < w.invoked, (w.calls i).started = true ↔ i ∈ w.applied ++ w.begun
  abandoned : ∀ i < w.invoked, (w.calls i).abandoned = true → (w.calls i).started = false
  done : ∀ i < w.invoked, (w.calls i).done = true → w.Applied i (w.calls i).result
  ran : ∀ i result, w.running = some (.ran i result) →
    w.Applied i result ∧ (w.calls i).done = false
  finishes : ∀ i < w.invoked, (w.calls i).started = true →
    (w.calls i).done = true ∨ w.running = some (.started i) ∨
      ∃ result, w.running = some (.ran i result)
  waits : ∀ i < w.invoked, (w.calls i).caller = .waitsForResult → (w.calls i).started = true
  returned : ∀ i < w.invoked, ∀ result, (w.calls i).caller = .returned result →
    (w.calls i).abandoned = true ∧ result = false ∨
      (w.calls i).done = true ∧ result = (w.calls i).result

variable {fn} {w} {next : Invocations σ} {s₀ : σ}

theorem sound_initial (s₀ : σ) : Sound fn s₀ { socket := s₀ } where
  replays := .nil
  order := .nil
  known i hi := by cases hi
  started i hi := absurd hi (Nat.not_lt_zero i)
  abandoned i hi := absurd hi (Nat.not_lt_zero i)
  done i hi := absurd hi (Nat.not_lt_zero i)
  ran i result hran := by cases hran
  finishes i hi := absurd hi (Nat.not_lt_zero i)
  waits i hi := absurd hi (Nat.not_lt_zero i)
  returned i hi := absurd hi (Nat.not_lt_zero i)

/-- A call that is made. -/
theorem Sound.invokes (h : Sound fn s₀ w) :
    Sound fn s₀ { w with
      invoked := w.invoked + 1
      calls := Function.update w.calls w.invoked {}
      tasks := w.tasks ++ [w.invoked] } := by
  have hold : ∀ i < w.invoked, Function.update w.calls w.invoked {} i = w.calls i :=
    fun i hi => Function.update_of_ne (Nat.ne_of_lt hi) _ _
  have hnew : Function.update w.calls w.invoked {} w.invoked = {} := Function.update_self ..
  have hsplit : ∀ i < w.invoked + 1, i < w.invoked ∨ i = w.invoked := fun i hi => by omega
  have hran : ∀ i result, w.running = some (.ran i result) →
      w.Applied i result ∧ (Function.update w.calls w.invoked {} i).done = false := by
    intro i result hrunning
    obtain ⟨happlied, hdone⟩ := h.ran i result hrunning
    by_cases hi : i = w.invoked
    · rw [hi, hnew]
      exact ⟨hi ▸ happlied, rfl⟩
    · rw [Function.update_of_ne hi]
      exact ⟨happlied, hdone⟩
  refine ⟨h.replays, ?_, ?_, ?_, ?_, ?_, hran, ?_, ?_, ?_⟩
  · change (w.applied ++ (w.begun ++ (w.tasks ++ [w.invoked]))).Pairwise (· < ·)
    rw [← List.append_assoc w.begun, ← List.append_assoc, List.pairwise_append]
    refine ⟨h.order, List.pairwise_singleton _ _, fun i hi j hj => ?_⟩
    rw [List.mem_singleton.mp hj]
    exact h.known i hi
  · intro i hi
    change i ∈ w.applied ++ (w.begun ++ (w.tasks ++ [w.invoked])) at hi
    rw [← List.append_assoc w.begun, ← List.append_assoc, List.mem_append] at hi
    rcases hi with hi | hi
    · exact Nat.lt_succ_of_lt (h.known i hi)
    · rw [List.mem_singleton.mp hi]
      exact Nat.lt_succ_self _
  · intro i hi
    rcases hsplit i hi with hlt | rfl
    · dsimp only
      rw [hold i hlt]
      exact h.started i hlt
    · dsimp only
      rw [hnew]
      refine iff_of_false Bool.false_ne_true fun hmem => ?_
      have hlt := h.known w.invoked (by
        rw [← List.append_assoc]
        exact List.mem_append_left _ hmem)
      exact Nat.lt_irrefl _ hlt
  all_goals
    intro i hi
    rcases hsplit i hi with hlt | rfl
  · dsimp only
    rw [hold i hlt]
    exact h.abandoned i hlt
  · dsimp only
    rw [hnew]
    exact fun _ => rfl
  · dsimp only
    rw [hold i hlt]
    exact h.done i hlt
  · dsimp only
    rw [hnew]
    exact fun hdone => absurd hdone Bool.false_ne_true
  · dsimp only
    rw [hold i hlt]
    exact h.finishes i hlt
  · dsimp only
    rw [hnew]
    exact fun hstarted => absurd hstarted Bool.false_ne_true
  · dsimp only
    rw [hold i hlt]
    exact h.waits i hlt
  · dsimp only
    rw [hnew]
    exact fun hcaller => by cases hcaller
  · dsimp only
    rw [hold i hlt]
    exact h.returned i hlt
  · dsimp only
    rw [hnew]
    exact fun result hcaller => by cases hcaller

/-- The thread of a call goes on, and its task does not notice. -/
theorem Sound.calls (h : Sound fn s₀ w) {i : ℕ} {call : Invocation}
    (hstarted : call.started = (w.calls i).started) (hdone : call.done = (w.calls i).done)
    (hresult : call.result = (w.calls i).result)
    (habandoned : call.abandoned = true → call.started = false)
    (hwaits : call.caller = .waitsForResult → call.started = true)
    (hreturned : ∀ result, call.caller = .returned result →
      call.abandoned = true ∧ result = false ∨ call.done = true ∧ result = call.result) :
    Sound fn s₀ (w.setCall i call) := by
  have hself : Function.update w.calls i call i = call := Function.update_self ..
  have hother : ∀ j, j ≠ i → Function.update w.calls i call j = w.calls j :=
    fun j hj => Function.update_of_ne hj _ _
  have hran : ∀ j result, w.running = some (.ran j result) →
      w.Applied j result ∧ (Function.update w.calls i call j).done = false := by
    intro j result hrunning
    obtain ⟨happlied, hnot⟩ := h.ran j result hrunning
    by_cases hji : j = i
    · subst hji
      rw [hself, hdone]
      exact ⟨happlied, hnot⟩
    · rw [hother j hji]
      exact ⟨happlied, hnot⟩
  refine ⟨h.replays, h.order, h.known, ?_, ?_, ?_, hran, ?_, ?_, ?_⟩
  all_goals
    intro j hj
    change j < w.invoked at hj
    dsimp only [setCall]
    by_cases hji : j = i
  · subst hji
    rw [hself, hstarted]
    exact h.started j hj
  · rw [hother j hji]
    exact h.started j hj
  · subst hji
    rw [hself]
    exact habandoned
  · rw [hother j hji]
    exact h.abandoned j hj
  · subst hji
    rw [hself, hdone, hresult]
    exact h.done j hj
  · rw [hother j hji]
    exact h.done j hj
  · subst hji
    rw [hself, hdone, hstarted]
    exact h.finishes j hj
  · rw [hother j hji]
    exact h.finishes j hj
  · subst hji
    rw [hself]
    exact hwaits
  · rw [hother j hji]
    exact h.waits j hj
  · subst hji
    rw [hself]
    exact hreturned
  · rw [hother j hji]
    exact h.returned j hj

/-- The owner takes the task of a call that has been abandoned. -/
theorem Sound.skips (h : Sound fn s₀ w) {i : ℕ} {tasks : List ℕ} (htasks : w.tasks = i :: tasks) :
    Sound fn s₀ { w with tasks := tasks } := by
  have hsub : (w.applied ++ (w.begun ++ tasks)).Sublist (w.applied ++ (w.begun ++ w.tasks)) := by
    rw [htasks]
    exact ((List.sublist_cons_self i tasks).append_left _).append_left _
  exact
    { h with
      order := h.order.sublist hsub
      known := fun j hj => h.known j (hsub.subset hj) }

/-- The task of a call starts. -/
theorem Sound.starts (h : Sound fn s₀ w) {i : ℕ} {tasks : List ℕ} (hidle : w.running = none)
    (htasks : w.tasks = i :: tasks) (hwanted : ¬(w.calls i).abandoned = true) :
    Sound fn s₀ { w.setCall i { w.calls i with started := true } with
      tasks := tasks, running := some (.started i) } := by
  have hbegun : w.begun = [] := by rw [begun, hidle]
  have horder := h.order
  have hknown := h.known
  have hstarted := h.started
  rw [hbegun, htasks, List.nil_append] at horder hknown
  rw [hbegun, List.append_nil] at hstarted
  have hi : i < w.invoked := hknown i (List.mem_append_right _ List.mem_cons_self)
  have hself : Function.update w.calls i { w.calls i with started := true } i =
      { w.calls i with started := true } := Function.update_self ..
  have hother : ∀ j, j ≠ i →
      Function.update w.calls i { w.calls i with started := true } j = w.calls j :=
    fun j hj => Function.update_of_ne hj _ _
  have hran : ∀ {j : ℕ}, w.running ≠ some (.started j) ∧
      ¬∃ result, w.running = some (.ran j result) := by
    intro j
    rw [hidle]
    exact ⟨nofun, nofun⟩
  refine ⟨h.replays, horder, hknown, ?_, ?_, ?_, nofun, ?_, ?_, ?_⟩
  all_goals
    intro j hj
    change j < w.invoked at hj
    dsimp only [setCall]
    by_cases hji : j = i
  · subst hji
    rw [hself]
    exact iff_of_true rfl (List.mem_append_right _ List.mem_cons_self)
  · rw [hother j hji, hstarted j hj]
    change _ ↔ j ∈ w.applied ++ [i]
    simp [hji]
  · subst hji
    rw [hself]
    exact fun habandoned => absurd habandoned hwanted
  · rw [hother j hji]
    exact h.abandoned j hj
  · subst hji
    rw [hself]
    exact h.done j hj
  · rw [hother j hji]
    exact h.done j hj
  · subst hji
    exact fun _ => .inr (.inl rfl)
  · rw [hother j hji]
    intro hbefore
    rcases h.finishes j hj hbefore with hdone | hrunning | hrunning
    · exact .inl hdone
    · exact absurd hrunning hran.1
    · exact absurd hrunning hran.2
  · subst hji
    rw [hself]
    exact fun _ => rfl
  · rw [hother j hji]
    exact h.waits j hj
  · subst hji
    rw [hself]
    exact h.returned j hj
  · rw [hother j hji]
    exact h.returned j hj

theorem Applied.mem {i : ℕ} {result : Bool} (h : w.Applied i result) : i ∈ w.applied :=
  List.mem_filterMap.mpr ⟨_, h, rfl⟩

/-- Something is done to the socket, and the records of what was done stay. -/
theorem Applied.append {i : ℕ} {result : Bool} (h : w.Applied i result) (es : List (Effect σ)) :
    Effect.call i result ∈ w.history ++ es := List.mem_append_left _ h

/-- The function of a call is called. -/
theorem Sound.runs (h : Sound fn s₀ w) {i : ℕ} (hrunning : w.running = some (.started i)) :
    Sound fn s₀ { w with
      socket := (fn i w.socket).1
      running := some (.ran i (fn i w.socket).2)
      history := w.history ++ [.call i (fn i w.socket).2] } := by
  have hbegun : w.begun = [i] := by rw [begun, hrunning]
  have happlied : (w.history ++ [Effect.call i (fn i w.socket).2]).filterMap Effect.invocation =
      w.applied ++ w.begun := by
    rw [List.filterMap_append, hbegun]
    rfl
  have hi : i < w.invoked := by
    refine h.known i (List.mem_append_right _ ?_)
    rw [hbegun]
    exact List.mem_cons_self
  have hdone : (w.calls i).done = false := by
    cases hdone : (w.calls i).done with
    | false => rfl
    | true =>
        have hmem := (h.done i hi hdone).mem
        have hlt := (List.pairwise_append.mp h.order).2.2 i hmem i
          (by rw [hbegun]; exact List.mem_cons_self)
        exact absurd hlt (Nat.lt_irrefl i)
  refine ⟨h.replays.call i, ?_, ?_, ?_, h.abandoned, ?_, ?_, ?_, h.waits, h.returned⟩
  · change (_ ++ ([] ++ w.tasks)).Pairwise _
    rw [applied, happlied, List.nil_append, List.append_assoc]
    exact h.order
  · intro j hj
    change j ∈ _ ++ ([] ++ w.tasks) at hj
    rw [applied, happlied, List.nil_append, List.append_assoc] at hj
    exact h.known j hj
  · intro j hj
    change _ ↔ j ∈ _ ++ []
    rw [applied, happlied, List.append_nil]
    exact h.started j hj
  · exact fun j hj hdone => (h.done j hj hdone).append _
  · intro j result hran
    obtain ⟨rfl, rfl⟩ := TaskStage.ran.inj (Option.some.inj hran)
    exact ⟨List.mem_append_right _ List.mem_cons_self, hdone⟩
  · intro j hj hstarted
    rcases h.finishes j hj hstarted with hdone | hsome | ⟨result, hsome⟩
    · exact .inl hdone
    · rw [hrunning] at hsome
      obtain rfl := TaskStage.started.inj (Option.some.inj hsome)
      exact .inr (.inr ⟨_, rfl⟩)
    · rw [hrunning] at hsome
      cases hsome

/-- The result of a call is stored. -/
theorem Sound.ends (h : Sound fn s₀ w) {i : ℕ} {result : Bool}
    (hrunning : w.running = some (.ran i result)) :
    Sound fn s₀ { w.setCall i { w.calls i with result := result, done := true } with
      running := none } := by
  have hbegun : w.begun = [] := by rw [begun, hrunning]
  have hself : Function.update w.calls i { w.calls i with result := result, done := true } i =
      { w.calls i with result := result, done := true } := Function.update_self ..
  have hother : ∀ j, j ≠ i → Function.update w.calls i
      { w.calls i with result := result, done := true } j = w.calls j :=
    fun j hj => Function.update_of_ne hj _ _
  obtain ⟨happlied, hnot⟩ := h.ran i result hrunning
  have horder := h.order
  have hknown := h.known
  have hstarted := h.started
  rw [hbegun] at horder hknown hstarted
  have hi : i < w.invoked := by
    exact hknown i (List.mem_append_left _ happlied.mem)
  refine ⟨h.replays, horder, hknown, ?_, ?_, ?_, nofun, ?_, ?_, ?_⟩
  all_goals
    intro j hj
    change j < w.invoked at hj
    dsimp only [setCall]
    by_cases hji : j = i
  · subst hji
    rw [hself]
    exact hstarted j hj
  · rw [hother j hji]
    exact hstarted j hj
  · subst hji
    rw [hself]
    exact h.abandoned j hj
  · rw [hother j hji]
    exact h.abandoned j hj
  · subst hji
    rw [hself]
    exact fun _ => happlied
  · rw [hother j hji]
    exact h.done j hj
  · subst hji
    rw [hself]
    exact fun _ => .inl rfl
  · rw [hother j hji]
    intro hbefore
    rcases h.finishes j hj hbefore with hdone | hsome | ⟨other, hsome⟩
    · exact .inl hdone
    · rw [hrunning] at hsome
      cases hsome
    · rw [hrunning] at hsome
      exact absurd (TaskStage.ran.inj (Option.some.inj hsome)).1.symm hji
  · subst hji
    rw [hself]
    exact h.waits j hj
  · rw [hother j hji]
    exact h.waits j hj
  · subst hji
    rw [hself]
    intro told hcaller
    rcases h.returned j hj told hcaller with hgiven | ⟨hdone, -⟩
    · exact .inl hgiven
    · rw [hnot] at hdone
      cases hdone
  · rw [hother j hji]
    exact h.returned j hj

/-- The owner does something else. -/
theorem Sound.works (h : Sound fn s₀ w) (f : σ → σ) :
    Sound fn s₀ { w with socket := f w.socket, history := w.history ++ [.work f] } := by
  have happlied : (w.history ++ [Effect.work f]).filterMap Effect.invocation = w.applied := by
    rw [List.filterMap_append]
    exact List.append_nil _
  refine ⟨h.replays.work f, ?_, ?_, ?_, h.abandoned, ?_, ?_, h.finishes, h.waits, h.returned⟩
  · rw [applied, happlied]
    exact h.order
  · rw [applied, happlied]
    exact h.known
  · rw [applied, happlied]
    exact h.started
  · exact fun j hj hdone => (h.done j hj hdone).append _
  · exact fun j result hran => ⟨(h.ran j result hran).1.append _, (h.ran j result hran).2⟩

/-- The executor drops its tasks. -/
theorem Sound.drops (h : Sound fn s₀ w) : Sound fn s₀ { w with tasks := [] } := by
  have hsub : (w.applied ++ (w.begun ++ [])).Sublist (w.applied ++ (w.begun ++ w.tasks)) :=
    ((List.nil_sublist w.tasks).append_left _).append_left _
  exact
    { h with
      order := h.order.sublist hsub
      known := fun j hj => h.known j (hsub.subset hj) }

/-- **A step keeps what holds of the calls.** -/
theorem Sound.step (h : Sound fn s₀ w) {e : InvocationEvent σ} (hstep : Step fn w e next) :
    Sound fn s₀ next := by
  cases e with
  | invokes =>
      cases hstep
      exact h.invokes
  | timesOut i =>
      obtain ⟨⟨hi, hcaller, hnot⟩, heq⟩ := Option.ite_none_right_eq_some.mp hstep
      cases heq
      obtain ⟨hstarted, -⟩ := not_or.mp hnot
      refine h.calls rfl rfl rfl (fun _ => Bool.eq_false_iff.mpr hstarted) nofun ?_
      intro result hreturned
      exact .inl ⟨rfl, (Caller.returned.inj hreturned).symm⟩
  | sees i =>
      obtain ⟨⟨hi, hcaller, hsees⟩, heq⟩ := Option.ite_none_right_eq_some.mp hstep
      cases heq
      have hstarted : (w.calls i).started = true := by
        rcases hsees with hstarted | hdone
        · exact hstarted
        · exact (h.started i hi).mpr (List.mem_append_left _ (h.done i hi hdone).mem)
      exact h.calls rfl rfl rfl (h.abandoned i hi) (fun _ => hstarted) nofun
  | returns i =>
      obtain ⟨⟨hi, hcaller, hdone⟩, heq⟩ := Option.ite_none_right_eq_some.mp hstep
      cases heq
      refine h.calls rfl rfl rfl (h.abandoned i hi) nofun ?_
      intro result hreturned
      exact .inr ⟨hdone, (Caller.returned.inj hreturned).symm⟩
  | starts =>
      rw [Step, Invocations.step] at hstep
      split at hstep
      · rename_i i tasks hidle htasks
        split at hstep
        · cases hstep
          exact h.skips htasks
        · cases hstep
          exact h.starts hidle htasks ‹_›
      · cases hstep
  | runs =>
      rw [Step, Invocations.step] at hstep
      split at hstep
      · cases hstep
        exact h.runs ‹_›
      · cases hstep
  | finishes =>
      rw [Step, Invocations.step] at hstep
      split at hstep
      · cases hstep
        exact h.ends ‹_›
      · cases hstep
  | works f =>
      obtain ⟨-, heq⟩ := Option.ite_none_right_eq_some.mp hstep
      cases heq
      exact h.works f
  | drops =>
      obtain ⟨-, heq⟩ := Option.ite_none_right_eq_some.mp hstep
      cases heq
      exact h.drops

theorem Sound.of_run {es : List (InvocationEvent σ)} (h : Sound fn s₀ w)
    (hrun : Reaches (Step fn) w es next) : Sound fn s₀ next :=
  hrun.invariant (fun _ _ _ hinv _ hstep => hinv.step hstep) h

/-! ### What the callers are told -/

/-- **The calls take effect one after the other.** -/
structure Linearized (fn : ℕ → σ → σ × Bool) (s₀ : σ) (w : Invocations σ) : Prop where
  /-- The socket is as the effects make it, one after the other, each with its result. -/
  replays : Replays fn s₀ w.history w.socket
  /-- The calls take effect in the order in which they were made, each once at most. -/
  order : w.applied.Pairwise (· < ·)
  /-- A caller that has not given up is told the result of its call, which has taken effect. -/
  told : ∀ i < w.invoked, ∀ result, (w.calls i).caller = .returned result →
    (w.calls i).abandoned = false → w.Applied i result
  /-- A caller that has given up is told `false`, and its call has no effect. -/
  givenUp : ∀ i < w.invoked, ∀ result, (w.calls i).caller = .returned result →
    (w.calls i).abandoned = true → result = false ∧ i ∉ w.applied
  /-- A caller that waits for the result is told it, or its task is running. -/
  waits : ∀ i < w.invoked, (w.calls i).caller = .waitsForResult →
    (w.calls i).done = true ∨ w.running = some (.started i) ∨
      ∃ result, w.running = some (.ran i result)

/-- A call that has been given up has no effect. -/
theorem Sound.notMem_applied (h : Sound fn s₀ w) {i : ℕ} (hi : i < w.invoked)
    (habandoned : (w.calls i).abandoned = true) : i ∉ w.applied := by
  intro hmem
  have hstarted := (h.started i hi).mpr (List.mem_append_left _ hmem)
  rw [h.abandoned i hi habandoned] at hstarted
  cases hstarted

theorem Sound.linearized (h : Sound fn s₀ w) : Linearized fn s₀ w where
  replays := h.replays
  order := (List.pairwise_append.mp h.order).1
  told i hi result hcaller hkept := by
    rcases h.returned i hi result hcaller with ⟨habandoned, -⟩ | ⟨hdone, rfl⟩
    · rw [hkept] at habandoned
      cases habandoned
    · exact h.done i hi hdone
  givenUp i hi result hcaller habandoned := by
    have hnot := h.notMem_applied hi habandoned
    rcases h.returned i hi result hcaller with ⟨-, rfl⟩ | ⟨hdone, -⟩
    · exact ⟨rfl, hnot⟩
    · exact absurd (h.done i hi hdone).mem hnot
  waits i hi hcaller := h.finishes i hi (h.waits i hi hcaller)

/-- Two calls of threads that do not own the socket, of which the first one is given up. -/
def exampleEvents : List (InvocationEvent ℕ) :=
  [.invokes, .invokes, .timesOut 0, .starts, .starts, .sees 1, .runs, .finishes, .returns 1]

/-- The thread of a call has returned, and whether it had given up. -/
structure HasReturned (i : ℕ) (result abandoned : Bool) (w : Invocations σ) : Prop where
  invoked : i < w.invoked
  caller : (w.calls i).caller = .returned result
  abandoned : (w.calls i).abandoned = abandoned

theorem HasReturned.setCall {i j : ℕ} {result abandoned : Bool} {call : Invocation}
    (h : HasReturned i result abandoned w)
    (hcall : i = j → call.caller = (w.calls j).caller ∧ call.abandoned = (w.calls j).abandoned) :
    HasReturned i result abandoned (w.setCall j call) := by
  by_cases hij : i = j
  · subst hij
    have hself : (w.setCall i call).calls i = call := Function.update_self ..
    obtain ⟨hcaller, habandoned⟩ := hcall rfl
    exact ⟨h.invoked, by rw [hself, hcaller]; exact h.caller,
      by rw [hself, habandoned]; exact h.abandoned⟩
  · have hother : (w.setCall j call).calls i = w.calls i := Function.update_of_ne hij _ _
    exact ⟨h.invoked, by rw [hother]; exact h.caller, by rw [hother]; exact h.abandoned⟩

/-- Nobody changes a call that has returned, and what has been done is not undone. -/
theorem HasReturned.step {i : ℕ} {result abandoned : Bool} {e : InvocationEvent σ}
    (h : HasReturned i result abandoned w) (hstep : Step fn w e next) :
    HasReturned i result abandoned next ∧ w.history <+: next.history := by
  have hwaits : ∀ j caller, (w.calls j).caller = caller → caller ≠ .returned result → i ≠ j := by
    rintro j caller hcaller hne rfl
    exact hne (hcaller.symm.trans h.caller)
  cases e with
  | invokes =>
      cases hstep
      have hother : Function.update w.calls w.invoked {} i = w.calls i :=
        Function.update_of_ne (Nat.ne_of_lt h.invoked) _ _
      refine ⟨⟨Nat.lt_succ_of_lt h.invoked, ?_, ?_⟩, List.prefix_rfl⟩
      · dsimp only
        rw [hother]
        exact h.caller
      · dsimp only
        rw [hother]
        exact h.abandoned
  | timesOut j =>
      obtain ⟨⟨-, hcaller, -⟩, heq⟩ := Option.ite_none_right_eq_some.mp hstep
      cases heq
      exact ⟨h.setCall fun hij => absurd hij (hwaits j _ hcaller nofun), List.prefix_rfl⟩
  | sees j =>
      obtain ⟨⟨-, hcaller, -⟩, heq⟩ := Option.ite_none_right_eq_some.mp hstep
      cases heq
      exact ⟨h.setCall fun hij => absurd hij (hwaits j _ hcaller nofun), List.prefix_rfl⟩
  | returns j =>
      obtain ⟨⟨-, hcaller, -⟩, heq⟩ := Option.ite_none_right_eq_some.mp hstep
      cases heq
      exact ⟨h.setCall fun hij => absurd hij (hwaits j _ hcaller nofun), List.prefix_rfl⟩
  | starts =>
      rw [Step, Invocations.step] at hstep
      split at hstep
      · rename_i j tasks _ _
        split at hstep
        · cases hstep
          exact ⟨⟨h.invoked, h.caller, h.abandoned⟩, List.prefix_rfl⟩
        · cases hstep
          have hset : HasReturned i result abandoned
              (w.setCall j { w.calls j with started := true }) :=
            h.setCall fun _ => ⟨rfl, rfl⟩
          exact ⟨⟨hset.invoked, hset.caller, hset.abandoned⟩, List.prefix_rfl⟩
      · cases hstep
  | runs =>
      rw [Step, Invocations.step] at hstep
      split at hstep
      · cases hstep
        exact ⟨⟨h.invoked, h.caller, h.abandoned⟩, List.prefix_append _ _⟩
      · cases hstep
  | finishes =>
      rw [Step, Invocations.step] at hstep
      split at hstep
      · rename_i j told _
        cases hstep
        have hset : HasReturned i result abandoned
            (w.setCall j { w.calls j with result := told, done := true }) :=
          h.setCall fun _ => ⟨rfl, rfl⟩
        exact ⟨⟨hset.invoked, hset.caller, hset.abandoned⟩, List.prefix_rfl⟩
      · cases hstep
  | works f =>
      obtain ⟨-, heq⟩ := Option.ite_none_right_eq_some.mp hstep
      cases heq
      exact ⟨⟨h.invoked, h.caller, h.abandoned⟩, List.prefix_append _ _⟩
  | drops =>
      obtain ⟨-, heq⟩ := Option.ite_none_right_eq_some.mp hstep
      cases heq
      exact ⟨⟨h.invoked, h.caller, h.abandoned⟩, List.prefix_rfl⟩

/-- **What a caller has been told stays so.** Whatever happens behind its return, its call keeps its
place among the effects. If it has given up, its call never takes effect, though the task of it may
still be waiting. -/
theorem final {es later : List (InvocationEvent σ)} {i : ℕ} {result : Bool}
    (h : Reaches (Step fn) { socket := s₀ } es w) (hlater : Reaches (Step fn) w later next)
    (hi : i < w.invoked) (hcaller : (w.calls i).caller = .returned result) :
    (next.calls i).caller = .returned result ∧ w.history <+: next.history ∧
      (next.Applied i result ↔ w.Applied i result) ∧ (i ∉ w.applied → i ∉ next.applied) := by
  have hsound := (sound_initial s₀).of_run h
  have hsound' := hsound.of_run hlater
  have hkept : HasReturned i result (w.calls i).abandoned next ∧ w.history <+: next.history := by
    have hkeeps : ∀ u e u', HasReturned i result (w.calls i).abandoned u ∧ w.history <+: u.history →
        True → Step fn u e u' →
        HasReturned i result (w.calls i).abandoned u' ∧ w.history <+: u'.history := by
      intro u e u' hinv _ hstep
      obtain ⟨hkept, hmore⟩ := hinv.1.step hstep
      exact ⟨hkept, hinv.2.trans hmore⟩
    exact hlater.invariant hkeeps ⟨⟨hi, hcaller, rfl⟩, List.prefix_rfl⟩
  obtain ⟨⟨hi', hcaller', habandoned⟩, hhistory⟩ := hkept
  -- a call that has not taken effect was given up, so its task does not start
  have hnever : i ∉ w.applied → i ∉ next.applied := by
    intro hnot
    have hgiven : (w.calls i).abandoned = true := by
      rcases hsound.returned i hi result hcaller with ⟨hgiven, -⟩ | ⟨hdone, -⟩
      · exact hgiven
      · exact absurd (hsound.done i hi hdone).mem hnot
    exact hsound'.notMem_applied hi' (habandoned.trans hgiven)
  refine ⟨hcaller', hhistory, ⟨fun happlied => ?_, fun happlied => hhistory.subset happlied⟩,
    hnever⟩
  cases hgiven : (w.calls i).abandoned with
  | false => exact hsound.linearized.told i hi result hcaller hgiven
  | true =>
      exact absurd happlied.mem (hnever (hsound.linearized.givenUp i hi result hcaller hgiven).2)

/-- A call that has been given up, before its task has started. -/
def exampleGivenUp : Invocations ℕ where
  socket := 1
  invoked := 1
  calls := Function.update (Function.update (fun _ => {}) 0 {}) 0
    { abandoned := true, caller := .returned false }
  tasks := [0]

/-- The task of a call that has been given up runs into nothing. -/
theorem final_example : ∃ next, Reaches (Step fun i s => (s + 10 * (i + 1), true)) exampleGivenUp
    [.starts, .works (· + 5)] next ∧ next.tasks = [] ∧ 0 ∉ next.applied := by
  have hrun : Reaches (Step fun i s => (s + 10 * (i + 1), true)) { socket := 1 }
      [.invokes, .timesOut 0] exampleGivenUp := .cons trivial rfl <| .cons trivial rfl <| .nil _
  have hlater : Reaches (Step fun i s => (s + 10 * (i + 1), true)) exampleGivenUp
      [.starts, .works (· + 5)] _ := .cons trivial rfl <| .cons trivial rfl <| .nil _
  exact ⟨_, hlater, rfl, (final hrun hlater Nat.zero_lt_one rfl).2.2.2 (by decide)⟩

end Invocations

end SimplyNode
