import SimplyNode.Undisturbed

/-!
# The Generation Law of a Timer

Every `start`, every `stop` and every emission ends a generation of the timer, so that an entry of
an older one is ignored. `dispatchTimeout` decides under `m_mutex` and emits afterwards; here it may
be called with any generation at all.

Each generation is emitted at most once. The other two parts of the law speak about the moment in
which an emission begins: the timer has been started since it was last stopped, or last emitted as a
single-shot timer, and a single-shot timer is not active any more. Both hold when no other call on
the timer comes between the decision and the emission. One can come between them: a loop that
dispatches a stale entry of a timer that has moved away is not the timer's owner, and the owner may
apply a `stop` in the meantime.

## Main results

* `Lawful.step`: what an undisturbed step keeps.
* `emissions_follow_starts`: the law, for runs whose calls on a timer do not overlap.
* `emitted_after_stop`: a stopped timer emits.
-/

open Transition

namespace SimplyNode

/-- What an event says about whether the timer runs: a `start` turns it on, a `stop` and the
emission of a single-shot timer turn it off. -/
def TimerEvent.switches (a : Addr) : TimerEvent → Option Bool
  | .applied b .start | .applied b (.startWith _) => if b = a then some true else none
  | .applied b .stop => if b = a then some false else none
  | .emitted b _ true _ => if b = a then some false else none
  | _ => none

/-- The timer of an event. -/
def TimerEvent.timer : TimerEvent → Addr
  | .called a _ | .applied a _ | .emitted a _ _ _ => a

/-- An event does not turn another timer on or off. -/
theorem TimerEvent.switches_of_ne {v : TimerEvent} {b : Addr} (h : v.timer ≠ b) :
    v.switches b = none := by
  cases v with
  | called a c => rfl
  | applied a c =>
      cases c with
      | start | startWith | stop => exact if_neg h
      | setInterval | setSingleShot => rfl
  | emitted a f w c =>
      cases w with
      | true => exact if_neg h
      | false => rfl

/-- What the events, the latest first, say last about whether the timer runs. -/
def lastSwitch (a : Addr) (log : List TimerEvent) : Option Bool :=
  log.findSome? (·.switches a)

/-- What holds of an event and the events before it. An emission is the first one for its
generation, the timer was started and neither stopped nor emitted as a single-shot timer since, and
a single-shot timer is not active any more. -/
def TimerEvent.Lawful (earlier : List TimerEvent) : TimerEvent → Prop
  | .emitted a f singleShot active =>
      (∀ b c, .emitted a f b c ∉ earlier) ∧ lastSwitch a earlier = some true ∧
        (singleShot = true → active = false)
  | _ => True

/-- **The generation law**: every event is lawful. -/
def GenerationLaw (log : List TimerEvent) : Prop :=
  ∀ later v earlier, log = later ++ v :: earlier → v.Lawful earlier

theorem generationLaw_cons {v : TimerEvent} {log : List TimerEvent} (hv : v.Lawful log)
    (h : GenerationLaw log) : GenerationLaw (v :: log) := by
  intro later w earlier heq
  cases later with
  | nil =>
      obtain ⟨rfl, rfl⟩ := List.cons.inj heq
      exact hv
  | cons u later => exact h later w earlier (List.cons.inj heq).2

theorem lastSwitch_cons_of_none {v : TimerEvent} {a : Addr} {log : List TimerEvent}
    (h : v.switches a = none) : lastSwitch a (v :: log) = lastSwitch a log := by
  rw [lastSwitch, List.findSome?_cons, h]
  rfl

theorem lastSwitch_cons_of_some {v : TimerEvent} {a : Addr} {b : Bool} {log : List TimerEvent}
    (h : v.switches a = some b) : lastSwitch a (v :: log) = some b := by
  rw [lastSwitch, List.findSome?_cons, h]

namespace TimerRun

variable {s s₀ s' : TimerRun} {e e' : ExecutorId} {a b : Addr} {g f : ℕ} {T : OwnedTimer}
  {T' : Option OwnedTimer} {k : TimerWork} {v : Option TimerEvent} {i : Bool}
  {l : TimerStep} {L : ExecutorId → Addr → ℕ → Prop}

/-- An emission for the generation may begin. -/
def MayEmit (s : TimerRun) (a : Addr) (f : ℕ) : Prop :=
  lastSwitch a s.log = some true ∧ ∀ b c, .emitted a f b c ∉ s.log

/-- What an executor is going to emit may be emitted. -/
def EmitOk (s : TimerRun) : TimerWork → Prop
  | .rearm a _ _ f => s.MayEmit a f
  | .emit a f singleShot => s.MayEmit a f ∧
      ∀ T, s.timers a = some T → singleShot = true → T.state.active = false
  | _ => True

/-- **The invariant**: the law holds so far, emissions were for generations that have ended, an
active timer was started last, and what is about to be emitted may be. -/
structure Lawful (s : TimerRun) : Prop where
  law : GenerationLaw s.log
  older : ∀ a f b c, .emitted a f b c ∈ s.log → ∀ T, s.timers a = some T →
    f < T.state.generation
  started : ∀ a T, s.timers a = some T → T.state.active = true →
    lastSwitch a s.log = some true
  pending : ∀ e, s.EmitOk (s.doing e)

/-- What is about to be emitted may still be when only events of other timers were observed, and the
timer is as it was. -/
theorem EmitOk.mono (h : s.EmitOk k) (ht : ∀ a, k.timer? = some a → s'.timers a = s.timers a)
    (hs : ∀ a, k.timer? = some a → lastSwitch a s'.log = lastSwitch a s.log)
    (hm : ∀ a, k.timer? = some a → ∀ f b c, .emitted a f b c ∈ s'.log →
      .emitted a f b c ∈ s.log) : s'.EmitOk k := by
  cases k with
  | rearm a d g f =>
      exact ⟨(hs a rfl).trans h.1, fun b c hx => h.2 b c (hm a rfl f b c hx)⟩
  | emit a f w =>
      refine ⟨⟨(hs a rfl).trans h.1.1, fun b c hx => h.1.2 b c (hm a rfl f b c hx)⟩, ?_⟩
      rw [ht a rfl]
      exact h.2
  | idle | arm | disarm | leave | enter | destroy => trivial

/-- Passing entries on emits nothing. -/
theorem Lawful.flows (h : s.Lawful) (hf : Flows s s' L) : s'.Lawful := by
  have hmem : ∀ a f b c, .emitted a f b c ∈ s'.log → .emitted a f b c ∈ s.log := by
    intro a f b c hx
    rcases hf.log with hl | ⟨a', c', hl⟩
    · exact hl ▸ hx
    · rw [hl] at hx
      exact (List.mem_cons.mp hx).resolve_left (by simp)
  have hlast : ∀ a, lastSwitch a s'.log = lastSwitch a s.log := by
    intro a
    rcases hf.log with hl | ⟨a', c', hl⟩
    · rw [hl]
    · rw [hl]
      exact lastSwitch_cons_of_none rfl
  constructor
  · rcases hf.log with hl | ⟨a', c', hl⟩
    · rw [hl]
      exact h.law
    · rw [hl]
      exact generationLaw_cons trivial h.law
  · intro a f b c hx T hT
    rw [hf.timers] at hT
    exact h.older a f b c (hmem a f b c hx) T hT
  · intro a T hT hact
    rw [hf.timers] at hT
    rw [hlast]
    exact h.started a T hT hact
  · intro e
    rw [hf.doing]
    exact (h.pending e).mono (fun a _ => by rw [hf.timers]) (fun a _ => hlast a)
      fun a _ f b c => hmem a f b c

/-- A part of a call is observed with its own timer. -/
theorem Part.event {w : TimerEvent} (h : Part s s' e a T T' k (some w) i) : w.timer = a := by
  cases h <;> rfl

/-- What a part of a call lets be observed is lawful. -/
theorem Part.lawful {w : TimerEvent} (h : Part s s' e a T T' k (some w) i) (hs : s.Lawful)
    (hT : s.timers a = some T) : w.Lawful s.log := by
  cases h with
  | apply c => trivial
  | emit f single hd hlt =>
      have hpend := hs.pending e
      rw [hd] at hpend
      exact ⟨hpend.1.2, hpend.1.1, fun hsingle => hpend.2 T hT hsingle⟩

/-- After a part of a call the timer, if it is active, was turned on last. -/
theorem Part.started {T₁ : OwnedTimer} (h : Part s s' e a T (some T₁) k v i) (hs : s.Lawful)
    (hT : s.timers a = some T) (hact : T₁.state.active = true) :
    lastSwitch a (v.toList ++ s.log) = some true := by
  cases h with
  | apply c hd hown harm =>
      cases c with
      | start | startWith j => exact lastSwitch_cons_of_some (if_pos rfl)
      | stop => exact absurd hact (by simp [TimerState.after, TimerState.stopped])
      | setSingleShot j =>
          exact (lastSwitch_cons_of_none rfl).trans (hs.started a T hT hact)
      | setInterval j =>
          by_cases hold : T.state.active = true
          · exact (lastSwitch_cons_of_none rfl).trans (hs.started a T hT hold)
          · simp [TimerState.after, TimerState.withInterval, hold] at hact
  | fire hd hold => exact hs.started a T hT hold
  | destroy => exact absurd hact (by simp [TimerState.stopped])
  | move | arm | rearm | disarm | leave | enter => exact hs.started a T hT hact
  | emit f single hd hlt =>
      have hpend := hs.pending e
      rw [hd] at hpend
      cases single with
      | true => exact absurd (hact.symm.trans (hpend.2 T hT rfl)) (by simp)
      | false => exact (lastSwitch_cons_of_none rfl).trans hpend.1.1

/-- What a part of a call is going to emit may be emitted. -/
theorem Part.emitOk (h : Part s s' e a T T' k v i) (hs : s.Lawful) (hT : s.timers a = some T)
    (hself : s'.timers a = T') (hlog : s'.log = v.toList ++ s.log) : s'.EmitOk k := by
  cases h with
  | apply c =>
      cases c with
      | start | startWith | stop | setSingleShot => trivial
      | setInterval j =>
          rw [TimerCall.work]
          split
          · trivial
          · trivial
  | fire hd hact =>
      have hmay : s'.MayEmit a T.state.generation := by
        rw [MayEmit, hlog]
        exact ⟨hs.started a T hT hact,
          fun b c hx => absurd (hs.older a _ b c hx T hT) (Nat.lt_irrefl _)⟩
      rw [TimerState.firing]
      split
      · rename_i hsingle
        refine ⟨hmay, fun T₁ hT₁ _ => ?_⟩
        obtain rfl := Option.some.inj (hself.symm.trans hT₁)
        exact active_fired.trans (by rw [hsingle]; rfl)
      · exact hmay
  | rearm d f hd hact hlt =>
      have hpend := hs.pending e
      rw [hd] at hpend
      refine ⟨?_, fun _ _ hsingle => absurd hsingle (by simp)⟩
      rw [MayEmit, hlog]
      exact hpend
  | destroy | move | arm | disarm | emit | leave | free => trivial
  | enter =>
      split
      · trivial
      · trivial

/-- **A part of a call keeps the law.** -/
theorem Lawful.turn (h : s.Lawful) (hf : Flows s s₀ L) (hfree : s.Free e a)
    (ht : Turn s₀ s' e a T T' k) (hp : Part s s' e a T T' k v i)
    (hlog : s'.log = v.toList ++ s.log) : s'.Lawful := by
  have hold : s.timers a = some T := (congrFun hf.timers a).symm.trans ht.old
  have hself : s'.timers a = T' := by rw [ht.timers, Function.update_self]
  have hother : ∀ b, b ≠ a → s'.timers b = s.timers b := by
    intro b hb
    rw [ht.timers_ne hb, hf.timers]
  have hlast : ∀ b, b ≠ a → lastSwitch b s'.log = lastSwitch b s.log := by
    intro b hb
    rw [hlog]
    cases v with
    | none => rfl
    | some w =>
        exact lastSwitch_cons_of_none
          (TimerEvent.switches_of_ne fun hw => hb (hw.symm.trans hp.event))
  have hmem : ∀ b, b ≠ a → ∀ f c d, .emitted b f c d ∈ s'.log → .emitted b f c d ∈ s.log := by
    intro b hb f c d hx
    rw [hlog] at hx
    rcases List.mem_append.mp hx with hx | hx
    · obtain rfl := Option.mem_toList.mp hx
      exact absurd hp.event hb
    · exact hx
  constructor
  · rw [hlog]
    cases v with
    | none => exact h.law
    | some w => exact generationLaw_cons (hp.lawful h hold) h.law
  · intro b f c d hx T₁ hT₁
    by_cases hb : b = a
    · subst hb
      obtain rfl := hself.symm.trans hT₁
      rw [hlog] at hx
      rcases List.mem_append.mp hx with hx | hx
      · obtain rfl := Option.mem_toList.mp hx
        cases hp with
        | emit _ _ _ hlt => exact hlt
      · exact Nat.lt_of_lt_of_le (h.older b f c d hx T hold) hp.generation
    · exact h.older b f c d (hmem b hb f c d hx) T₁ ((hother b hb).symm.trans hT₁)
  · intro b T₁ hT₁ hact
    by_cases hb : b = a
    · subst hb
      obtain rfl := hself.symm.trans hT₁
      rw [hlog]
      exact hp.started h hold hact
    · rw [hlast b hb]
      exact h.started b T₁ ((hother b hb).symm.trans hT₁) hact
  · intro e'
    rw [ht.doing]
    by_cases he : e' = e
    · rw [he, Function.update_self]
      exact hp.emitOk h hold hself hlog
    · rw [Function.update_of_ne he, hf.doing]
      have hne : ∀ b, (s.doing e').timer? = some b → b ≠ a := by
        rintro b hb rfl
        exact hfree e' he hb
      exact (h.pending e').mono (fun b hb => hother b (hne b hb)) (fun b hb => hlast b (hne b hb))
        fun b hb => hmem b (hne b hb)

/-! ### Runs with any call of `dispatchTimeout` -/

/-- The steps of a run, and calls of `dispatchTimeout` by any executor for any generation. -/
inductive EmissionStep
  | step (l : TimerStep)
  | dispatchTimeout (e : ExecutorId) (a : Addr) (generation : ℕ)
  deriving DecidableEq

/-- One step of such a run. -/
inductive AnyStep : TimerRun → EmissionStep → TimerRun → Prop
  | step {s s' : TimerRun} {l : TimerStep} : Step s l s' → AnyStep s (.step l) s'
  | dispatchTimeout {s : TimerRun} {e : ExecutorId} {a : Addr} {g : ℕ} {T : OwnedTimer} :
      s.doing e = .idle → s.timers a = some T →
      AnyStep s (.dispatchTimeout e a g) (s.dispatch e a g T)

/-- The condition on a step: no call on a timer begins while an executor is in the middle of another
one. -/
def Apart (s : TimerRun) : EmissionStep → Prop
  | .step l => s.Undisturbed l
  | .dispatchTimeout _ a _ => ∀ e, (s.doing e).timer? ≠ some a

/-- **The step lemma.** -/
theorem Lawful.step {l : EmissionStep} (hi : s.Inv) (h : s.Lawful) (hok : s.Apart l)
    (hst : AnyStep s l s') : s'.Inv ∧ s'.Lawful := by
  cases hst with
  | step hst =>
      refine ⟨hi.step hok hst, ?_⟩
      cases hst.kinds hi hok with
      | passes L hf => exact h.flows hf
      | works s₀ L e a T T' k v i hf hL hent hl hfree ht hp hlog =>
          exact h.turn hf hfree ht hp hlog
  | @dispatchTimeout e a g T hd hT =>
      rw [dispatch]
      split
      · rename_i hcur
        simp only [Bool.and_eq_true, beq_iff_eq] at hcur
        have hflow : Flows s s fun _ _ _ => False :=
          .of_iff rfl rfl rfl rfl rfl (Or.inl rfl) (fun _ _ _ => Iff.rfl) fun _ _ _ => Iff.rfl
        have hfree : s.Free e a := fun e' _ => hok e'
        have ht := Turn.change (e := e) hi.booked hT { T with state := T.state.fired s.now }
          (T.state.firing a s.now)
        have hp : Part s (s.change e a { T with state := T.state.fired s.now }
            (T.state.firing a s.now)) e a T _ _ _ _ := .fire hd hcur.1
        exact ⟨hi.turn hflow hfree ht hp, h.turn hflow hfree ht hp rfl⟩
      · exact ⟨hi, h⟩

/-- Unused timers have emitted nothing. -/
theorem Unused.lawful (h : s.Unused) : s.Lawful where
  law later v earlier heq := by
    rw [h.log] at heq
    exact absurd heq (by simp)
  older a f b c hx := by
    rw [h.log] at hx
    exact absurd hx List.not_mem_nil
  started a T hT hact := absurd (hact.symm.trans (h.inactive a T hT)) (by simp)
  pending e := by
    rw [h.doing]
    trivial

/-- **The generation law** holds in runs whose calls on a timer do not overlap: of each generation
at most one emission begins, and only after a `start` that no `stop` and no emission as a
single-shot timer has followed; a single-shot timer is not active when its emission begins. -/
theorem emissions_follow_starts {s s' : TimerRun} {ls : List EmissionStep} (hs : s.Unused)
    (hrun : Run AnyStep Apart s ls s') : GenerationLaw s'.log := by
  have hinv : s'.Inv ∧ s'.Lawful := by
    refine Run.invariant (I := fun s => s.Inv ∧ s.Lawful) ?_ hrun ⟨hs.inv, hs.lawful⟩
    intro s l s' h hok hst
    exact Lawful.step h.1 h.2 hok hst
  exact hinv.2.law

/-- A repeating timer of a loop is started with an interval of no length, and emits. -/
theorem started_timer_emits : ∃ s' : TimerRun, s'.log =
    [.emitted 7 1 false true, .applied 7 (.startWith 0)] ∧ GenerationLaw s'.log := by
  have hs : (start fun a => if a = 7 then some { owner := .loop 0 } else none).Unused :=
    unused_start_if rfl
  have hrun : ∃ s', Run AnyStep Apart
      (start fun a => if a = 7 then some { owner := .loop 0 } else none)
      [.step (.call (.loop 0) 7 (.startWith 0)), .step (.work (.loop 0)), .step (.take 0),
        .step (.dispatch 0), .step (.work (.loop 0)), .step (.work (.loop 0))] s' ∧
      s'.log = [.emitted 7 1 false true, .applied 7 (.startWith 0)] := by
    exact ⟨_, .cons (undisturbed_of_idle fun _ => rfl) (.step (.call rfl rfl rfl))
      (.cons undisturbed_work (.step (.work rfl)) (.cons (fun _ h => h.elim) (.step (.take rfl))
      (.cons (undisturbed_of_idle (idle_update_update (.loop 0) _)) (.step (.dispatch rfl rfl rfl))
      (.cons undisturbed_work (.step (.work rfl)) (.cons undisturbed_work (.step (.work rfl))
      (.nil _)))))), rfl⟩
  obtain ⟨s', hrun, hlog⟩ := hrun
  exact ⟨s', hlog, emissions_follow_starts hs hrun⟩

/-- Loop 0 has taken the entries of its timers 8 and 7. The slot of timer 8 moves timer 7 to loop 1;
loop 0 dispatches timer 7 all the same, and before it emits, loop 1 applies a `stop`. -/
def stopBeforeEmission : List EmissionStep :=
  List.map .step [.call (.loop 0) 8 (.startWith 0), .work (.loop 0),
    .call (.loop 0) 7 (.startWith 0), .work (.loop 0),
    .take 0, .dispatch 0, .work (.loop 0), .work (.loop 0),
    .move (.loop 0) 7 (.loop 1), .work (.loop 0), .work (.loop 0), .work (.loop 0),
    .dispatch 0,
    .call (.loop 1) 7 .stop, .work (.loop 1),
    .work (.loop 0), .work (.loop 0)]

/-- **A stopped timer emits**: the latest event is an emission, the one before it is a `stop`. -/
theorem emitted_after_stop : ∃ s s' : TimerRun, ∃ earlier, s.Unused ∧
    Reaches AnyStep s stopBeforeEmission s' ∧
    s'.log = .emitted 7 1 false false :: .applied 7 .stop :: earlier ∧
    ¬ GenerationLaw s'.log := by
  have hs : (start fun a => if a = 7 ∨ a = 8 then some { owner := .loop 0 } else none).Unused :=
    unused_start_if rfl
  have hrun : ∃ s', Reaches AnyStep
      (start fun a => if a = 7 ∨ a = 8 then some { owner := .loop 0 } else none)
      stopBeforeEmission s' ∧
      s'.log = [.emitted 7 1 false false, .applied 7 .stop, .emitted 8 1 false true,
        .applied 7 (.startWith 0), .applied 8 (.startWith 0)] := by
    exact ⟨_, .cons trivial (.step (.call rfl rfl rfl)) (.cons trivial (.step (.work rfl))
      (.cons trivial (.step (.call rfl rfl rfl)) (.cons trivial (.step (.work rfl))
      (.cons trivial (.step (.take rfl)) (.cons trivial (.step (.dispatch rfl rfl rfl))
      (.cons trivial (.step (.work rfl)) (.cons trivial (.step (.work rfl))
      (.cons trivial (.step (.move rfl rfl rfl (by decide))) (.cons trivial (.step (.work rfl))
      (.cons trivial (.step (.work rfl)) (.cons trivial (.step (.work rfl))
      (.cons trivial (.step (.dispatch rfl rfl rfl)) (.cons trivial (.step (.call rfl rfl rfl))
      (.cons trivial (.step (.work rfl)) (.cons trivial (.step (.work rfl))
      (.cons trivial (.step (.work rfl)) (.nil _))))))))))))))))), rfl⟩
  obtain ⟨s', hrun, hlog⟩ := hrun
  refine ⟨_, s', _, hs, hrun, hlog, fun hlaw => ?_⟩
  have hswitch := (hlaw [] _ _ hlog).2.1
  exact absurd hswitch (by decide)

end TimerRun

end SimplyNode
