import SimplyNode.Logger

/-!
# The Conservation of Log Messages

Every message that goes into the queue is accounted for: it waits in the queue, is in the hand of
the worker, or has been handed to the sinks. `flush()` compares two counters only, and `stop()`
looks at nothing when the worker is gone. The messages that either of them has to wait for are a
prefix of those that were accepted, and it is by its length alone that such a prefix is known to
be delivered.

## Main results

* `Promises`: the invariant of the calls of `flush()` and `stop()` in progress.
* `messages_conserved`: the counters add up, the messages are delivered once and in order, and a
  call returns when those it waits for have been delivered.
-/

open Transition

namespace SimplyNode

/-- What a call of `flush` waits for. -/
def CallState.target : CallState → Option (ℕ × List LogMessage)
  | flushing target seen => some (target, seen)
  | waiting target seen _ => some (target, seen)
  | _ => none

/-- What a call of `stop` waits for. -/
def CallState.drains : CallState → Option (List LogMessage)
  | ending seen => some seen
  | joining seen => some seen
  | _ => none

/-- The messages that a call waits for. -/
def CallState.awaits : CallState → Option (List LogMessage)
  | flushing _ seen => some seen
  | waiting _ seen _ => some seen
  | ending seen => some seen
  | joining seen => some seen
  | _ => none

/-- The thread returns from a call of `flush` or `stop`. -/
def LogStep.Returns (t : ThreadId) (l : LogStep) : Prop :=
  l = .stopReturns t ∨ ∃ b, l = .flushReturns t b

/-- A caller that has been woken waits for the same messages. -/
@[simp] theorem CallState.awaits_notified {c : CallState} : c.notified.awaits = c.awaits := by
  cases c with
  | _ => rfl

/-- A caller that has been woken has the same target. -/
@[simp] theorem CallState.target_notified {c : CallState} : c.notified.target = c.target := by
  cases c with
  | _ => rfl

/-- A caller that has been woken drains as much. -/
@[simp] theorem CallState.drains_notified {c : CallState} : c.notified.drains = c.drains := by
  cases c with
  | _ => rfl

namespace Logger

variable {s s' : Logger} {main t u : ThreadId} {l : LogStep}

/-- The messages that have been handed to the sinks. -/
def handed (s : Logger) : List LogMessage := s.delivered.map Prod.fst

/-- What the calls in progress wait for has been accepted, and is delivered when the worker has
come to its end. -/
structure Promises (main : ThreadId) (s : Logger) : Prop where
  flush : ∀ t target seen, (s.calls t).target = some (target, seen) →
    target = seen.length ∧ seen <+: s.accepted
  stop : ∀ seen, (s.calls main).drains = some seen → seen <+: s.accepted
  exited : s.worker = .exited → ∀ seen, (s.calls main).drains = some seen → seen <+: s.handed

/-- At the start nothing is promised. -/
theorem Promises.initial {n : ℕ} : (Logger.initial n).Promises main where
  flush _ _ _ h := absurd h (by simp [Logger.initial, CallState.target])
  stop _ h := absurd h (by simp [Logger.initial, CallState.drains])
  exited h := WorkerState.noConfusion h

/-- A step that begins no call, and after which the worker is where it was or has not exited. -/
theorem Promises.quiet (h : s.Promises main) (haccepted : s.accepted <+: s'.accepted)
    (hhanded : s.handed <+: s'.handed) (hworker : s'.worker = .exited → s.worker = .exited)
    (htarget : ∀ t p, (s'.calls t).target = some p → (s.calls t).target = some p)
    (hdrains : ∀ t p, (s'.calls t).drains = some p → (s.calls t).drains = some p) :
    s'.Promises main where
  flush t target seen ht :=
    (h.flush t target seen (htarget t _ ht)).imp_right fun hseen => hseen.trans haccepted
  stop seen ht := (h.stop seen (hdrains main seen ht)).trans haccepted
  exited hexited seen ht :=
    (h.exited (hworker hexited) seen (hdrains main seen ht)).trans hhanded

/-- A thread goes on in its call. -/
theorem calls_setCall_keeps {β : Type} {f : CallState → Option β} {c : CallState}
    (hc : f c = none ∨ f c = f (s.calls t)) (u : ThreadId) (b : β)
    (h : f ((s.setCall t c).calls u) = some b) : f (s.calls u) = some b := by
  obtain rfl | hne := eq_or_ne u t
  · rw [calls_setCall_self] at h
    rcases hc with hc | hc
    · exact absurd (hc.symm.trans h) (by simp)
    · exact hc.symm.trans h
  · rwa [s.calls_setCall_of_ne c hne] at h

/-- A call that promises nothing new keeps the promises. -/
theorem Promises.setCall (h : s.Promises main) {c : CallState}
    (htarget : c.target = none ∨ c.target = (s.calls t).target)
    (hdrains : c.drains = none ∨ c.drains = (s.calls t).drains) : (s.setCall t c).Promises main :=
  h.quiet (List.prefix_refl _) (List.prefix_refl _) id (calls_setCall_keeps htarget)
    (calls_setCall_keeps hdrains)

/-- Waking a waiter keeps the promises. -/
theorem Promises.wake (h : s.Promises main) {w : Waiter} : (s.wake w).Promises main := by
  cases w with
  | worker =>
      exact h.quiet (List.prefix_refl _) (List.prefix_refl _)
        (fun hw => absurd hw (by simp [Logger.wake])) (fun _ _ => id) fun _ _ => id
  | caller t =>
      exact h.setCall (Or.inr CallState.target_notified) (Or.inr CallState.drains_notified)

/-- So does `notify_one`, whomever it wakes. -/
theorem Promises.notifyOne (h : s.Promises main) {w : Option Waiter} :
    (s.notifyOne w).Promises main := by
  cases w with
  | none => exact h
  | some w => exact h.wake

/-- A message more keeps the promises. -/
theorem Promises.push (h : s.Promises main) {m : LogMessage} : (s.push t m).Promises main := by
  have hkeeps (c : CallState) (hc : c.target = none) (hd : c.drains = none) :
      (s.setCall t c).Promises main := h.setCall (Or.inl hc) (Or.inl hd)
  rw [Logger.push]
  split
  · have hnext := hkeeps .idle rfl rfl
    exact ⟨hnext.flush, hnext.stop, hnext.exited⟩
  · exact (hkeeps .notifying rfl rfl).quiet (List.prefix_append _ _) (List.prefix_refl _) id
      (fun _ _ => id) fun _ _ => id

/-- The worker is through with the queue: everything that was accepted has been delivered. -/
theorem Ledger.handed_of_drained (h : s.Ledger) (hhand : s.worker.hand = none)
    (hqueue : s.queue = []) : s.handed = s.accepted :=
  (Pipeline.line_of_drained (p := s.pipeline) hhand hqueue).symm.trans h.line

/-- A drain puts out what has been promised. -/
theorem Promises.drain (h : s.Promises main) (hl : s.Ledger) (hhand : s.worker.hand = none) :
    s.drain.Promises main := by
  rw [Logger.drain]
  split
  · exact h.quiet (List.prefix_refl _) (List.prefix_refl _) (fun hw => absurd hw (by simp))
      (fun _ _ => id) fun _ _ => id
  · have hall := hl.handed_of_drained hhand ‹_›
    refine ⟨fun t target seen ht => ?_, fun seen ht => ?_, fun _ seen ht => ?_⟩
    · exact h.flush t target seen (CallState.target_notified.symm.trans ht)
    · exact h.stop seen (CallState.drains_notified.symm.trans ht)
    · have hseen := h.stop seen (CallState.drains_notified.symm.trans ht)
      rw [← hall] at hseen
      exact hseen

/-- A call of `flush` asks for what has been accepted so far. -/
theorem Promises.of_flush (h : s.Promises main) (hl : s.Ledger) : (s.flush t).Promises main := by
  have hdrains := calls_setCall_keeps (s := s) (t := t) (f := CallState.drains)
    (c := .flushing s.enqueued s.accepted) (Or.inl rfl)
  refine ⟨fun u target seen hu => ?_, fun seen hu => h.stop seen (hdrains main seen hu),
    fun hexited seen hu => h.exited hexited seen (hdrains main seen hu)⟩
  obtain rfl | hne := eq_or_ne u t
  · have hself : (s.flush u).calls u = .flushing s.enqueued s.accepted := calls_setCall_self ..
    rw [hself] at hu
    obtain ⟨rfl, rfl⟩ := Prod.mk.inj (Option.some.inj hu)
    exact ⟨hl.enqueued, List.prefix_refl _⟩
  · exact h.flush u target seen ((congrArg CallState.target
      (s.calls_setCall_of_ne _ hne)).symm.trans hu)

/-- The start keeps the promises. -/
theorem Promises.start (h : s.Promises main) : s.start.Promises main := by
  rw [Logger.start]
  split
  · exact h
  · exact h.quiet (List.prefix_refl _) (List.prefix_refl _) (fun hw => absurd hw (by simp))
      (fun _ _ => id) fun _ _ => id

/-- A call of `stop` waits for what has been accepted so far, while the worker runs. -/
theorem Promises.of_stop (h : s.Promises main) (hi : s.Inv main) :
    (s.stop main).Promises main := by
  rw [Logger.stop]
  split
  · rename_i hrunning
    have htarget := calls_setCall_keeps (s := s) (t := main) (f := CallState.target)
      (c := .ending s.accepted) (Or.inl rfl)
    refine ⟨fun u target seen hu => h.flush u target seen (htarget u _ hu), fun seen hu => ?_,
      fun hexited => absurd (hi.control.exited hexited) (by simp [hrunning])⟩
    have hself : (s.setCall main (.ending s.accepted)).calls main = .ending s.accepted :=
      calls_setCall_self ..
    have hu : (CallState.ending s.accepted).drains = some seen :=
      (congrArg CallState.drains hself).symm.trans hu
    obtain rfl := Option.some.inj hu
    exact List.prefix_refl _
  · exact h

/-- The step lemma of the calls in progress. -/
theorem Promises.step (h : s.Promises main) (hi : s.Inv main) (hst : Step main s l s') :
    s'.Promises main := by
  cases hst with
  | setLevel => exact ⟨h.flush, h.stop, h.exited⟩
  | addSink => exact ⟨h.flush, h.stop, h.exited⟩
  | removeSink => exact ⟨h.flush, h.stop, h.exited⟩
  | clearSinks => exact ⟨h.flush, h.stop, h.exited⟩
  | log => exact h.setCall (Or.inl rfl) (Or.inl rfl)
  | @drawSequence t c now =>
      have hnext := h.setCall (t := t) (c := .drawn (c.message s.nextSequence now t)) (Or.inl rfl)
        (Or.inl rfl)
      exact ⟨hnext.flush, hnext.stop, hnext.exited⟩
  | push => exact h.push
  | notify => exact h.notifyOne.setCall (Or.inl rfl) (Or.inl rfl)
  | @notifyStop t seen w hcall =>
      have hnext : (s.notifyOne w).calls t = .ending seen := calls_notifyOne hcall rfl
      exact h.notifyOne.setCall (Or.inl rfl) (Or.inr (congrArg CallState.drains hnext).symm)
  | wake => exact h.wake
  | flush => exact h.of_flush hi.ledger
  | flushWaits hask =>
      rcases hask with hcall | hcall
      · exact h.setCall (Or.inr (congrArg CallState.target hcall).symm) (Or.inl rfl)
      · exact h.setCall (Or.inr (congrArg CallState.target hcall).symm) (Or.inl rfl)
  | flushReturns => exact h.setCall (Or.inl rfl) (Or.inl rfl)
  | flushTimesOut => exact h.setCall (Or.inl rfl) (Or.inl rfl)
  | start => exact h.start
  | stop => exact h.of_stop hi
  | stopReturns =>
      have hnext := h.setCall (t := main) (c := .idle) (Or.inl rfl) (Or.inl rfl)
      exact ⟨hnext.flush, hnext.stop, fun hexited => absurd hexited (by simp)⟩
  | await hw =>
      have hhand : s.worker.hand = none := by
        rcases hw with hw | hw
        · rw [hw]
          rfl
        · rw [hw]
          rfl
      rw [await]
      split
      · exact h.drain hi.ledger hhand
      · exact ⟨h.flush, h.stop, fun hexited => absurd hexited (by simp)⟩
  | drain hw => exact h.drain hi.ledger (by rw [hw]; rfl)
  | deliver =>
      exact h.quiet (List.prefix_refl _) ((List.prefix_append _ _).map _)
        (fun hw => absurd hw (by simp [deliverToSinks])) (fun _ _ => id) fun _ _ => id
  | count => exact ⟨h.flush, h.stop, fun hexited => absurd hexited (by simp)⟩

/-- The run lemma of the invariants. -/
theorem reaches_inv {n : ℕ} {ls : List LogStep} (hrun : Reaches (Step main) (initial n) ls s) :
    s.Inv main ∧ s.Promises main := by
  refine Run.invariant (I := fun v => v.Inv main ∧ v.Promises main) ?_ hrun ⟨.initial, .initial⟩
  intro v l w h _ hst
  exact ⟨h.1.step hst, h.2.step h.1 hst⟩

/-- At most as many messages have been counted as were delivered. -/
theorem Ledger.processed_le (h : s.Ledger) : s.processed ≤ s.handed.length := by
  have hprocessed := h.processed
  rw [handed, List.length_map]
  cases hw : s.worker with
  | _ =>
      simp only [hw, WorkerState.inFlight, WorkerState.hand, Option.toList] at hprocessed
      simp at hprocessed
      omega

/-- The counters add up: what is enqueued waits, is on its way, or has been processed. -/
theorem Ledger.balance (h : s.Ledger) :
    s.enqueued = s.processed + s.queue.length + s.worker.inFlight := by
  have hline := congrArg List.length h.line
  rw [Pipeline.length_line] at hline
  have hprocessed := h.processed
  have hlength : s.pipeline.output.length = s.delivered.length := List.length_map ..
  have hhand : s.pipeline.hand = s.worker.hand := rfl
  have hqueue : s.pipeline.queue = s.queue := rfl
  rw [hlength, hhand, hqueue] at hline
  have henqueued := h.enqueued
  omega

/-- A call of `flush` that finds its predicate true returns behind the messages it saw. -/
theorem handed_of_flushed (hl : s.Ledger) (hp : s.Promises main) {target : ℕ}
    {seen : List LogMessage} (ht : (s.calls t).target = some (target, seen))
    (hflushed : s.flushed target = true) : seen <+: s.handed := by
  obtain ⟨rfl, hseen⟩ := hp.flush t target seen ht
  have hle : seen.length ≤ s.processed := by
    rw [flushed, Bool.and_eq_true] at hflushed
    exact of_decide_eq_true hflushed.2
  rw [← hl.line] at hseen
  exact Pipeline.prefix_output hseen (Nat.le_trans hle hl.processed_le)

/-! ### From the beginning of a call to its return -/

/-- What a caller waits for stays when another call changes. -/
theorem awaits_setCall {c d : CallState} {seen : List LogMessage}
    (ht : (s.calls t).awaits = some seen) (hcall : s.calls u = d)
    (hd : d.awaits = none ∨ d.awaits = c.awaits) :
    ((s.setCall u c).calls t).awaits = some seen := by
  obtain rfl | hne := eq_or_ne t u
  · rw [calls_setCall_self]
    rw [hcall] at ht
    rcases hd with hd | hd
    · exact absurd (hd.symm.trans ht) (by simp)
    · exact hd.symm.trans ht
  · rwa [s.calls_setCall_of_ne c hne]

/-- What a caller waits for stays when a waiter is woken. -/
theorem awaits_notifyOne {seen : List LogMessage} {w : Option Waiter}
    (ht : (s.calls t).awaits = some seen) : ((s.notifyOne w).calls t).awaits = some seen := by
  rcases w with - | - | u
  · exact ht
  · exact ht
  · exact awaits_setCall ht rfl (Or.inr CallState.awaits_notified.symm)

/-- What a caller waits for stays when the worker drains. -/
theorem awaits_drain {seen : List LogMessage} (ht : (s.calls t).awaits = some seen) :
    (s.drain.calls t).awaits = some seen := by
  rw [drain]
  split
  · exact ht
  · exact CallState.awaits_notified.trans ht

/-- A call goes on waiting for the same messages until it returns. -/
theorem Step.awaits {seen : List LogMessage} (hst : Step main s l s')
    (ht : (s.calls t).awaits = some seen) (hl : ¬ l.Returns t) :
    (s'.calls t).awaits = some seen := by
  cases hst with
  | log hcall => exact awaits_setCall ht hcall (Or.inl rfl)
  | drawSequence hcall => exact awaits_setCall ht hcall (Or.inl rfl)
  | push hcall =>
      rw [Logger.push]
      split
      · exact awaits_setCall ht hcall (Or.inl rfl)
      · exact awaits_setCall ht hcall (Or.inl rfl)
  | notify hcall =>
      exact awaits_setCall (awaits_notifyOne ht) (calls_notifyOne hcall rfl) (Or.inl rfl)
  | notifyStop hcall =>
      exact awaits_setCall (awaits_notifyOne ht) (calls_notifyOne hcall rfl) (Or.inr rfl)
  | @wake w => exact awaits_notifyOne (w := some w) ht
  | flush hcall => exact awaits_setCall ht hcall (Or.inl rfl)
  | flushWaits hask =>
      rcases hask with hcall | hcall
      · exact awaits_setCall ht hcall (Or.inr rfl)
      · exact awaits_setCall ht hcall (Or.inr rfl)
  | @flushReturns u =>
      have hne : t ≠ u := fun h => hl (Or.inr ⟨true, by rw [h]⟩)
      exact (congrArg _ (s.calls_setCall_of_ne _ hne)).trans ht
  | @flushTimesOut u target =>
      have hne : t ≠ u := fun h => hl (Or.inr ⟨s.flushed target, by rw [h]⟩)
      exact (congrArg _ (s.calls_setCall_of_ne _ hne)).trans ht
  | start =>
      rw [Logger.start]
      split
      · exact ht
      · exact ht
  | stop hidle =>
      rw [Logger.stop]
      split
      · exact awaits_setCall ht hidle (Or.inl rfl)
      · exact ht
  | stopReturns =>
      have hne : t ≠ main := fun h => hl (Or.inl (by rw [h]))
      exact (congrArg _ (s.calls_setCall_of_ne _ hne)).trans ht
  | await =>
      rw [Logger.await]
      split
      · exact awaits_drain ht
      · exact ht
  | drain => exact awaits_drain ht
  | _ => exact ht

/-- In a run in which the caller does not return it waits for the same messages. -/
theorem run_awaits {seen : List LogMessage} {ls : List LogStep}
    (hrun : Reaches (Step main) s ls s') (ht : (s.calls t).awaits = some seen)
    (hls : ∀ l ∈ ls, ¬ l.Returns t) : (s'.calls t).awaits = some seen := by
  induction hrun with
  | nil => exact ht
  | cons _ hst _ ih =>
      have hnext := hst.awaits ht (hls _ List.mem_cons_self)
      exact ih hnext fun l hl => hls l (List.mem_cons_of_mem _ hl)

/-- What a call of `flush` waits for. -/
theorem Step.flush_awaits (hst : Step main s (.flush t) s') :
    (s'.calls t).awaits = some s.accepted := by
  cases hst with
  | flush => exact congrArg CallState.awaits (calls_setCall_self ..)

/-- What a call of `stop` waits for. -/
theorem Step.stop_awaits (hst : Step main s (.stop t) s') (hrunning : s.running = true) :
    (s'.calls t).awaits = some s.accepted := by
  cases hst with
  | stop =>
      rw [Logger.stop, if_pos hrunning]
      exact congrArg CallState.awaits (calls_setCall_self ..)

/-- A call of `flush` returns `true` behind the messages it waits for. -/
theorem Step.flushReturns_handed {seen : List LogMessage} (hl : s.Ledger) (hp : s.Promises main)
    (hst : Step main s (.flushReturns t true) s') (ht : (s.calls t).awaits = some seen) :
    seen <+: s'.handed := by
  have hwaits (target : ℕ) (known : List LogMessage) (b : Bool)
      (hcall : s.calls t = .flushing target known ∨ s.calls t = .waiting target known b)
      (hflushed : s.flushed target = true) : seen <+: s.handed := by
    have heq : (s.calls t).target = some (target, seen) := by
      rcases hcall with hcall | hcall
      · rw [hcall] at ht ⊢
        obtain rfl := Option.some.inj ht
        rfl
      · rw [hcall] at ht ⊢
        obtain rfl := Option.some.inj ht
        rfl
    exact handed_of_flushed hl hp heq hflushed
  generalize hb : true = b at hst
  cases hst with
  | @flushReturns t target known hask hflushed => exact hwaits target known true hask hflushed
  | @flushTimesOut t target known b hcall => exact hwaits target known b (Or.inr hcall) hb.symm

/-- `stop` returns behind the messages it waits for. -/
theorem Step.stopReturns_handed {seen : List LogMessage} (hp : s.Promises main)
    (hst : Step main s (.stopReturns t) s') (ht : (s.calls t).awaits = some seen) :
    seen <+: s'.handed := by
  cases hst with
  | stopReturns hcall hworker =>
      refine hp.exited hworker seen ?_
      rw [hcall] at ht ⊢
      exact ht

/-- **Conservation of messages.** In every state that a logger reaches: what was accepted is, in
this order, what was handed to the sinks, what the worker holds, and what waits in the queue, and
no message occurs twice; the counters add up. A call of `stop()` that ends a run returns when the
messages accepted until it began have been handed to the sinks, and so does a call of `flush()`
that returns `true`. -/
theorem messages_conserved (n : ℕ) (ls : List LogStep) (s : Logger)
    (hrun : Reaches (Step main) (initial n) ls s) :
    (s.handed ++ s.worker.hand.toList ++ s.queue = s.accepted ∧ s.accepted.Nodup) ∧
    (s.enqueued = s.accepted.length ∧
      s.enqueued = s.processed + s.queue.length + s.worker.inFlight ∧
      s.completed = s.enqueued + s.dropped) ∧
    (∀ u ks v w, s.running = true → Step main s (.stop main) u → Reaches (Step main) u ks v →
      (∀ k ∈ ks, ¬ k.Returns main) → Step main v (.stopReturns main) w →
        s.accepted <+: w.handed) ∧
    (∀ t u ks v w, Step main s (.flush t) u → Reaches (Step main) u ks v →
      (∀ k ∈ ks, ¬ k.Returns t) → Step main v (.flushReturns t true) w →
        s.accepted <+: w.handed) := by
  have hall {v : Logger} {ks : List LogStep} (hks : Reaches (Step main) s ks v) :
      v.Inv main ∧ v.Promises main := reaches_inv (hrun.trans hks)
  obtain ⟨hi, -⟩ := hall (.nil s)
  refine ⟨⟨hi.ledger.line, hi.numbered.nodup.of_map _⟩,
    ⟨hi.ledger.enqueued, hi.ledger.balance, hi.ledger.completed⟩, ?_, ?_⟩
  · intro u ks v w hrunning hstop hks hquiet hreturn
    obtain ⟨-, hp⟩ := hall (.cons trivial hstop hks)
    exact hreturn.stopReturns_handed hp (run_awaits hks (hstop.stop_awaits hrunning) hquiet)
  · intro t u ks v w hflush hks hquiet hreturn
    obtain ⟨hv, hp⟩ := hall (.cons trivial hflush hks)
    exact hreturn.flushReturns_handed hv.ledger hp (run_awaits hks hflush.flush_awaits hquiet)

/-- A message that is pushed before `stop()` is delivered before it returns. -/
theorem last_message_delivered : ∃ ls ks s v, Reaches (Step 0) (initial 4) ls s ∧
    Reaches (Step 0) s (.stop 0 :: ks ++ [.stopReturns 0]) v ∧ s.accepted.length = 1 ∧
    s.accepted <+: v.handed := by
  let call : LogCall := { level := .info }
  let s : Logger :=
    (((initial 4).start.await.setCall 1 (.passed call)).drawSequence 1 call 0).push 1
      (call.message 1 0 1)
  have hrun : Reaches (Step 0) (initial 4)
      [.start 0, .work, .log 1 call, .drawSequence 1 0, .push 1] s :=
    .cons trivial (.start rfl) <| .cons trivial (.await (Or.inl rfl)) <|
    .cons trivial (.log rfl rfl) <| .cons trivial (.drawSequence rfl) <|
    .cons trivial (.push rfl) <| .nil _
  have hstop : Step 0 s (.stop 0) (s.stop 0) := .stop rfl
  have hks : Reaches (Step 0) (s.stop 0)
      [.notifyStop 0 (some .worker), .work, .deliver, .count, .work] _ :=
    .cons trivial (.notifyStop rfl rfl) <| .cons trivial (.await (Or.inr rfl)) <|
    .cons trivial (.deliver rfl) <| .cons trivial (.count rfl) <| .cons trivial (.drain rfl) <|
    .nil _
  refine ⟨_, _, s, _, hrun, .cons trivial hstop (hks.snoc trivial (.stopReturns rfl rfl)), rfl, ?_⟩
  refine (messages_conserved 4 _ _ hrun).2.2.1 _ _ _ _ rfl hstop hks ?_ (.stopReturns rfl rfl)
  simp [LogStep.Returns]

end Logger

end SimplyNode
