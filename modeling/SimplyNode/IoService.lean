import SimplyNode.Executor
import SimplyNode.LoopIO

/-!
# The Descriptor-Watching Thread of a Task Pool

`IoService` watches the descriptors of strands. A descriptor is armed once: when the poller reports
it, it is disarmed, the thread posts a task to the strand, and the task runs the callback and then
arms the descriptor again, provided that the registration it was posted for is still the current
one. A registration has a number, so a late task does not touch the watch of a later registration.

What arms a watch again is the end of its task, and `Strand::drain` goes on behind a task that has
thrown: a callback that throws leaves a watch behind that nobody will arm.

A step is one section under `m_mutex`, the end of a wait of the poller, or a step of a strand. The
strand runs other tasks in between, which are not data here; callbacks, and everybody else, make
calls at any time. The poller's calls succeed.

## Main results

* `Inv.step`: what a step without a harmful exception keeps.
* `watches_attended`: if no callback throws while the registration it was posted for is current, a
  watch is armed, or has its task under way.
* `Silent.step`: a watch whose task has thrown stays silent until it is registered again.
* `silenced_by_exception`: a run in which this happens.
-/

open Transition

namespace SimplyNode

/-- `EPOLLONESHOT`. -/
def epollOneShot : EventMask := 0x40000000

/-- An `IoService::Watch`. A callback is named by a number. -/
structure IoWatch where
  strand : StrandId
  events : EventMask
  callback : ℕ
  queued : Bool := false
  registration : ℕ
  deriving DecidableEq

/-- A descriptor that is ready, as `IoService::run` posts it to a strand. -/
structure IoReady where
  strand : StrandId
  fd : FileDescriptor
  events : EventMask
  registration : ℕ
  callback : ℕ
  deriving DecidableEq

/-- Where the thread is in `IoService::run`. -/
inductive IoPhase
  /-- In the poller's wait. -/
  | waiting
  /-- Behind the wait, before the mutex. -/
  | reported
  /-- It posts what it has collected. -/
  | posting
  /-- It has returned. -/
  | left
  deriving DecidableEq

/-- An `IoService`, the one-shot poller, and the strands as far as they are concerned with
readiness: `armed` has the masks of the armed descriptors, `posted` the tasks that wait in the
queues of their strands, and `running` those whose callbacks run. -/
structure IoService where
  watches : FileDescriptor → Option IoWatch := fun _ => none
  nextRegistration : ℕ := 1
  stopped : Bool := false
  armed : FileDescriptor → Option EventMask := fun _ => none
  phase : IoPhase := .waiting
  reported : List (FileDescriptor × EventMask) := []
  toPost : List IoReady := []
  posted : List IoReady := []
  running : List IoReady := []

/-- What can happen next. -/
inductive IoStep
  | register (strand : StrandId) (fd : FileDescriptor) (events : EventMask) (callback : ℕ)
  | modify (fd : FileDescriptor) (events : EventMask)
  | unregister (fd : FileDescriptor)
  /-- The first half of `stop()`. -/
  | stop
  /-- The poller's wait returns with some of the armed descriptors, or with none. -/
  | wait (events : List (FileDescriptor × EventMask))
  /-- The thread collects what it has to post. -/
  | collect
  /-- It posts the next task. -/
  | post
  /-- It goes back to the wait. -/
  | again
  /-- A strand begins the next of its tasks. -/
  | begin (strand : StrandId)
  /-- The callback returns, and `markHandled` is called. -/
  | finish (strand : StrandId)
  /-- The callback throws, and the strand goes on to its next task. -/
  | throw (strand : StrandId)
  deriving DecidableEq

namespace IoService

/-- The table of the watches, as far as the flags are concerned. -/
def flags (ws : FileDescriptor → Option IoWatch) (fd : FileDescriptor) : Option (ℕ × Bool) :=
  (ws fd).map fun w => (w.registration, w.queued)

/-- The number of tasks for a registration of a descriptor. -/
def countFor (ts : List IoReady) (fd : FileDescriptor) (registration : ℕ) : ℕ :=
  ts.countP fun t => t.fd = fd ∧ t.registration = registration

section Defs

variable (s : IoService)

/-- `IoService::arm`. -/
def arm (fd : FileDescriptor) (events : EventMask) : IoService :=
  { s with armed := Function.update s.armed fd (some (events ||| epollOneShot)) }

/-- `IoService::registerIO`. -/
def registerIO (strand : StrandId) (fd : FileDescriptor) (events : EventMask) (callback : ℕ) :
    IoService :=
  if fd < 0 || s.stopped then s
  else
    { s with
      watches := Function.update s.watches fd
        (some { strand, events, callback, registration := s.nextRegistration })
      nextRegistration := s.nextRegistration + 1 }.arm fd events

/-- `IoService::modifyIO`. -/
def modifyIO (fd : FileDescriptor) (events : EventMask) : IoService :=
  match s.watches fd with
  | none => s
  | some w =>
      let s' := { s with
        watches := Function.update s.watches fd (some { w with events := events }) }
      if !w.queued && !s.stopped then s'.arm fd events else s'

/-- `IoService::unregisterIO`. -/
def unregisterIO (fd : FileDescriptor) : IoService :=
  match s.watches fd with
  | none => s
  | some _ =>
      { s with
        watches := Function.update s.watches fd none
        armed := Function.update s.armed fd none }

/-- `IoService::markHandled`. -/
def markHandled (fd : FileDescriptor) (registration : ℕ) : IoService :=
  match s.watches fd with
  | none => s
  | some w =>
      if w.registration != registration then s
      else
        let s' :=
          { s with watches := Function.update s.watches fd (some { w with queued := false }) }
        if !s.stopped then s'.arm fd w.events else s'

/-- The poller reports some descriptors, and keeps quiet about them from now on. -/
def report (events : List (FileDescriptor × EventMask)) : IoService :=
  { s with
    armed := fun fd => if fd ∈ events.map Prod.fst then none else s.armed fd
    phase := .reported
    reported := events }

/-- `IoService::run`: what is done about one event. -/
def collectEvent (event : FileDescriptor × EventMask) : IoService :=
  match s.watches event.1 with
  | none => s
  | some w =>
      if w.queued then s
      else
        { s with
          watches := Function.update s.watches event.1 (some { w with queued := true })
          toPost := s.toPost ++ [⟨w.strand, event.1, event.2, w.registration, w.callback⟩] }

/-- `IoService::run`: the section behind the wait. -/
def collect : IoService :=
  if s.stopped then { s with phase := .left }
  else { s.reported.foldl collectEvent s with phase := .posting, reported := [] }

/-- The tasks that a strand still has to run. -/
def queue (k : StrandId) : List IoReady := s.posted.filter (·.strand = k)

/-- The tasks that are to be posted, posted, or running. -/
def outstanding : List IoReady := s.toPost ++ (s.posted ++ s.running)

/-- The number of these for a registration of a descriptor. -/
def tasksFor (fd : FileDescriptor) (registration : ℕ) : ℕ :=
  countFor s.outstanding fd registration

/-- The end of a task whose callback has returned. -/
def finish (t : IoReady) : IoService :=
  { s with running := s.running.erase t }.markHandled t.fd t.registration

/-- **One step of a run.** -/
inductive Step : IoService → IoStep → IoService → Prop
  | register {s : IoService} {k : StrandId} {fd : FileDescriptor} {events : EventMask}
      {callback : ℕ} :
      Step s (.register k fd events callback) (s.registerIO k fd events callback)
  | modify {s : IoService} {fd : FileDescriptor} {events : EventMask} :
      Step s (.modify fd events) (s.modifyIO fd events)
  | unregister {s : IoService} {fd : FileDescriptor} :
      Step s (.unregister fd) (s.unregisterIO fd)
  | stop {s : IoService} : Step s .stop { s with stopped := true }
  | wait {s : IoService} {events : List (FileDescriptor × EventMask)} :
      s.phase = .waiting → (∀ x ∈ events, (s.armed x.1).isSome) →
      Step s (.wait events) (s.report events)
  | collect {s : IoService} : s.phase = .reported → Step s .collect s.collect
  | post {s : IoService} {t : IoReady} {rest : List IoReady} :
      s.phase = .posting → s.toPost = t :: rest →
      Step s .post { s with toPost := rest, posted := s.posted ++ [t] }
  | again {s : IoService} :
      s.phase = .posting → s.toPost = [] → Step s .again { s with phase := .waiting }
  | begin {s : IoService} {k : StrandId} {t : IoReady} {rest : List IoReady} :
      s.queue k = t :: rest → (∀ r ∈ s.running, r.strand ≠ k) →
      Step s (.begin k) { s with posted := s.posted.erase t, running := t :: s.running }
  | finish {s : IoService} {k : StrandId} {t : IoReady} :
      t ∈ s.running → t.strand = k → Step s (.finish k) (s.finish t)
  | throw {s : IoService} {k : StrandId} {t : IoReady} :
      t ∈ s.running → t.strand = k →
      Step s (.throw k) { s with running := s.running.erase t }

/-- The condition on a step: a callback does not throw while the registration it was posted for is
the current one of its descriptor. -/
def Harmless : IoStep → Prop
  | .throw k => ∀ t ∈ s.running, t.strand = k →
      ∀ w, s.watches t.fd = some w → w.registration ≠ t.registration
  | _ => True

/-- Every watch is armed, or has been reported and is about to be collected, or has its one task
under way. -/
def Attended : Prop :=
  ∀ fd w, s.watches fd = some w → (s.armed fd).isSome ∨ fd ∈ s.reported.map Prod.fst ∨
    s.tasksFor fd w.registration = 1

/-- A watch whose flag is not set is armed, or is one of the given events. -/
def ArmedBut (events : List (FileDescriptor × EventMask)) : Prop :=
  ∀ fd w, s.watches fd = some w → w.queued = false →
    (s.armed fd).isSome ∨ fd ∈ events.map Prod.fst

/-- **The invariant.** -/
structure Inv : Prop where
  sound : Tickets.Sound (flags s.watches) s.tasksFor s.nextRegistration
  armed : s.stopped = false → s.ArmedBut s.reported
  waiting : s.phase = .waiting → s.reported = [] ∧ s.toPost = []
  posting : s.phase = .posting → s.reported = []
  left : s.phase = .left → s.stopped = true

end Defs

variable {s s' : IoService} {fd g : FileDescriptor} {events : EventMask} {n : ℕ} {w : IoWatch}
  {t : IoReady} {ts ts' : List IoReady} {k : StrandId} {l : IoStep}
  {ws : FileDescriptor → Option IoWatch} {o : Option IoWatch}
  {batch : List (FileDescriptor × EventMask)}

/-! ### Reading the table and the tasks -/

/-- The flags of a descriptor that is watched. -/
theorem flags_of_watch (h : ws fd = some w) :
    flags ws fd = some (w.registration, w.queued) := by
  rw [flags, h]
  rfl

/-- The flags of the watch that has been changed. -/
theorem flags_update_self :
    flags (Function.update ws fd o) fd = o.map fun w => (w.registration, w.queued) := by
  rw [flags, Function.update_self]

/-- The flags of the others stay. -/
theorem flags_update_of_ne (hg : g ≠ fd) : flags (Function.update ws fd o) g = flags ws g := by
  rw [flags, Function.update_of_ne hg, flags]

/-- The count of tasks does not depend on their order. -/
theorem countFor_congr (h : ts'.Perm ts) : countFor ts' fd n = countFor ts fd n :=
  h.countP_eq _

/-- A task counts for its own registration only. -/
theorem countFor_of_perm_cons (h : ts.Perm (t :: ts')) :
    countFor ts fd n = countFor ts' fd n + if t.fd = fd ∧ t.registration = n then 1 else 0 := by
  rw [countFor, h.countP_eq, List.countP_cons, countFor]
  simp only [decide_eq_true_eq]

/-- The task that is taken out counts one. -/
theorem countFor_of_perm_cons_self (h : ts.Perm (t :: ts')) :
    countFor ts' t.fd t.registration + 1 = countFor ts t.fd t.registration := by
  rw [countFor_of_perm_cons h, if_pos ⟨rfl, rfl⟩]

/-- The counts of the others stay. -/
theorem countFor_of_perm_cons_of_ne (h : ts.Perm (t :: ts'))
    (hne : ¬ (fd = t.fd ∧ n = t.registration)) : countFor ts' fd n = countFor ts fd n := by
  rw [countFor_of_perm_cons h, if_neg fun hand => hne ⟨hand.1.symm, hand.2.symm⟩, Nat.add_zero]

/-- To arm a descriptor arms no other. -/
theorem isSome_armed_arm : ((s.arm fd events).armed g).isSome ↔ g = fd ∨ (s.armed g).isSome := by
  rw [arm]
  by_cases hg : g = fd
  · subst hg
    simp
  · simp [hg]

/-! ### The calls -/

/-- `registerIO` keeps the invariant. -/
theorem Inv.registerIO (h : s.Inv) {callback : ℕ} :
    (s.registerIO k fd events callback).Inv := by
  rw [IoService.registerIO]
  split
  · exact h
  · refine ⟨h.sound.enter (k := fd) flags_update_self fun g hg => flags_update_of_ne hg,
      fun hs g w hw hq => ?_, h.waiting, h.posting, h.left⟩
    rw [isSome_armed_arm]
    by_cases hg : g = fd
    · exact Or.inl (Or.inl hg)
    · rcases h.armed hs g w ((Function.update_of_ne hg ..).symm.trans hw) hq with ha | hr
      · exact Or.inl (Or.inr ha)
      · exact Or.inr hr

/-- The events of a watch are changed, and it may be armed. -/
theorem Inv.modifyIO (h : s.Inv) : (s.modifyIO fd events).Inv := by
  rw [IoService.modifyIO]
  split
  · exact h
  · rename_i w hw
    have hflags : ∀ g, flags (Function.update s.watches fd (some { w with events := events })) g =
        flags s.watches g := by
      intro g
      by_cases hg : g = fd
      · subst hg
        rw [flags_of_watch hw]
        exact flags_update_self
      · exact flags_update_of_ne hg
    have hold : ∀ g v, Function.update s.watches fd (some { w with events := events }) g = some v →
        ∃ v₀, s.watches g = some v₀ ∧ v₀.queued = v.queued := by
      intro g v hv
      by_cases hg : g = fd
      · subst hg
        rw [Function.update_self] at hv
        obtain rfl := Option.some.inj hv
        exact ⟨w, hw, rfl⟩
      · exact ⟨v, (Function.update_of_ne hg ..).symm.trans hv, rfl⟩
    dsimp only
    split
    · refine ⟨h.sound.congr hflags fun _ _ => rfl, fun hs g v hv hq => ?_, h.waiting, h.posting,
        h.left⟩
      rw [isSome_armed_arm]
      obtain ⟨v₀, hv₀, hq₀⟩ := hold g v hv
      rcases h.armed hs g v₀ hv₀ (hq₀.trans hq) with ha | hr
      · exact Or.inl (Or.inr ha)
      · exact Or.inr hr
    · refine ⟨h.sound.congr hflags fun _ _ => rfl, fun hs g v hv hq => ?_, h.waiting, h.posting,
        h.left⟩
      obtain ⟨v₀, hv₀, hq₀⟩ := hold g v hv
      exact h.armed hs g v₀ hv₀ (hq₀.trans hq)

/-- `unregisterIO` keeps it. -/
theorem Inv.unregisterIO (h : s.Inv) : (s.unregisterIO fd).Inv := by
  rw [IoService.unregisterIO]
  split
  · exact h
  · refine ⟨h.sound.leave (k := fd) flags_update_self (fun g hg => flags_update_of_ne hg)
      (fun _ _ _ => rfl) fun _ => le_refl _, fun hs g v hv hq => ?_, h.waiting, h.posting,
      h.left⟩
    have hg : g ≠ fd := by
      rintro rfl
      exact absurd ((Function.update_self ..).symm.trans hv) (by simp)
    rcases h.armed hs g v ((Function.update_of_ne hg ..).symm.trans hv) hq with ha | hr
    · refine Or.inl ?_
      change ((Function.update s.armed fd none) g).isSome
      rwa [Function.update_of_ne hg]
    · exact Or.inr hr

/-! ### The passes of the thread -/

/-- A report of `epoll_wait` keeps it. -/
theorem Inv.report (h : s.Inv) (hp : s.phase = .waiting) : (s.report batch).Inv where
  sound := h.sound
  armed hs g v hv hq := by
    by_cases hg : g ∈ batch.map Prod.fst
    · exact Or.inr hg
    · refine Or.inl ?_
      change ((if g ∈ batch.map Prod.fst then none else s.armed g) : Option EventMask).isSome
      rw [if_neg hg]
      rcases h.armed hs g v hv hq with ha | hr
      · exact ha
      · rw [(h.waiting hp).1] at hr
        exact absurd hr List.not_mem_nil
  waiting hw := absurd hw (by simp [IoService.report])
  posting hp := absurd hp (by simp [IoService.report])
  left hl := absurd hl (by simp [IoService.report])

/-- What collecting one event keeps: the flags are truthful, and there is one event less to collect.
Nothing but the watches and the list of what is to be posted changes. -/
theorem sound_collectEvent (h : Tickets.Sound (flags s.watches) s.tasksFor s.nextRegistration)
    {event : FileDescriptor × EventMask} :
    Tickets.Sound (flags (s.collectEvent event).watches) (s.collectEvent event).tasksFor
      (s.collectEvent event).nextRegistration := by
  rw [collectEvent]
  split
  · exact h
  · rename_i w hw
    split
    · exact h
    · rename_i hq
      have hfalse : w.queued = false := by simpa using hq
      let x : IoReady := ⟨w.strand, event.1, event.2, w.registration, w.callback⟩
      have hperm : (s.toPost ++ [x] ++ (s.posted ++ s.running)).Perm (x :: s.outstanding) := by
        rw [outstanding, List.append_assoc, List.singleton_append]
        exact List.perm_middle
      refine h.issue (k := event.1) (n := w.registration) ?_ flags_update_self
        (fun g hg => flags_update_of_ne hg) (countFor_of_perm_cons_self hperm).symm
        fun g n hne => (countFor_of_perm_cons_of_ne hperm hne).symm
      rw [flags_of_watch hw, hfalse]

/-- To collect an event leaves the others to be collected. -/
theorem armedBut_collectEvent {event : FileDescriptor × EventMask}
    (h : s.ArmedBut (event :: batch)) : (s.collectEvent event).ArmedBut batch := by
  intro g v hv hq
  rw [collectEvent] at hv ⊢
  have hrest : ∀ {v : IoWatch}, g ≠ event.1 → s.watches g = some v → v.queued = false →
      (s.armed g).isSome ∨ g ∈ batch.map Prod.fst := by
    intro v hg hv hq
    rcases h g v hv hq with ha | hr
    · exact Or.inl ha
    · rcases List.mem_cons.mp hr with heq | hr
      · exact absurd heq hg
      · exact Or.inr hr
  split at hv
  · rename_i hnone
    refine hrest ?_ hv hq
    rintro rfl
    exact absurd (hnone.symm.trans hv) (by simp)
  · rename_i w hw
    split at hv
    · rename_i hqueued
      rw [if_pos hqueued]
      refine hrest ?_ hv hq
      rintro rfl
      obtain rfl := Option.some.inj (hw.symm.trans hv)
      exact absurd (hqueued.symm.trans hq) (by simp)
    · rename_i hqueued
      rw [if_neg hqueued]
      by_cases hg : g = event.1
      · -- the flag of a watch that is collected is set
        subst hg
        change Function.update s.watches event.1 _ event.1 = some v at hv
        rw [Function.update_self] at hv
        obtain rfl := Option.some.inj hv
        exact absurd hq (by simp)
      · exact hrest hg ((Function.update_of_ne hg ..).symm.trans hv) hq

/-- To collect all events keeps the tickets sound. -/
theorem sound_foldl_collectEvent
    (h : Tickets.Sound (flags s.watches) s.tasksFor s.nextRegistration) (ha : s.ArmedBut batch) :
    Tickets.Sound (flags (batch.foldl collectEvent s).watches) (batch.foldl collectEvent s).tasksFor
        (batch.foldl collectEvent s).nextRegistration ∧
      (batch.foldl collectEvent s).ArmedBut [] := by
  induction batch generalizing s with
  | nil => exact ⟨h, ha⟩
  | cons event batch ih => exact ih (sound_collectEvent h) (armedBut_collectEvent ha)

/-- `collect` keeps the invariant. -/
theorem Inv.collect (h : s.Inv) : s.collect.Inv := by
  rw [IoService.collect]
  split
  · rename_i hs
    exact ⟨h.sound, h.armed, fun hp => absurd hp (by simp), fun hp => absurd hp (by simp),
      fun _ => hs⟩
  · rename_i hs
    obtain ⟨hsound, harmed⟩ := sound_foldl_collectEvent h.sound (h.armed (by simpa using hs))
    exact ⟨hsound, fun _ => harmed, fun hp => absurd hp (by simp), fun _ => rfl,
      fun hp => absurd hp (by simp)⟩

/-! ### The ends of the tasks -/

/-- A task that is running is one of those outstanding. -/
theorem perm_erase_running (ht : t ∈ s.running) : s.outstanding.Perm
    (t :: { s with running := s.running.erase t }.outstanding) := by
  have hrun : s.running.Perm (t :: s.running.erase t) := List.perm_cons_erase ht
  have hback : (s.toPost ++ (s.posted ++ t :: s.running.erase t)).Perm
      (t :: (s.toPost ++ (s.posted ++ s.running.erase t))) := by
    rw [← List.append_assoc, ← List.append_assoc]
    exact List.perm_middle
  exact ((hrun.append_left _).append_left _).trans hback

/-- A task ends whose registration is gone. -/
theorem Inv.eraseRunning (h : s.Inv) (ht : t ∈ s.running)
    (hold : ∀ w, s.watches t.fd = some w → w.registration ≠ t.registration) :
    { s with running := s.running.erase t }.Inv where
  sound := by
    refine h.sound.discard (k := t.fd) (n := t.registration) (fun f hf => ?_) ?_
      fun g n hne => countFor_of_perm_cons_of_ne (perm_erase_running ht) hne
    · obtain ⟨w, hw, heq⟩ := Option.map_eq_some_iff.mp hf
      exact hold w hw (Prod.mk.inj heq).1
    · exact Nat.le_of_succ_le (Nat.le_of_eq (countFor_of_perm_cons_self (perm_erase_running ht)))
  armed := h.armed
  waiting := h.waiting
  posting := h.posting
  left := h.left

/-- What `markHandled` does for the current registration. -/
theorem finish_of_current (hw : s.watches t.fd = some w) (hreg : w.registration = t.registration) :
    s.finish t =
      let s' := { s with
        running := s.running.erase t
        watches := Function.update s.watches t.fd (some { w with queued := false }) }
      if !s.stopped then s'.arm t.fd w.events else s' := by
  have hne : ¬ (w.registration != t.registration) = true := by simp [hreg]
  simp only [finish, markHandled, hw, if_neg hne]

/-- What it does for an earlier one: nothing. -/
theorem finish_of_stale
    (hold : ∀ w, s.watches t.fd = some w → w.registration ≠ t.registration) :
    s.finish t = { s with running := s.running.erase t } := by
  rw [finish, markHandled]
  cases hw : s.watches t.fd with
  | none => rfl
  | some w => exact if_pos (by simpa using hold w hw)

/-- A task that ends keeps it. -/
theorem Inv.finish (h : s.Inv) (ht : t ∈ s.running) : (s.finish t).Inv := by
  by_cases hold : ∀ w, s.watches t.fd = some w → w.registration ≠ t.registration
  · rw [finish_of_stale hold]
    exact h.eraseRunning ht hold
  · simp only [not_forall, not_not] at hold
    obtain ⟨w, hw, hreg⟩ := hold
    have hsound : Tickets.Sound
        (flags (Function.update s.watches t.fd (some { w with queued := false })))
        { s with running := s.running.erase t }.tasksFor s.nextRegistration := by
      refine h.sound.settle (k := t.fd) (n := t.registration) (f := w.queued) ?_ ?_
        (fun g hg => flags_update_of_ne hg) (countFor_of_perm_cons_self (perm_erase_running ht))
        fun g n hne => countFor_of_perm_cons_of_ne (perm_erase_running ht) hne
      · rw [flags_of_watch hw, hreg]
      · rw [flags_update_self, ← hreg]
        rfl
    rw [finish_of_current hw hreg]
    dsimp only
    split
    · refine ⟨hsound, fun hs g v hv hq => ?_, h.waiting, h.posting, h.left⟩
      rw [isSome_armed_arm]
      by_cases hg : g = t.fd
      · exact Or.inl (Or.inl hg)
      · rcases h.armed hs g v ((Function.update_of_ne hg ..).symm.trans hv) hq with ha | hr
        · exact Or.inl (Or.inr ha)
        · exact Or.inr hr
    · rename_i hs
      exact ⟨hsound, fun hs' => absurd hs' (by simpa using hs), h.waiting, h.posting, h.left⟩

/-! ### The step lemma -/

/-- The tasks are the same in other lists. -/
theorem Inv.rearrange (h : s.Inv) (hp : s'.outstanding.Perm s.outstanding)
    (hw : s'.watches = s.watches) (hn : s'.nextRegistration = s.nextRegistration)
    (ha : s'.stopped = false → s'.ArmedBut s'.reported)
    (hwait : s'.phase = .waiting → s'.reported = [] ∧ s'.toPost = [])
    (hpost : s'.phase = .posting → s'.reported = [])
    (hleft : s'.phase = .left → s'.stopped = true) : s'.Inv where
  sound := by
    rw [hw, hn]
    exact h.sound.congr (fun _ => rfl) fun g n => countFor_congr hp
  armed := ha
  waiting := hwait
  posting := hpost
  left := hleft

/-- **The step lemma.** -/
theorem Inv.step (h : s.Inv) (hok : s.Harmless l) (hst : Step s l s') : s'.Inv := by
  cases hst with
  | register => exact h.registerIO
  | modify => exact h.modifyIO
  | unregister => exact h.unregisterIO
  | stop => exact ⟨h.sound, fun hs => absurd hs (by simp), h.waiting, h.posting, fun _ => rfl⟩
  | wait hp _ => exact h.report hp
  | collect hp => exact h.collect
  | @post t rest hp ht =>
      refine h.rearrange ?_ rfl rfl h.armed (fun hw => ?_) h.posting h.left
      · rw [outstanding, outstanding, ht, List.cons_append, List.append_assoc,
          List.singleton_append, ← List.append_assoc]
        refine List.perm_middle.trans ?_
        rw [List.append_assoc]
      · exact absurd (hp.symm.trans hw) (by simp)
  | again hp ht =>
      exact h.rearrange (List.Perm.refl _) rfl rfl h.armed (fun _ => ⟨h.posting hp, ht⟩)
        (fun hr => absurd hr (by simp)) (fun hl => absurd hl (by simp))
  | @begin k t rest hq hrun =>
      have hmem : t ∈ s.posted := by
        have : t ∈ s.queue k := by simp [hq]
        exact (List.mem_filter.mp this).1
      refine h.rearrange (List.Perm.append_left _ ?_) rfl rfl h.armed h.waiting h.posting h.left
      exact List.perm_middle.trans ((List.perm_cons_erase hmem).symm.append_right _)
  | finish ht hk => exact h.finish ht
  | throw ht hk => exact h.eraseRunning ht fun w hw => hok _ ht hk w hw

/-! ### Runs -/

/-- A service without watches is in order. -/
theorem inv_empty : ({} : IoService).Inv where
  sound := Tickets.sound_empty 1
  armed _ _ _ h := absurd h (by simp)
  waiting _ := ⟨rfl, rfl⟩
  posting h := absurd h (by simp)
  left h := absurd h (by simp)

/-- A watch has at most one task under way, and one if its flag is set. -/
theorem Inv.tasksFor_eq (h : s.Inv) (hw : s.watches fd = some w) :
    s.tasksFor fd w.registration = if w.queued then 1 else 0 :=
  h.sound.truthful fd w.registration w.queued (flags_of_watch hw)

/-- Where the service has not been stopped every watch is attended. -/
theorem Inv.attended (h : s.Inv) (hs : s.stopped = false) : s.Attended := by
  intro fd w hw
  have hcount := h.tasksFor_eq hw
  cases hq : w.queued with
  | true =>
      rw [hq, if_pos rfl] at hcount
      exact Or.inr (Or.inr hcount)
  | false =>
      rcases h.armed hs fd w hw hq with ha | hr
      · exact Or.inl ha
      · exact Or.inr (Or.inl hr)

/-- While the thread waits, the task of a watch is with its strand. -/
theorem Inv.attended_of_waiting (h : s.Inv) (hs : s.stopped = false) (hp : s.phase = .waiting)
    (hw : s.watches fd = some w) : (s.armed fd).isSome ∨
      countFor (s.posted ++ s.running) fd w.registration = 1 := by
  obtain ⟨hrep, htopost⟩ := h.waiting hp
  rcases h.attended hs fd w hw with ha | hr | hone
  · exact Or.inl ha
  · rw [hrep] at hr
    exact absurd hr List.not_mem_nil
  · rw [tasksFor, outstanding, htopost] at hone
    exact Or.inr hone

/-- A task whose registration is current arms the descriptor again, with the events of the watch. -/
theorem armed_finish (hs : s.stopped = false) (hw : s.watches t.fd = some w)
    (hreg : w.registration = t.registration) :
    (s.finish t).armed t.fd = some (w.events ||| epollOneShot) := by
  rw [finish_of_current hw hreg, hs]
  exact Function.update_self ..

/-- **No watch is left dead** as long as no callback throws while the registration it was posted for
is current. In every state of such a run before `stop()`, a watch is armed, or is among the events
that the thread is about to collect, or has exactly one task under way; while the thread waits, a
watch is armed or has exactly one task with its strand, and it never has two; and the end of such a
task arms the descriptor again. -/
theorem watches_attended {ls : List IoStep} (hrun : Run Step Harmless {} ls s)
    (hs : s.stopped = false) :
    s.Attended ∧
      (s.phase = .waiting → ∀ fd w, s.watches fd = some w → (s.armed fd).isSome ∨
        countFor (s.posted ++ s.running) fd w.registration = 1) ∧
      (∀ fd w, s.watches fd = some w → s.tasksFor fd w.registration ≤ 1) ∧
      ∀ t ∈ s.running, ∀ w, s.watches t.fd = some w → w.registration = t.registration →
        (s.finish t).armed t.fd = some (w.events ||| epollOneShot) := by
  have h : s.Inv := hrun.invariant (fun _ _ _ hu hok hst => hu.step hok hst) inv_empty
  refine ⟨h.attended hs, fun hp fd w hw => h.attended_of_waiting hs hp hw, fun fd w hw => ?_,
    fun t ht w hw hreg => armed_finish hs hw hreg⟩
  rw [h.tasksFor_eq hw]
  split
  · exact le_refl 1
  · exact Nat.zero_le 1

/-- A callback unregisters its descriptor, registers it again, and throws. -/
def rethrowing : List IoStep :=
  [.register 0 5 1 7, .wait [(5, 1)], .collect, .post, .again, .begin 0, .unregister 5,
    .register 0 5 4 8, .throw 0]

/-- The new registration is armed. -/
theorem reregistered_watch_armed : ∃ s : IoService, s.watches 5 = some ⟨0, 4, 8, false, 2⟩ ∧
    s.running = [] ∧ ((s.armed 5).isSome ∨ countFor (s.posted ++ s.running) 5 2 = 1) := by
  have hrun : ∃ s : IoService, Run Step Harmless {} rethrowing s ∧ s.stopped = false ∧
      s.phase = .waiting ∧ s.watches 5 = some ⟨0, 4, 8, false, 2⟩ ∧ s.running = [] := by
    refine ⟨_, .cons trivial .register (.cons trivial (.wait rfl ?_) (.cons trivial
      (.collect rfl) (.cons trivial (.post rfl rfl) (.cons trivial (.again rfl rfl)
      (.cons trivial (.begin rfl ?_) (.cons trivial .unregister (.cons trivial .register
      (.cons ?_ (.throw (t := ⟨0, 5, 1, 1, 7⟩) ?_ rfl) (.nil _))))))))), rfl, rfl, rfl, rfl⟩
    · intro x hx
      rw [List.mem_singleton.mp hx]
      rfl
    · exact fun r hr => absurd hr List.not_mem_nil
    · intro t ht _ w hw
      obtain rfl := List.mem_singleton.mp ht
      obtain rfl := Option.some.inj hw
      decide
    · exact List.mem_singleton_self _
  obtain ⟨s, hrun, hs, hp, hw, hrunning⟩ := hrun
  exact ⟨s, hw, hrunning, (watches_attended hrun hs).2.1 hp 5 _ hw⟩

/-! ### A callback that throws -/

/-- A watch that is not armed, will not be collected, and has no task to arm it. -/
def Silent (s : IoService) (fd : FileDescriptor) : Prop :=
  ∃ w, s.watches fd = some w ∧ w.queued = true ∧ s.armed fd = none ∧
    s.tasksFor fd w.registration = 0

/-- A step that neither registers nor unregisters a descriptor. -/
def Spares (fd : FileDescriptor) : IoStep → Prop
  | .register _ g _ _ => g ≠ fd
  | .unregister g => g ≠ fd
  | _ => True

/-- What is done about other descriptors, and about tasks of other registrations. -/
theorem Silent.of_same (h : s.Silent fd) (hw : s'.watches fd = s.watches fd)
    (ha : s'.armed fd = s.armed fd) (hc : ∀ n, s'.tasksFor fd n ≤ s.tasksFor fd n) :
    s'.Silent fd := by
  obtain ⟨w, hw₀, hq, ha₀, hc₀⟩ := h
  have := hc w.registration
  exact ⟨w, hw.trans hw₀, hq, ha.trans ha₀, by omega⟩

/-- `modifyIO` does not wake a silent watch. -/
theorem Silent.modifyIO (h : s.Silent fd) : (s.modifyIO g events).Silent fd := by
  by_cases hg : fd = g
  · -- the flag of the watch is set, so that its new events are not armed
    subst hg
    obtain ⟨w, hw, hq, ha, hc⟩ := h
    refine ⟨{ w with events := events }, ?_⟩
    have heq : s.modifyIO fd events = { s with
        watches := Function.update s.watches fd (some { w with events := events }) } := by
      simp [IoService.modifyIO, hw, hq]
    rw [heq]
    exact ⟨Function.update_self .., hq, ha, hc⟩
  · rw [IoService.modifyIO]
    split
    · exact h
    · dsimp only
      split
      · exact h.of_same (Function.update_of_ne hg ..) (Function.update_of_ne hg ..)
          fun _ => le_refl _
      · exact h.of_same (Function.update_of_ne hg ..) rfl fun _ => le_refl _

/-- Neither does an event that is collected. -/
theorem Silent.collectEvent (h : s.Silent fd) {event : FileDescriptor × EventMask} :
    (s.collectEvent event).Silent fd := by
  rw [IoService.collectEvent]
  split
  · exact h
  · rename_i w hw
    split
    · exact h
    · rename_i hq
      have hne : fd ≠ event.1 := by
        rintro rfl
        obtain ⟨w', hw', hq', -⟩ := h
        obtain rfl := Option.some.inj (hw.symm.trans hw')
        exact hq hq'
      let x : IoReady := ⟨w.strand, event.1, event.2, w.registration, w.callback⟩
      have hperm : (s.toPost ++ [x] ++ (s.posted ++ s.running)).Perm (x :: s.outstanding) := by
        rw [outstanding, List.append_assoc, List.singleton_append]
        exact List.perm_middle
      refine h.of_same (Function.update_of_ne hne ..) rfl fun n => Nat.le_of_eq ?_
      exact (countFor_of_perm_cons_of_ne hperm fun hand => hne hand.1).symm

/-- Neither does a task that leaves. -/
theorem Silent.eraseRunning (h : s.Silent fd) (ht : t ∈ s.running) :
    { s with running := s.running.erase t }.Silent fd := by
  refine h.of_same rfl rfl fun n => ?_
  rw [tasksFor, tasksFor, countFor_of_perm_cons (perm_erase_running ht)]
  exact Nat.le_add_right ..

/-- Neither does a task that ends. -/
theorem Silent.finish (h : s.Silent fd) (ht : t ∈ s.running) : (s.finish t).Silent fd := by
  have hmem : t ∈ s.outstanding :=
    List.mem_append_right _ (List.mem_append_right _ ht)
  by_cases hold : ∀ w, s.watches t.fd = some w → w.registration ≠ t.registration
  · rw [finish_of_stale hold]
    exact h.eraseRunning ht
  · simp only [not_forall, not_not] at hold
    obtain ⟨w, hw, hreg⟩ := hold
    have hne : fd ≠ t.fd := by
      rintro rfl
      obtain ⟨w', hw', -, -, hzero⟩ := h
      obtain rfl := Option.some.inj (hw.symm.trans hw')
      rw [tasksFor, countFor, List.countP_eq_zero] at hzero
      exact hzero t hmem (by simp [hreg])
    have herase := h.eraseRunning ht
    rw [finish_of_current hw hreg]
    dsimp only
    split
    · exact herase.of_same (Function.update_of_ne hne ..) (Function.update_of_ne hne ..)
        fun _ => le_refl _
    · exact herase.of_same (Function.update_of_ne hne ..) rfl fun _ => le_refl _

/-- **A silent watch stays silent**, unless its descriptor is registered again. -/
theorem Silent.step (h : s.Silent fd) (hl : Spares fd l) (hst : Step s l s') : s'.Silent fd := by
  cases hst with
  | @register k g events callback =>
      have hne : fd ≠ g := fun heq => hl heq.symm
      rw [IoService.registerIO]
      split
      · exact h
      · exact h.of_same (Function.update_of_ne hne ..) (Function.update_of_ne hne ..)
          fun _ => le_refl _
  | modify => exact h.modifyIO
  | @unregister g =>
      have hne : fd ≠ g := fun heq => hl heq.symm
      rw [IoService.unregisterIO]
      split
      · exact h
      · exact h.of_same (Function.update_of_ne hne ..) (Function.update_of_ne hne ..)
          fun _ => le_refl _
  | stop => exact h.of_same rfl rfl fun _ => le_refl _
  | @wait events hp _ =>
      obtain ⟨w, hw, hq, ha, hc⟩ := h
      refine ⟨w, hw, hq, ?_, hc⟩
      change (if fd ∈ events.map Prod.fst then none else s.armed fd) = none
      split
      · rfl
      · exact ha
  | collect hp =>
      have hfold : ∀ (batch : List (FileDescriptor × EventMask)) (u : IoService), u.Silent fd →
          (batch.foldl IoService.collectEvent u).Silent fd := by
        intro batch
        induction batch with
        | nil => exact fun u hu => hu
        | cons event batch ih => exact fun u hu => ih _ hu.collectEvent
      rw [IoService.collect]
      split
      · exact h.of_same rfl rfl fun _ => le_refl _
      · exact (hfold s.reported s h).of_same rfl rfl fun _ => le_refl _
  | @post t rest hp ht =>
      refine h.of_same rfl rfl fun n => Nat.le_of_eq (countFor_congr ?_)
      rw [outstanding, outstanding, ht, List.cons_append, List.append_assoc,
        List.singleton_append, ← List.append_assoc]
      refine List.perm_middle.trans ?_
      rw [List.append_assoc]
  | again hp ht => exact h.of_same rfl rfl fun _ => le_refl _
  | @begin k t rest hq hrun =>
      have hmem : t ∈ s.posted := by
        have : t ∈ s.queue k := by simp [hq]
        exact (List.mem_filter.mp this).1
      refine h.of_same rfl rfl fun n => Nat.le_of_eq (countFor_congr ?_)
      exact List.Perm.append_left _ (List.perm_middle.trans
        ((List.perm_cons_erase hmem).symm.append_right _))
  | finish ht hk => exact h.finish ht
  | throw ht hk => exact h.eraseRunning ht

/-- **A callback that throws silences its watch**: the descriptor is neither armed nor has a task
that would arm it, whatever happens short of registering it again. -/
theorem silenced_by_exception : ∃ s : IoService,
    Reaches Step {} [.register 0 5 1 7, .wait [(5, 1)], .collect, .post, .again, .begin 0,
      .throw 0] s ∧
    s.stopped = false ∧ s.watches 5 = some ⟨0, 1, 7, true, 1⟩ ∧ ¬ s.Attended ∧
    ∀ ls s', Run Step (fun _ l => Spares 5 l) s ls s' → s'.Silent 5 := by
  refine ⟨_, .cons trivial .register (.cons trivial (.wait rfl ?_) (.cons trivial (.collect rfl)
    (.cons trivial (.post rfl rfl) (.cons trivial (.again rfl rfl) (.cons trivial (.begin rfl ?_)
    (.cons trivial (.throw (t := ⟨0, 5, 1, 1, 7⟩) ?_ rfl) (.nil _))))))), rfl, rfl, ?_, ?_⟩
  · intro x hx
    rw [List.mem_singleton.mp hx]
    rfl
  · exact fun r hr => absurd hr List.not_mem_nil
  · exact List.mem_singleton_self _
  · intro h
    exact absurd (h 5 ⟨0, 1, 7, true, 1⟩ rfl) (by decide)
  · intro ls s' hrun
    refine Run.invariant (I := fun u => u.Silent 5) (fun _ _ _ hu hl hst => hu.step hl hst) hrun ?_
    exact ⟨⟨0, 1, 7, true, 1⟩, rfl, rfl, rfl, rfl⟩

end IoService

end SimplyNode
