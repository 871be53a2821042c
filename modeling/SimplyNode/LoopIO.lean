import Mathlib.Data.Int.Notation
import Mathlib.Logic.Function.Basic
import SimplyNode.Lib.Transition
import SimplyNode.Lib.Tickets

/-!
# Readiness of File Descriptors in an Event Loop

A loop keeps a watch for each descriptor. The I/O thread waits in the poller, and queues an entry
for every watched descriptor that is reported and has none queued yet; the owner takes the list,
runs the callbacks outside of the mutex, and acknowledges each entry, which resets the flag of the
watch. The entry says for which descriptor it was queued but not for which registration, so an
acknowledgement goes to whatever watch the descriptor has by then.

A step is one section under `m_mutex`. The poller is level-triggered, and the I/O thread holds what
it has reported while others enter the mutex, so a pass may be about any descriptors. Callbacks make
calls like everybody else, and may run pending work of the loop, which takes a list of its own.

## Main results

* `Inv.step`: what a step with a current acknowledgement keeps.
* `run_current_iff_faithful`: the flags are truthful in a whole run iff no entry of an earlier
  registration is acknowledged while the current one has its flag set.
* `queued_twice`: a run in which a callback is queued twice.
-/

open Transition

namespace SimplyNode

/-- A file descriptor; a negative one is none. -/
abbrev FileDescriptor := ℤ

/-- A native epoll mask. -/
abbrev EventMask := UInt32

/-- An `IOWatchEntry`. A callback is named by the number of its registration, so that two
registrations of one descriptor can be told apart. -/
structure IOWatchEntry where
  events : EventMask
  callback : ℕ
  queued : Bool := false
  deriving DecidableEq

/-- A `ReadyIOEntry`. -/
structure ReadyIOEntry where
  fd : FileDescriptor
  events : EventMask
  callback : ℕ
  deriving DecidableEq

/-- A list that the owner has taken: the entry whose callback runs or has just returned, and those
still to come. -/
structure IOFrame where
  running : Option ReadyIOEntry := none
  rest : List ReadyIOEntry
  deriving DecidableEq

/-- The I/O members of an `EventLoop`, and the lists its owner works through, the innermost call
first. `registrations` counts the calls of `registerIO`. -/
structure LoopIO where
  watches : FileDescriptor → Option IOWatchEntry := fun _ => none
  readyIO : List ReadyIOEntry := []
  frames : List IOFrame := []
  registrations : ℕ := 0

/-- What can happen next. -/
inductive LoopIOStep
  | register (fd : FileDescriptor) (events : EventMask)
  | modify (fd : FileDescriptor) (events : EventMask)
  | unregister (fd : FileDescriptor)
  /-- The I/O thread handles what the poller has reported. -/
  | ioPass (events : List (FileDescriptor × EventMask))
  /-- The owner takes the ready list. -/
  | takeReady
  /-- It calls the next callback. -/
  | callback
  /-- The callback has returned, and is acknowledged. -/
  | markReadyIOHandled
  /-- The list has been worked through. -/
  | leave
  deriving DecidableEq

namespace LoopIO

/-- The table of the watches, as far as the flags are concerned. -/
def flags (ws : FileDescriptor → Option IOWatchEntry) (fd : FileDescriptor) : Option (ℕ × Bool) :=
  (ws fd).map fun w => (w.callback, w.queued)

/-- The number of entries for a registration of a descriptor. -/
def countFor (es : List ReadyIOEntry) (fd : FileDescriptor) (callback : ℕ) : ℕ :=
  es.countP fun e => e.fd = fd ∧ e.callback = callback

section Defs

variable (s : LoopIO)

/-- `EventLoop::registerIO`, of a new callback. -/
def registerIO (fd : FileDescriptor) (events : EventMask) : LoopIO :=
  if fd < 0 then s
  else
    { s with
      watches := Function.update s.watches fd
        (some { events := events, callback := s.registrations })
      registrations := s.registrations + 1 }

/-- `EventLoop::modifyIO`. -/
def modifyIO (fd : FileDescriptor) (events : EventMask) : LoopIO :=
  if fd < 0 then s
  else
    match s.watches fd with
    | none => s
    | some w =>
        { s with watches := Function.update s.watches fd (some { w with events := events }) }

/-- `EventLoop::unregisterIO`: the queued entries go, those that were taken stay. -/
def unregisterIO (fd : FileDescriptor) : LoopIO :=
  if fd < 0 then s
  else
    match s.watches fd with
    | none => s
    | some _ =>
        { s with
          watches := Function.update s.watches fd none
          readyIO := s.readyIO.filter (·.fd ≠ fd) }

/-- `EventLoop::ioThreadMain`: what is done about one event. -/
def queueReady (event : FileDescriptor × EventMask) : LoopIO :=
  match s.watches event.1 with
  | none => s
  | some w =>
      if w.queued then s
      else
        { s with
          watches := Function.update s.watches event.1 (some { w with queued := true })
          readyIO := s.readyIO ++ [⟨event.1, event.2, w.callback⟩] }

/-- `EventLoop::ioThreadMain`: the section behind a wait. -/
def ioPass (events : List (FileDescriptor × EventMask)) : LoopIO := events.foldl queueReady s

/-- `EventLoop::takeReadyIO`. -/
def takeReadyIO : LoopIO := { s with readyIO := [], frames := { rest := s.readyIO } :: s.frames }

/-- `EventLoop::markReadyIOHandled`. -/
def markReadyIOHandled (fd : FileDescriptor) : LoopIO :=
  if fd < 0 then s
  else
    { s with
      watches := Function.update s.watches fd
        ((s.watches fd).map fun w => { w with queued := false }) }

/-- The entries that are queued, taken, or being run. -/
def outstanding : List ReadyIOEntry :=
  s.readyIO ++ s.frames.flatMap fun f => f.running.toList ++ f.rest

/-- The number of these for a registration of a descriptor. -/
def entriesFor (fd : FileDescriptor) (callback : ℕ) : ℕ := countFor s.outstanding fd callback

/-- A descriptor has an entry for its current registration iff the flag of its watch says so, and
never two. -/
def Faithful : Prop :=
  ∀ fd w, s.watches fd = some w → s.entriesFor fd w.callback = if w.queued then 1 else 0

/-- **The invariant.** -/
structure Inv : Prop where
  sound : Tickets.Sound (flags s.watches) s.entriesFor s.registrations
  watched : ∀ fd w, s.watches fd = some w → 0 ≤ fd
  ready : ∀ e ∈ s.readyIO, 0 ≤ e.fd

/-- **One step of a run.** -/
inductive Step : LoopIO → LoopIOStep → LoopIO → Prop
  | register {s : LoopIO} {fd : FileDescriptor} {events : EventMask} :
      Step s (.register fd events) (s.registerIO fd events)
  | modify {s : LoopIO} {fd : FileDescriptor} {events : EventMask} :
      Step s (.modify fd events) (s.modifyIO fd events)
  | unregister {s : LoopIO} {fd : FileDescriptor} :
      Step s (.unregister fd) (s.unregisterIO fd)
  | ioPass {s : LoopIO} {events : List (FileDescriptor × EventMask)} :
      Step s (.ioPass events) (s.ioPass events)
  | takeReady {s : LoopIO} : Step s .takeReady s.takeReadyIO
  | callback {s : LoopIO} {e : ReadyIOEntry} {rest : List ReadyIOEntry} {fs : List IOFrame} :
      s.frames = ⟨none, e :: rest⟩ :: fs →
      Step s .callback { s with frames := ⟨some e, rest⟩ :: fs }
  | markReadyIOHandled {s : LoopIO} {e : ReadyIOEntry} {rest : List ReadyIOEntry}
      {fs : List IOFrame} :
      s.frames = ⟨some e, rest⟩ :: fs →
      Step s .markReadyIOHandled { s.markReadyIOHandled e.fd with frames := ⟨none, rest⟩ :: fs }
  | leave {s : LoopIO} {fs : List IOFrame} :
      s.frames = ⟨none, []⟩ :: fs → Step s .leave { s with frames := fs }

/-- The condition on a step: an entry is not acknowledged while its descriptor has another
registration whose flag is set. -/
def Current : LoopIOStep → Prop
  | .markReadyIOHandled => ∀ e rest fs w, s.frames = ⟨some e, rest⟩ :: fs →
      s.watches e.fd = some w → w.callback = e.callback ∨ w.queued = false
  | _ => True

end Defs

variable {s s' : LoopIO} {fd g : FileDescriptor} {events : EventMask} {n : ℕ} {w : IOWatchEntry}
  {e : ReadyIOEntry} {es es' rest : List ReadyIOEntry} {fs : List IOFrame} {l : LoopIOStep}
  {ws : FileDescriptor → Option IOWatchEntry} {o : Option IOWatchEntry}

/-! ### Reading the table and the entries -/

/-- The flags of a descriptor that is watched. -/
theorem flags_of_watch (h : ws fd = some w) : flags ws fd = some (w.callback, w.queued) := by
  rw [flags, h]
  rfl

/-- The flags of the watch that has been changed. -/
theorem flags_update_self :
    flags (Function.update ws fd o) fd = o.map fun w => (w.callback, w.queued) := by
  rw [flags, Function.update_self]

/-- The flags of the others stay. -/
theorem flags_update_of_ne (hg : g ≠ fd) : flags (Function.update ws fd o) g = flags ws g := by
  rw [flags, Function.update_of_ne hg, flags]

/-- A change of a watch makes no negative descriptor watched. -/
theorem watched_update (h : ∀ g w, ws g = some w → 0 ≤ g) (hfd : 0 ≤ fd)
    (hg : Function.update ws fd o g = some w) : 0 ≤ g := by
  by_cases heq : g = fd
  · exact heq ▸ hfd
  · exact h g w ((Function.update_of_ne heq ..).symm.trans hg)

/-- The ready entries are faithful exactly if, as tickets, they are truthful. -/
theorem faithful_iff_truthful :
    s.Faithful ↔ Tickets.Truthful (flags s.watches) s.entriesFor := by
  constructor
  · intro h fd n f hf
    obtain ⟨w, hw, heq⟩ := Option.map_eq_some_iff.mp hf
    obtain ⟨rfl, rfl⟩ := Prod.mk.inj heq
    exact h fd w hw
  · intro h fd w hw
    exact h fd w.callback w.queued (flags_of_watch hw)

/-- An entry counts for its own registration only. -/
theorem countFor_of_perm_cons (h : es.Perm (e :: es')) :
    countFor es fd n = countFor es' fd n + if e.fd = fd ∧ e.callback = n then 1 else 0 := by
  rw [countFor, h.countP_eq, List.countP_cons, countFor]
  simp only [decide_eq_true_eq]

/-- The entry that is taken out counts one. -/
theorem countFor_of_perm_cons_self (h : es.Perm (e :: es')) :
    countFor es' e.fd e.callback + 1 = countFor es e.fd e.callback := by
  rw [countFor_of_perm_cons h, if_pos ⟨rfl, rfl⟩]

/-- The counts of the others stay. -/
theorem countFor_of_perm_cons_of_ne (h : es.Perm (e :: es'))
    (hne : ¬ (fd = e.fd ∧ n = e.callback)) : countFor es' fd n = countFor es fd n := by
  rw [countFor_of_perm_cons h, if_neg fun hand => hne ⟨hand.1.symm, hand.2.symm⟩, Nat.add_zero]

/-! ### The calls -/

/-- `registerIO` keeps the invariant. -/
theorem Inv.registerIO (h : s.Inv) : (s.registerIO fd events).Inv := by
  rw [ LoopIO.registerIO]
  split
  · exact h
  · rename_i hneg
    have hfd : 0 ≤ fd := Int.not_lt.mp hneg
    exact ⟨h.sound.enter (k := fd) flags_update_self fun g hg => flags_update_of_ne hg,
      fun g w => watched_update h.watched hfd, h.ready⟩

/-- `modifyIO` keeps it. -/
theorem Inv.modifyIO (h : s.Inv) : (s.modifyIO fd events).Inv := by
  rw [ LoopIO.modifyIO]
  split
  · exact h
  · rename_i hneg
    have hfd : 0 ≤ fd := Int.not_lt.mp hneg
    split
    · exact h
    · rename_i w hw
      refine ⟨h.sound.congr (fun g => ?_) fun _ _ => rfl,
        fun g w => watched_update h.watched hfd, h.ready⟩
      by_cases hg : g = fd
      · subst hg
        rw [flags_of_watch hw]
        exact flags_update_self
      · exact flags_update_of_ne hg

/-- The entries of the other descriptors are kept, and none is added. -/
theorem countFor_filter_of_ne (hg : g ≠ fd) :
    countFor (es.filter (·.fd ≠ fd)) g n = countFor es g n := by
  rw [countFor, countFor, List.countP_filter]
  refine List.countP_congr fun e _ => ?_
  simp only [Bool.and_eq_true, decide_eq_true_eq]
  exact ⟨fun hand => hand.1, fun hand => ⟨hand, fun heq => hg (hand.1.symm.trans heq)⟩⟩

/-- `unregisterIO` keeps it. -/
theorem Inv.unregisterIO (h : s.Inv) : (s.unregisterIO fd).Inv := by
  have happend : ∀ es₁ es₂ g n,
      countFor (es₁ ++ es₂) g n = countFor es₁ g n + countFor es₂ g n := by
    intro es₁ es₂ g n
    exact List.countP_append
  rw [ LoopIO.unregisterIO]
  split
  · exact h
  · rename_i hneg
    have hfd : 0 ≤ fd := Int.not_lt.mp hneg
    split
    · exact h
    · refine ⟨h.sound.leave (k := fd) flags_update_self (fun g hg => flags_update_of_ne hg) ?_ ?_,
        fun g w => watched_update h.watched hfd,
        fun e he => h.ready e (List.mem_filter.mp he).1⟩
      · intro g n hg
        rw [entriesFor, entriesFor, outstanding, outstanding, happend, happend,
          countFor_filter_of_ne hg]
      · intro n
        rw [entriesFor, entriesFor, outstanding, outstanding, happend, happend]
        exact Nat.add_le_add_right List.filter_sublist.countP_le _

/-! ### The passes of the I/O thread -/

/-- To queue a descriptor that is ready keeps it. -/
theorem Inv.queueReady (h : s.Inv) {event : FileDescriptor × EventMask} :
    (s.queueReady event).Inv := by
  rw [ LoopIO.queueReady]
  split
  · exact h
  · rename_i w hw
    split
    · exact h
    · rename_i hq
      have hfalse : w.queued = false := by simpa using hq
      let x : ReadyIOEntry := ⟨event.1, event.2, w.callback⟩
      have hperm : (s.readyIO ++ [x] ++ s.frames.flatMap fun f => f.running.toList ++ f.rest).Perm
          (x :: s.outstanding) := by
        rw [outstanding, List.append_assoc, List.singleton_append]
        exact List.perm_middle
      refine ⟨h.sound.issue (k := event.1) (n := w.callback) ?_ flags_update_self
        (fun g hg => flags_update_of_ne hg) (countFor_of_perm_cons_self hperm).symm
        fun g n hne => (countFor_of_perm_cons_of_ne hperm hne).symm,
        fun g w' => watched_update h.watched (h.watched _ w hw), fun e he => ?_⟩
      · rw [flags_of_watch hw, hfalse]
      · rcases List.mem_append.mp he with he | he
        · exact h.ready e he
        · rw [List.mem_singleton.mp he]
          exact h.watched _ w hw

/-- So does a pass over all that are ready. -/
theorem Inv.ioPass (h : s.Inv) {events : List (FileDescriptor × EventMask)} :
    (s.ioPass events).Inv := by
  rw [ LoopIO.ioPass]
  induction events generalizing s with
  | nil => exact h
  | cons event events ih => exact ih h.queueReady

/-! ### The owner's lists -/

/-- The owner moves entries from one list to another. -/
theorem Inv.rearrange (h : s.Inv) (hw : s'.watches = s.watches)
    (hr : s'.registrations = s.registrations) (hq : ∀ e ∈ s'.readyIO, e ∈ s.readyIO)
    (hp : s'.outstanding = s.outstanding) : s'.Inv where
  sound := by
    rw [hr, hw]
    refine h.sound.congr (fun g => rfl) fun g n => ?_
    rw [entriesFor, hp, entriesFor]
  watched := hw ▸ h.watched
  ready e he := h.ready e (hq e he)

/-- The owner goes on to the next entry of its list. -/
def acknowledged (s : LoopIO) (e : ReadyIOEntry) (rest : List ReadyIOEntry) (fs : List IOFrame) :
    LoopIO :=
  { s.markReadyIOHandled e.fd with frames := ⟨none, rest⟩ :: fs }

/-- `markReadyIOHandled` clears the flag of the watch, and no other. -/
theorem watches_markReadyIOHandled (hi : s.Inv) : (s.markReadyIOHandled fd).watches =
    Function.update s.watches fd ((s.watches fd).map fun w => { w with queued := false }) := by
  rw [markReadyIOHandled]
  split
  · rename_i hneg
    -- a negative descriptor is not watched
    have hnone : s.watches fd = none := by
      by_contra hsome
      obtain ⟨w, hw⟩ := Option.ne_none_iff_exists'.mp hsome
      exact absurd (hi.watched fd w hw) (Int.not_le.mpr hneg)
    rw [hnone]
    exact (Function.update_eq_self_iff.mpr hnone.symm).symm
  · rfl

/-- To acknowledge an entry makes no registration. -/
theorem registrations_acknowledged :
    (s.acknowledged e rest fs).registrations = s.registrations := by
  rw [acknowledged, markReadyIOHandled]
  split
  · rfl
  · rfl

/-- Nor does it change what is ready. -/
theorem readyIO_acknowledged : LoopIO.readyIO (s.acknowledged e rest fs) = s.readyIO := by
  rw [acknowledged, markReadyIOHandled]
  split
  · rfl
  · rfl

/-- The acknowledged entry is no longer outstanding. -/
theorem perm_acknowledged (hf : s.frames = ⟨some e, rest⟩ :: fs) :
    s.outstanding.Perm (e :: (s.acknowledged e rest fs).outstanding) := by
  rw [outstanding, outstanding, readyIO_acknowledged, hf, acknowledged, List.flatMap_cons,
    List.flatMap_cons]
  exact List.perm_middle

/-- It clears the flag of the descriptor of the entry. -/
theorem flags_acknowledged_self (hi : s.Inv) : flags (s.acknowledged e rest fs).watches e.fd =
    (flags s.watches e.fd).map fun x => (x.1, false) := by
  have hw : (s.acknowledged e rest fs).watches = _ := watches_markReadyIOHandled hi
  rw [hw, flags_update_self, flags, Option.map_map, Option.map_map]
  rfl

/-- The flags of the others stay. -/
theorem flags_acknowledged_of_ne (hi : s.Inv) (hg : g ≠ e.fd) :
    flags (s.acknowledged e rest fs).watches g = flags s.watches g := by
  have hw : (s.acknowledged e rest fs).watches = _ := watches_markReadyIOHandled hi
  rw [hw, flags_update_of_ne hg]

/-- **An acknowledgement leaves truthful flags iff it is current.** -/
theorem faithful_acknowledged_iff (hi : s.Inv) (hf : s.frames = ⟨some e, rest⟩ :: fs) :
    (s.acknowledged e rest fs).Faithful ↔
      ∀ w, s.watches e.fd = some w → w.callback = e.callback ∨ w.queued = false := by
  have hself : flags (s.acknowledged e rest fs).watches e.fd = _ := flags_acknowledged_self hi
  have hothers (g : FileDescriptor) (hg : g ≠ e.fd) :
      flags (s.acknowledged e rest fs).watches g = _ := flags_acknowledged_of_ne hi hg
  have hiff := Tickets.truthful_settleKey_iff (k := e.fd) (n := e.callback) hi.sound hself hothers
    (countFor_of_perm_cons_self (perm_acknowledged hf))
    fun g n hne => countFor_of_perm_cons_of_ne (perm_acknowledged hf) hne
  refine faithful_iff_truthful.trans (hiff.trans ⟨fun h w hw => ?_, fun h m f hm => ?_⟩)
  · exact h w.callback w.queued (flags_of_watch hw)
  · obtain ⟨w, hw, heq⟩ := Option.map_eq_some_iff.mp hm
    obtain ⟨rfl, rfl⟩ := Prod.mk.inj heq
    exact h w hw

/-- A current acknowledgement keeps the invariant. -/
theorem Inv.acknowledged (hi : s.Inv) (hf : s.frames = ⟨some e, rest⟩ :: fs)
    (hok : s.Current .markReadyIOHandled) : (s.acknowledged e rest fs).Inv where
  sound := by
    rw [registrations_acknowledged]
    constructor
    · exact faithful_iff_truthful.mp
        ((faithful_acknowledged_iff hi hf).mpr fun w hw => hok e rest fs w hf hw)
    · intro g m f hm
      by_cases hg : g = e.fd
      · subst hg
        rw [flags_acknowledged_self hi] at hm
        obtain ⟨⟨m', f'⟩, hm', heq⟩ := Option.map_eq_some_iff.mp hm
        obtain ⟨heq, -⟩ : m' = m ∧ false = f := Prod.mk.inj heq
        exact heq ▸ hi.sound.stamps e.fd m' f' hm'
      · exact hi.sound.stamps g m f ((flags_acknowledged_of_ne hi hg).symm.trans hm)
    · intro g m hm
      refine hi.sound.tickets g m ?_
      rw [entriesFor, countFor_of_perm_cons (perm_acknowledged hf)]
      exact Nat.add_pos_left hm _
  watched g w hw := by
    have hws : (s.acknowledged e rest fs).watches = _ := watches_markReadyIOHandled hi
    rw [hws] at hw
    by_cases hg : g = e.fd
    · subst hg
      rw [Function.update_self] at hw
      obtain ⟨v, hv, -⟩ := Option.map_eq_some_iff.mp hw
      exact hi.watched _ v hv
    · exact hi.watched g w ((Function.update_of_ne hg ..).symm.trans hw)
  ready x hx := hi.ready x (readyIO_acknowledged ▸ hx)

/-! ### The step lemma -/

/-- **The step lemma.** -/
theorem Inv.step (hi : s.Inv) (hok : s.Current l) (hst : Step s l s') : s'.Inv := by
  cases hst with
  | register => exact hi.registerIO
  | modify => exact hi.modifyIO
  | unregister => exact hi.unregisterIO
  | ioPass => exact hi.ioPass
  | takeReady =>
      refine hi.rearrange rfl rfl (fun e he => absurd he List.not_mem_nil) ?_
      rw [outstanding, takeReadyIO, outstanding, List.flatMap_cons]
      rfl
  | callback hf =>
      refine hi.rearrange rfl rfl (fun e he => he) ?_
      rw [outstanding, outstanding, hf, List.flatMap_cons, List.flatMap_cons]
      rfl
  | markReadyIOHandled hf => exact hi.acknowledged hf hok
  | leave hf =>
      refine hi.rearrange rfl rfl (fun e he => he) ?_
      rw [outstanding, outstanding, hf, List.flatMap_cons]
      rfl

/-! ### Runs -/

/-- A loop without watches is in order. -/
theorem inv_empty : ({} : LoopIO).Inv where
  sound := Tickets.sound_empty 0
  watched _ _ h := absurd h (by simp)
  ready _ h := absurd h List.not_mem_nil

/-- A step that leaves truthful flags behind was current. -/
theorem current_of_faithful (hi : s.Inv) (hst : Step s l s') (h : s'.Faithful) : s.Current l := by
  cases hst with
  | markReadyIOHandled hf =>
      intro e' rest' fs' w hf' hw
      obtain ⟨hhead, -⟩ := List.cons.inj (hf.symm.trans hf')
      obtain ⟨hrun, -⟩ := IOFrame.mk.inj hhead
      obtain rfl := Option.some.inj hrun
      exact (faithful_acknowledged_iff hi hf).mp h w hw
  | _ => trivial

/-- **No callback is queued twice, and no flag lies, exactly as long as acknowledgements are
current.** A run of a loop meets the condition at every step iff every step leaves a state behind in
which each watch has one ready entry queued, taken or being run for its registration if its flag is
set, and none otherwise. -/
theorem run_current_iff_faithful {ls : List LoopIOStep} :
    Run Step Current {} ls s ↔
      Run Step (fun v l => ∀ v', Step v l v' → v'.Faithful) {} ls s := by
  constructor
  · refine fun hrun => hrun.strengthen (I := Inv) (fun v l v' hi hok hst => ?_) inv_empty
    exact ⟨hi.step hok hst, fun u hu => faithful_iff_truthful.mpr (hi.step hok hu).sound.truthful⟩
  · refine fun hrun => hrun.strengthen (I := Inv) (fun v l v' hi hok hst => ?_) inv_empty
    have hcur := current_of_faithful hi hst (hok v' hst)
    exact ⟨hi.step hcur hst, hcur⟩

/-- A callback unregisters its descriptor and registers it again, and the descriptor becomes ready
before the callback has been acknowledged. -/
def reregistering : List LoopIOStep :=
  [.register 5 1, .ioPass [(5, 1)], .takeReady, .callback, .unregister 5, .register 5 1,
    .ioPass [(5, 1)], .markReadyIOHandled]

/-- **A callback is queued twice**: the acknowledgement of the first registration resets the flag of
the second one, whose entry is still queued, and the next pass queues another. -/
theorem queued_twice : ∃ s s' : LoopIO, Reaches Step {} reregistering s ∧ ¬ s.Faithful ∧
    Reaches Step s [.ioPass [(5, 1)]] s' ∧ s'.readyIO = [⟨5, 1, 1⟩, ⟨5, 1, 1⟩] ∧
    s'.watches 5 = some { events := 1, callback := 1, queued := true } := by
  refine ⟨_, _, .cons trivial .register (.cons trivial .ioPass (.cons trivial .takeReady
    (.cons trivial (.callback rfl) (.cons trivial .unregister (.cons trivial .register
    (.cons trivial .ioPass (.cons trivial (.markReadyIOHandled rfl) (.nil _)))))))), ?_,
    .single trivial .ioPass, rfl, rfl⟩
  intro h
  have hcount := h 5 { events := 1, callback := 1, queued := false } rfl
  exact absurd hcount (by decide)

end LoopIO

end SimplyNode
