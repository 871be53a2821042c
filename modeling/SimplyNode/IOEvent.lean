import SimplyNode.IoService

/-!
# Nodes that Watch a Descriptor

An `IOEvent` has a descriptor, an interest and a flag that says whether it is active, and keeps
a watch at its owner in step with them: every setter, and both hooks of a migration, change the
watch. The callback of a watch carries the number of the registration it was made for, so that
a readiness that arrives late is dropped.

The watches of an executor are in a table: an event loop has its own, and the strands of a
task pool share the one of the pool's `IoService`. Every operation inside the owner is one step,
a migration with its two hooks included; a setter that is called outside of the owner is posted to
it, and posted again while the node moves on. The executors are running. The callback of any
registration that was ever made may be called at any time, in the executor it was registered at.

## Main results

* `Inv.settle`: what an operation on one event has to do to the tables.
* `watches_follow_events`: as long as no two events that share a table hold one descriptor, the
  tables have exactly the watches that the active events want, and `handleEvents` is called for
  the current registration of an active event in its owner only.
* `foreign_watch`: a run in which two strands of a pool have events with one descriptor.
* `LoopIO.table_registerIO` and its companions: the tables of `LoopIO` and `IoService` are such
  tables.
-/

open Transition

namespace SimplyNode

/-! ### Tables of watches -/

/-- The watches of an executor: masks and callbacks, by descriptor. -/
abbrev WatchTable (κ : Type) := FileDescriptor → Option (EventMask × κ)

namespace WatchTable

variable {κ : Type} (t : WatchTable κ)

/-- `registerIO`. -/
def register (fd : FileDescriptor) (events : EventMask) (callback : κ) : WatchTable κ :=
  if fd < 0 then t else Function.update t fd (some (events, callback))

/-- `modifyIO`. -/
def modify (fd : FileDescriptor) (events : EventMask) : WatchTable κ :=
  Function.update t fd ((t fd).map fun w => (events, w.2))

/-- `unregisterIO`. -/
def unregister (fd : FileDescriptor) : WatchTable κ := Function.update t fd none

end WatchTable

/-- The table of a loop. -/
def LoopIO.table (s : LoopIO) : WatchTable ℕ := fun fd =>
  (s.watches fd).map fun w => (w.events, w.callback)

/-- The table of an `IoService`. -/
def IoService.table (s : IoService) : WatchTable ℕ := fun fd =>
  (s.watches fd).map fun w => (w.events, w.callback)

namespace LoopIO

variable {s : LoopIO} {fd : FileDescriptor} {events : EventMask}

/-- `EventLoop::registerIO`, as a change of the table. -/
theorem table_registerIO : (s.registerIO fd events).table =
    s.table.register fd events s.registrations := by
  rw [ registerIO, WatchTable.register]
  split
  · rfl
  · funext g
    simp only [table, Function.update_apply]
    split <;> rfl

/-- A negative descriptor has no watch, so the source need not look for one. -/
theorem Inv.watches_neg (h : s.Inv) (hfd : fd < 0) : s.watches fd = none := by
  cases hw : s.watches fd with
  | none => rfl
  | some w => exact absurd (h.watched fd w hw) (Int.not_le.mpr hfd)

/-- `EventLoop::modifyIO`, as a change of the table. -/
theorem table_modifyIO (h : s.Inv) : (s.modifyIO fd events).table = s.table.modify fd events := by
  have hnone (hw : s.watches fd = none) : s.table = s.table.modify fd events := by
    rw [WatchTable.modify, show s.table fd = none by rw [table, hw]; rfl, Option.map_none]
    exact (Function.update_eq_self_iff.mpr (by rw [table, hw]; rfl)).symm
  rw [ modifyIO]
  split
  · rename_i hneg
    exact hnone (h.watches_neg hneg)
  · split
    · rename_i hw
      exact hnone hw
    · rename_i w hw
      funext g
      simp only [table, WatchTable.modify, Function.update_apply]
      split
      · rw [hw]
        rfl
      · rfl

/-- `EventLoop::unregisterIO`, as a change of the table. -/
theorem table_unregisterIO (h : s.Inv) : (s.unregisterIO fd).table = s.table.unregister fd := by
  have hnone (hw : s.watches fd = none) : s.table = s.table.unregister fd :=
    (Function.update_eq_self_iff.mpr (by rw [table, hw]; rfl)).symm
  rw [ unregisterIO]
  split
  · rename_i hneg
    exact hnone (h.watches_neg hneg)
  · split
    · rename_i hw
      exact hnone hw
    · funext g
      simp only [table, WatchTable.unregister, Function.update_apply]
      split <;> rfl

end LoopIO

namespace IoService

variable {s : IoService} {strand : StrandId} {fd : FileDescriptor} {events : EventMask}
  {callback : ℕ}

/-- `IoService::registerIO`, as a change of the table. -/
theorem table_registerIO (hs : s.stopped = false) : (s.registerIO strand fd events callback).table =
    s.table.register fd events callback := by
  rw [ registerIO, WatchTable.register, hs, Bool.or_false]
  simp only [decide_eq_true_eq]
  split
  · rfl
  · funext g
    simp only [table, arm, Function.update_apply]
    split <;> rfl

/-- `IoService::modifyIO`, as a change of the table. -/
theorem table_modifyIO : (s.modifyIO fd events).table = s.table.modify fd events := by
  rw [ modifyIO]
  funext g
  simp only [WatchTable.modify, Function.update_apply]
  split
  · rename_i hw
    split
    · rename_i heq
      simp only [table, heq, hw, Option.map_none]
    · rfl
  · rename_i w hw
    split <;> simp only [table, arm, Function.update_apply] <;> split <;> simp [hw]

/-- `IoService::unregisterIO`, as a change of the table. -/
theorem table_unregisterIO : (s.unregisterIO fd).table = s.table.unregister fd := by
  rw [ unregisterIO]
  funext g
  simp only [WatchTable.unregister, Function.update_apply]
  split
  · rename_i hw
    split
    · rename_i heq
      simp only [table, heq, hw, Option.map_none]
    · rfl
  · simp only [table, Function.update_apply]
    split <;> rfl

end IoService

/-! ### Flags and masks -/

/-- `EPOLLIN`. -/
def epollIn : EventMask := 0x001

/-- `EPOLLOUT`. -/
def epollOut : EventMask := 0x004

/-- `EPOLLERR`. -/
def epollErr : EventMask := 0x008

/-- `EPOLLHUP`. -/
def epollHup : EventMask := 0x010

/-- `EPOLLRDHUP`. -/
def epollRdHup : EventMask := 0x2000

/-- `IOEventFlags`. -/
abbrev IOEventFlags := UInt32

namespace IOEventFlags

/-- Data available to read. -/
def read : IOEventFlags := 1

/-- The write buffer has space. -/
def write : IOEventFlags := 2

/-- An error condition. -/
def error : IOEventFlags := 4

/-- The peer closed the connection. -/
def hangUp : IOEventFlags := 8

end IOEventFlags

/-- `hasAny`. -/
def hasAny (flags mask : IOEventFlags) : Bool := flags &&& mask != 0

/-- `IOEvent::interestToNative`. -/
def interestToNative (flags : IOEventFlags) : EventMask :=
  let native := epollErr ||| epollHup
  let native := if hasAny flags .read then native ||| epollIn else native
  if hasAny flags .write then native ||| epollOut else native

/-- `IOEvent::nativeToInterest`. -/
def nativeToInterest (nativeEvents : EventMask) : IOEventFlags :=
  let flags : IOEventFlags := 0
  let flags := if nativeEvents &&& epollIn != 0 then flags ||| .read else flags
  let flags := if nativeEvents &&& epollOut != 0 then flags ||| .write else flags
  let flags := if nativeEvents &&& epollErr != 0 then flags ||| .error else flags
  if nativeEvents &&& epollHup != 0 || nativeEvents &&& epollRdHup != 0 then flags ||| .hangUp
  else flags

/-- The signals of an `IOEvent`. -/
inductive IOSignal
  | error
  | hangUp
  | readable
  | writable
  deriving DecidableEq

/-- `IOEvent::handleEvents`: what it emits, in order. -/
def handleEvents (nativeEvents : EventMask) : List IOSignal :=
  let flags := nativeToInterest nativeEvents
  (if hasAny flags .error then [.error] else []) ++
    (if hasAny flags .hangUp then [.hangUp] else []) ++
    (if hasAny flags .read then [.readable] else []) ++
    if hasAny flags .write then [.writable] else []

/-! ### Events and their owners -/

/-- An `IOEvent`: its own members, and the owner of the node. -/
structure IOEvent where
  fd : FileDescriptor := -1
  interest : IOEventFlags := .read
  active : Bool := false
  registrationGeneration : UInt64 := 0
  owner : ExecutorId
  deriving DecidableEq

/-- What a dispatch callback has captured. Events are numbered and the numbers are not used
again, as with the generations behind a `NodePtr`. -/
structure IORegistration where
  event : ℕ
  fd : FileDescriptor
  generation : UInt64
  deriving DecidableEq

/-- A setter. (`start(flags)` is `setInterest` followed by `start()`.) -/
inductive IOCall
  | setDescriptor (fd : FileDescriptor)
  | setInterest (flags : IOEventFlags)
  | start
  | stop
  deriving DecidableEq

/-- A call of `handleEvents`: where it was made, by which callback, what it emitted, and what the
event was like. -/
structure HandledEvents where
  executor : ExecutorId
  registration : IORegistration
  signals : List IOSignal
  event : IOEvent
  deriving DecidableEq

/-- Who has the table: a loop its own, the strands of a pool that of the pool. -/
abbrev WatchOwner := ThreadId ⊕ PoolId

/-- The events, the tables, and what is under way. `registered` has the callback of every
registration that was ever made. -/
structure IOEvents where
  events : ℕ → Option IOEvent := fun _ => none
  created : ℕ := 0
  tables : WatchOwner → WatchTable IORegistration := fun _ _ => none
  registered : List (ExecutorId × IORegistration) := []
  posted : List (ExecutorId × ℕ × IOCall) := []
  closed : List FileDescriptor := []
  handled : List HandledEvents := []

/-- What can happen next. -/
inductive IOEventStep
  | create (owner : ExecutorId)
  /-- A call from the tasks of an executor, or from elsewhere. -/
  | call (from_ : Option ExecutorId) (event : ℕ) (call : IOCall)
  /-- An executor runs a posted call. -/
  | runPosted (position : ℕ)
  /-- `Node::applyMoveTo`. -/
  | applyMoveTo (event : ℕ) (target : ExecutorId)
  /-- The destructor, inside the owner. -/
  | destroy (event : ℕ)
  /-- The callback of a registration is called. -/
  | ready (executor : ExecutorId) (registration : IORegistration) (nativeEvents : EventMask)
  deriving DecidableEq

/-- The table of an executor. -/
def watchOwner (poolOf : StrandId → PoolId) : ExecutorId → WatchOwner
  | .loop thread => .inl thread
  | .strand id => .inr (poolOf id)

namespace IOEvents

variable (poolOf : StrandId → PoolId)

section Defs

variable (s : IOEvents)

/-- The table of an executor, changed. -/
def withTable (e : ExecutorId) (f : WatchTable IORegistration → WatchTable IORegistration) :
    IOEvents :=
  { s with
    tables := Function.update s.tables (watchOwner poolOf e) (f (s.tables (watchOwner poolOf e))) }

/-- `Executor::registerIO`. -/
def registerIO (e : ExecutorId) (fd : FileDescriptor) (events : EventMask)
    (callback : IORegistration) : IOEvents :=
  { s.withTable poolOf e (·.register fd events callback) with
    registered := (e, callback) :: s.registered }

/-- `Executor::modifyIO`. -/
def modifyIO (e : ExecutorId) (fd : FileDescriptor) (events : EventMask) : IOEvents :=
  s.withTable poolOf e (·.modify fd events)

/-- `Executor::unregisterIO`. -/
def unregisterIO (e : ExecutorId) (fd : FileDescriptor) : IOEvents :=
  s.withTable poolOf e (·.unregister fd)

/-- `Executor::hasIOWatch`. -/
def hasIOWatch (e : ExecutorId) (fd : FileDescriptor) : Bool :=
  (s.tables (watchOwner poolOf e) fd).isSome

/-- The members of an event, replaced. -/
def setEvent (i : ℕ) (ev : Option IOEvent) : IOEvents :=
  { s with events := Function.update s.events i ev }

/-- `IOEvent::IOEvent`: the executor of the constructor's thread becomes the owner. -/
def create (owner : ExecutorId) : IOEvents :=
  { s.setEvent s.created (some { owner }) with created := s.created + 1 }

/-- `::close`. -/
def close (fd : FileDescriptor) : IOEvents := { s with closed := fd :: s.closed }

/-- `IOEvent::makeDispatchCallback`. -/
def makeDispatchCallback (i : ℕ) (fd : FileDescriptor) (generation : UInt64) : IORegistration :=
  { event := i, fd, generation }

/-- `IOEvent::syncRegistration`. -/
def syncRegistration (i : ℕ) (ev : IOEvent) (wasActive : Bool) : IOEvents :=
  if ev.fd < 0 then s
  else if wasActive && s.hasIOWatch poolOf ev.owner ev.fd then
    s.modifyIO poolOf ev.owner ev.fd (interestToNative ev.interest)
  else if ev.active then
    s.registerIO poolOf ev.owner ev.fd (interestToNative ev.interest)
      (makeDispatchCallback i ev.fd ev.registrationGeneration)
  else s

/-- `IOEvent::setDescriptor`. -/
def setDescriptor (i : ℕ) (ev : IOEvent) (fd : FileDescriptor) : IOEvents :=
  if ev.fd = fd then s
  else
    let ev' := { ev with fd, registrationGeneration := ev.registrationGeneration + 1 }
    let s := s.setEvent i (some ev')
    let s := if ev.active && 0 ≤ ev.fd then s.unregisterIO poolOf ev.owner ev.fd else s
    let s :=
      if ev.active && 0 ≤ fd then
        s.registerIO poolOf ev.owner fd (interestToNative ev.interest)
          (makeDispatchCallback i fd ev'.registrationGeneration)
      else s
    if 0 ≤ ev.fd then s.close ev.fd else s

/-- `IOEvent::setInterest`. -/
def setInterest (i : ℕ) (ev : IOEvent) (flags : IOEventFlags) : IOEvents :=
  if ev.interest = flags then s
  else
    let ev' := { ev with interest := flags }
    (s.setEvent i (some ev')).syncRegistration poolOf i ev' ev.active

/-- The members of an event behind `start()`. -/
def started (ev : IOEvent) : IOEvent :=
  if ev.active then ev
  else { ev with active := true, registrationGeneration := ev.registrationGeneration + 1 }

/-- `IOEvent::start`. -/
def start (i : ℕ) (ev : IOEvent) : IOEvents :=
  (s.setEvent i (some (started ev))).syncRegistration poolOf i (started ev) !ev.active

/-- The members of an event behind `stop()`. -/
def stopped (ev : IOEvent) : IOEvent :=
  if ev.active then
    { ev with active := false, registrationGeneration := ev.registrationGeneration + 1 }
  else ev

/-- `IOEvent::stop`. -/
def stop (i : ℕ) (ev : IOEvent) : IOEvents :=
  let s := s.setEvent i (some (stopped ev))
  if ev.active && 0 ≤ ev.fd then s.unregisterIO poolOf ev.owner ev.fd else s

/-- A setter, inside the owner. -/
def perform (i : ℕ) (ev : IOEvent) : IOCall → IOEvents
  | .setDescriptor fd => s.setDescriptor poolOf i ev fd
  | .setInterest flags => s.setInterest poolOf i ev flags
  | .start => s.start poolOf i ev
  | .stop => s.stop poolOf i ev

/-- A setter: outside of the owner it posts itself there. -/
def call (from_ : Option ExecutorId) (i : ℕ) (ev : IOEvent) (c : IOCall) : IOEvents :=
  if from_ ≠ some ev.owner then { s with posted := s.posted ++ [(ev.owner, i, c)] }
  else s.perform poolOf i ev c

/-- `IOEvent::onAboutToMoveToThread`. -/
def onAboutToMoveToThread (ev : IOEvent) : IOEvents :=
  if ev.active && 0 ≤ ev.fd then s.unregisterIO poolOf ev.owner ev.fd else s

/-- `IOEvent::onMovedToThread`. -/
def onMovedToThread (i : ℕ) (ev : IOEvent) : IOEvents :=
  let ev' := { ev with registrationGeneration := ev.registrationGeneration + 1 }
  let s := s.setEvent i (some ev')
  if ev'.active && 0 ≤ ev'.fd then
    s.registerIO poolOf ev'.owner ev'.fd (interestToNative ev'.interest)
      (makeDispatchCallback i ev'.fd ev'.registrationGeneration)
  else s

/-- `Node::applyMoveTo`, of the event itself. -/
def applyMoveTo (i : ℕ) (ev : IOEvent) (target : ExecutorId) : IOEvents :=
  if ev.owner = target then s
  else
    let s := s.onAboutToMoveToThread poolOf ev
    let ev' := { ev with owner := target }
    (s.setEvent i (some ev')).onMovedToThread poolOf i ev'

/-- `IOEvent::~IOEvent`. -/
def destroy (i : ℕ) (ev : IOEvent) : IOEvents :=
  let s := (s.stop poolOf i ev).setEvent i none
  if 0 ≤ ev.fd then s.close ev.fd else s

/-- `IOEvent::isRegistrationCurrent`. -/
def isRegistrationCurrent (ev : IOEvent) (r : IORegistration) : Bool :=
  ev.fd = r.fd && ev.registrationGeneration = r.generation && ev.active

/-- The callback that `IOEvent::makeDispatchCallback` makes, called in an executor. -/
def dispatch (e : ExecutorId) (r : IORegistration) (nativeEvents : EventMask) : IOEvents :=
  match s.events r.event with
  | none => s
  | some ev =>
      if ev.owner ≠ e then s
      else if isRegistrationCurrent ev r then
        { s with handled := s.handled ++ [⟨e, r, handleEvents nativeEvents, ev⟩] }
      else s

/-- **One step of a run.** -/
inductive Step : IOEvents → IOEventStep → IOEvents → Prop
  | create {s : IOEvents} {owner : ExecutorId} :
      Step s (.create owner) (s.create owner)
  | call {s : IOEvents} {from_ : Option ExecutorId} {i : ℕ} {ev : IOEvent} {c : IOCall} :
      s.events i = some ev → Step s (.call from_ i c) (s.call poolOf from_ i ev c)
  | runPosted {s : IOEvents} {k i : ℕ} {e : ExecutorId} {ev : IOEvent} {c : IOCall} :
      s.posted[k]? = some (e, i, c) → s.events i = some ev →
      Step s (.runPosted k)
        ({ s with posted := s.posted.eraseIdx k }.call poolOf (some e) i ev c)
  /-- The `NodePtr` has expired. -/
  | dropPosted {s : IOEvents} {k i : ℕ} {e : ExecutorId} {c : IOCall} :
      s.posted[k]? = some (e, i, c) → s.events i = none →
      Step s (.runPosted k) { s with posted := s.posted.eraseIdx k }
  | applyMoveTo {s : IOEvents} {i : ℕ} {ev : IOEvent} {target : ExecutorId} :
      s.events i = some ev → Step s (.applyMoveTo i target) (s.applyMoveTo poolOf i ev target)
  | destroy {s : IOEvents} {i : ℕ} {ev : IOEvent} :
      s.events i = some ev → Step s (.destroy i) (s.destroy poolOf i ev)
  | ready {s : IOEvents} {e : ExecutorId} {r : IORegistration} {nativeEvents : EventMask} :
      (e, r) ∈ s.registered → Step s (.ready e r nativeEvents) (s.dispatch e r nativeEvents)

/-- No two events with one and the same owner, as far as `owner` tells them apart, hold one
descriptor. -/
def Distinct {κ : Type} (owner : ExecutorId → κ) : Prop :=
  ∀ i j ev ev', s.events i = some ev → s.events j = some ev' → owner ev.owner = owner ev'.owner →
    ev.fd = ev'.fd → 0 ≤ ev.fd → i = j

/-- The watch an active event has for itself. -/
def watchOf (i : ℕ) (ev : IOEvent) : EventMask × IORegistration :=
  (interestToNative ev.interest, makeDispatchCallback i ev.fd ev.registrationGeneration)

/-- The watch an event wants at a place, if it does. -/
def wanted (i : ℕ) (ev : Option IOEvent) (t : WatchOwner) (g : FileDescriptor) :
    Option (EventMask × IORegistration) :=
  match ev with
  | none => none
  | some ev =>
      if watchOwner poolOf ev.owner = t ∧ ev.fd = g ∧ ev.active ∧ 0 ≤ g then some (watchOf i ev)
      else none

/-- What the table has at a place when an event has gone from `o` to `o'`. -/
def settled (i : ℕ) (o o' : Option IOEvent) (t : WatchOwner) (g : FileDescriptor)
    (before : Option (EventMask × IORegistration)) : Option (EventMask × IORegistration) :=
  (wanted poolOf i o' t g).or (if (wanted poolOf i o t g).isSome then none else before)

/-- **The invariant.** The watches are the wanted ones, and no number has been given away that
is not counted. -/
structure Inv : Prop where
  watch : ∀ t g w, s.tables t g = some w ↔ ∃ i, wanted poolOf i (s.events i) t g = some w
  created : ∀ i ev, s.events i = some ev → i < s.created

/-- The calls of `handleEvents` were made for current registrations of active events in their
owners. -/
def Filtered : Prop :=
  ∀ h ∈ s.handled, h.event.owner = h.executor ∧ h.event.active = true ∧
    h.event.fd = h.registration.fd ∧ h.event.registrationGeneration = h.registration.generation

end Defs

variable {poolOf : StrandId → PoolId} {s s' : IOEvents} {i j : ℕ} {ev : IOEvent}
  {o : Option IOEvent} {e : ExecutorId} {t : WatchOwner} {g fd : FileDescriptor}
  {events : EventMask} {callback : IORegistration} {w : EventMask × IORegistration}
  {l : IOEventStep} {ls : List IOEventStep}

/-! ### Reading the tables -/

/-- A change concerns the table of the executor only. -/
theorem tables_withTable {f : WatchTable IORegistration → WatchTable IORegistration} :
    (s.withTable poolOf e f).tables t g =
      if t = watchOwner poolOf e then f (s.tables t) g else s.tables t g := by
  simp only [withTable, Function.update_apply]
  split
  · rename_i heq
    rw [heq]
  · rfl

/-- What the tables hold after `registerIO`. -/
@[simp] theorem tables_registerIO (hfd : 0 ≤ fd) :
    (s.registerIO poolOf e fd events callback).tables t g =
      if t = watchOwner poolOf e ∧ g = fd then some (events, callback) else s.tables t g := by
  refine (tables_withTable (f := (·.register fd events callback))).trans ?_
  rw [WatchTable.register, if_neg (Int.not_lt.mpr hfd), Function.update_apply]
  split_ifs <;> simp_all

/-- What they hold after `modifyIO`. -/
@[simp] theorem tables_modifyIO :
    (s.modifyIO poolOf e fd events).tables t g =
      if t = watchOwner poolOf e ∧ g = fd then (s.tables t g).map fun w => (events, w.2)
      else s.tables t g := by
  rw [ modifyIO, tables_withTable, WatchTable.modify, Function.update_apply]
  split_ifs <;> simp_all

/-- What they hold after `unregisterIO`. -/
@[simp] theorem tables_unregisterIO :
    (s.unregisterIO poolOf e fd).tables t g =
      if t = watchOwner poolOf e ∧ g = fd then none else s.tables t g := by
  rw [ unregisterIO, tables_withTable, WatchTable.unregister, Function.update_apply]
  split_ifs <;> simp_all

/-- A change of an event leaves the tables as they are. -/
@[simp] theorem tables_setEvent : (s.setEvent i o).tables = s.tables := rfl

/-- What is wanted: the watch of an active event at its owner. -/
theorem wanted_eq_some :
    wanted poolOf i o t g = some w ↔
      ∃ ev, o = some ev ∧ watchOwner poolOf ev.owner = t ∧ ev.fd = g ∧ ev.active = true ∧ 0 ≤ g ∧
        w = watchOf i ev := by
  cases o with
  | none => simp [wanted]
  | some ev =>
    simp only [wanted, Option.ite_none_right_eq_some, Option.some.injEq, exists_eq_left']
    constructor
    · rintro ⟨⟨ht, hg, hact, hnn⟩, rfl⟩
      exact ⟨ht, hg, hact, hnn, rfl⟩
    · rintro ⟨ht, hg, hact, hnn, rfl⟩
      exact ⟨⟨ht, hg, hact, hnn⟩, rfl⟩

/-- Two events cannot want a watch at one place. -/
theorem Distinct.eq_of_wanted {w' : EventMask × IORegistration}
    (hd : s.Distinct (watchOwner poolOf))
    (hi : wanted poolOf i (s.events i) t g = some w)
    (hj : wanted poolOf j (s.events j) t g = some w') : i = j := by
  obtain ⟨ev, hev, rfl, rfl, _, hnn, _⟩ := wanted_eq_some.mp hi
  obtain ⟨ev', hev', ht, hg, _⟩ := wanted_eq_some.mp hj
  exact hd i j ev ev' hev hev' ht.symm hg.symm hnn

/-- An active event has its watch. -/
theorem Inv.watch_of_active (h : s.Inv poolOf) (hev : s.events i = some ev)
    (hact : ev.active = true) (hfd : 0 ≤ ev.fd) :
    s.tables (watchOwner poolOf ev.owner) ev.fd = some (watchOf i ev) :=
  (h.watch _ _ _).mpr ⟨i, wanted_eq_some.mpr ⟨ev, hev, rfl, rfl, hact, hfd, rfl⟩⟩

/-- There is no watch for an event that wants none. -/
theorem Inv.no_watch (h : s.Inv poolOf) (hd : s.Distinct (watchOwner poolOf))
    (hev : s.events i = some ev) (hact : ¬ (ev.active && decide (0 ≤ ev.fd)) = true) :
    s.tables (watchOwner poolOf ev.owner) ev.fd = none := by
  by_contra hne
  obtain ⟨w, hw⟩ := Option.ne_none_iff_exists'.mp hne
  obtain ⟨j, hj⟩ := (h.watch _ _ _).mp hw
  obtain ⟨ev', hev', ht, hg, hact', hnn, _⟩ := wanted_eq_some.mp hj
  obtain rfl := hd i j ev ev' hev hev' ht.symm hg.symm hnn
  obtain rfl := Option.some.inj (hev.symm.trans hev')
  exact hact (by rw [hact', decide_eq_true hnn]; rfl)

/-! ### One event changes -/

/-- An operation on one event has to put in what the event wants now, and to take out what it
wanted before. -/
theorem Inv.settle (h : s.Inv poolOf) (hd : s.Distinct (watchOwner poolOf))
    (hd' : s'.Distinct (watchOwner poolOf))
    (hevents : ∀ j, j ≠ i → s'.events j = s.events j)
    (htables : ∀ t g, s'.tables t g =
      settled poolOf i (s.events i) (s'.events i) t g (s.tables t g))
    (hcreated : s.created ≤ s'.created)
    (hi : ∀ ev, s'.events i = some ev → i < s'.created) : s'.Inv poolOf where
  watch t g w := by
    rw [htables, settled]
    cases hnew : wanted poolOf i (s'.events i) t g with
    | some w' =>
      rw [Option.some_or, Option.some.injEq]
      constructor
      · rintro rfl
        exact ⟨i, hnew⟩
      · rintro ⟨j, hj⟩
        obtain rfl := hd'.eq_of_wanted hnew hj
        exact Option.some.inj (hnew.symm.trans hj)
    | none =>
      rw [Option.none_or]
      cases hold : wanted poolOf i (s.events i) t g with
      | some w' =>
        rw [Option.isSome_some, if_pos rfl]
        refine iff_of_false nofun ?_
        rintro ⟨j, hj⟩
        have hne : j ≠ i := by
          rintro rfl
          rw [hnew] at hj
          exact nomatch hj
        rw [hevents j hne] at hj
        exact hne (hd.eq_of_wanted hj hold)
      | none =>
        rw [Option.isSome_none, if_neg Bool.false_ne_true, h.watch]
        constructor
        · rintro ⟨j, hj⟩
          have hne : j ≠ i := by
            rintro rfl
            rw [hold] at hj
            exact nomatch hj
          exact ⟨j, (hevents j hne).symm ▸ hj⟩
        · rintro ⟨j, hj⟩
          have hne : j ≠ i := by
            rintro rfl
            rw [hnew] at hj
            exact nomatch hj
          exact ⟨j, hevents j hne ▸ hj⟩
  created j ev hj := by
    by_cases hne : j = i
    · subst hne
      exact hi ev hj
    · exact Nat.lt_of_lt_of_le (h.created j ev (hevents j hne ▸ hj)) hcreated

/-- `s'` is `s` with the event `i` changed to `o'`, and the tables with it. -/
structure Changed (poolOf : StrandId → PoolId) (i : ℕ) (o' : Option IOEvent) (s s' : IOEvents) :
    Prop where
  events : s'.events = Function.update s.events i o'
  created : s'.created = s.created
  tables : ∀ t g, s'.tables t g =
    settled poolOf i (s.events i) o' t g (s.tables t g)

/-- What has changed for one event only keeps the invariant. -/
theorem Changed.inv (hc : Changed poolOf i o s s') (h : s.Inv poolOf)
    (hd : s.Distinct (watchOwner poolOf)) (hd' : s'.Distinct (watchOwner poolOf))
    (hev : s.events i = some ev) : s'.Inv poolOf := by
  refine h.settle (i := i) hd hd' (fun j hj => ?_) (fun t g => ?_)
    (Nat.le_of_eq hc.created.symm) fun ev' _ => ?_
  · rw [hc.events, Function.update_of_ne hj]
  · rw [hc.tables, hc.events, Function.update_self]
  · exact Nat.lt_of_lt_of_eq (h.created i ev hev) hc.created.symm

/-- An active event wants a watch at its owner. -/
theorem wanted_here (hact : (ev.active && decide (0 ≤ ev.fd)) = true) :
    wanted poolOf i (some ev) (watchOwner poolOf ev.owner) ev.fd = some (watchOf i ev) := by
  rw [Bool.and_eq_true, decide_eq_true_eq] at hact
  exact if_pos ⟨rfl, rfl, hact⟩

/-- It wants none elsewhere. -/
theorem wanted_elsewhere (h : ¬ (t = watchOwner poolOf ev.owner ∧ g = ev.fd)) :
    wanted poolOf i (some ev) t g = none :=
  if_neg fun hand => h ⟨hand.1.symm, hand.2.1.symm⟩

/-- An event that is not active wants none. -/
theorem wanted_of_inactive (hact : ¬ (ev.active && decide (0 ≤ ev.fd)) = true) :
    wanted poolOf i (some ev) t g = none := by
  refine if_neg ?_
  rintro ⟨-, rfl, hand⟩
  exact hact (by rw [Bool.and_eq_true, decide_eq_true_eq]; exact hand)

/-- Where an event has wanted a watch there is none any more. -/
theorem tables_dropped (ev : IOEvent) :
    (if ev.active && 0 ≤ ev.fd then s.unregisterIO poolOf ev.owner ev.fd else s).tables t g =
      if (wanted poolOf i (some ev) t g).isSome then none else s.tables t g := by
  by_cases hact : (ev.active && decide (0 ≤ ev.fd)) = true
  · rw [if_pos hact, tables_unregisterIO]
    by_cases heq : t = watchOwner poolOf ev.owner ∧ g = ev.fd
    · obtain ⟨rfl, rfl⟩ := heq
      rw [wanted_here hact, if_pos ⟨rfl, rfl⟩, if_pos Option.isSome_some]
    · rw [if_neg heq, wanted_elsewhere heq]
      rfl
  · rw [if_neg hact, wanted_of_inactive hact]
    rfl

/-- Where an event wants a watch there is one. -/
theorem tables_made (ev : IOEvent) :
    (if ev.active && 0 ≤ ev.fd then
      s.registerIO poolOf ev.owner ev.fd (interestToNative ev.interest)
        (makeDispatchCallback i ev.fd ev.registrationGeneration)
      else s).tables t g = (wanted poolOf i (some ev) t g).or (s.tables t g) := by
  by_cases hact : (ev.active && decide (0 ≤ ev.fd)) = true
  · have hfd : 0 ≤ ev.fd := of_decide_eq_true (Bool.and_eq_true_iff.mp hact).2
    rw [if_pos hact, tables_registerIO hfd]
    by_cases heq : t = watchOwner poolOf ev.owner ∧ g = ev.fd
    · obtain ⟨rfl, rfl⟩ := heq
      rw [wanted_here hact, if_pos ⟨rfl, rfl⟩]
      rfl
    · rw [if_neg heq, wanted_elsewhere heq]
      rfl
  · rw [if_neg hact, wanted_of_inactive hact]
    rfl

/-- `setDescriptor` changes things for this event only. -/
theorem changed_setDescriptor (hev : s.events i = some ev) (hne : ev.fd ≠ fd) :
    Changed poolOf i
      (some { ev with fd, registrationGeneration := ev.registrationGeneration + 1 }) s
      (s.setDescriptor poolOf i ev fd) := by
  rw [setDescriptor, if_neg hne]
  refine ⟨?_, ?_, fun t g => ?_⟩
  · dsimp only
    split <;> split <;> split <;> rfl
  · dsimp only
    split <;> split <;> split <;> rfl
  · have hclose (r : IOEvents) : (if 0 ≤ ev.fd then r.close ev.fd else r).tables = r.tables := by
      split <;> rfl
    rw [hev, hclose, settled]
    refine (tables_made { ev with
      fd, registrationGeneration := ev.registrationGeneration + 1 }).trans ?_
    rw [tables_dropped (i := i), tables_setEvent]

/-- Without a change the table keeps what it holds. -/
theorem settled_self {before : Option (EventMask × IORegistration)} :
    settled poolOf i o o t g before = (wanted poolOf i o t g).or before := by
  rw [settled]
  cases wanted poolOf i o t g <;> rfl

/-- An event that was not active has left nothing behind. -/
theorem settled_of_inactive {before : Option (EventMask × IORegistration)}
    (hact : ¬ (ev.active && decide (0 ≤ ev.fd)) = true) :
    settled poolOf i (some ev) o t g before = (wanted poolOf i o t g).or before := by
  rw [settled, wanted_of_inactive hact]
  rfl

/-- `syncRegistration` leaves the events as they are. -/
theorem events_syncRegistration {wasActive : Bool} :
    (s.syncRegistration poolOf i ev wasActive).events = s.events := by
  rw [syncRegistration]
  split_ifs <;> rfl

/-- It creates none. -/
theorem created_syncRegistration {wasActive : Bool} :
    (s.syncRegistration poolOf i ev wasActive).created = s.created := by
  rw [syncRegistration]
  split_ifs <;> rfl

/-- If there is no watch to be modified, `syncRegistration` makes one. -/
theorem tables_syncRegistration {wasActive : Bool}
    (h : (wasActive && s.hasIOWatch poolOf ev.owner ev.fd) = false) :
    (s.syncRegistration poolOf i ev wasActive).tables t g =
      (wanted poolOf i (some ev) t g).or (s.tables t g) := by
  rw [syncRegistration, h, ← tables_made]
  by_cases hfd : ev.fd < 0
  · rw [if_pos hfd, if_neg]
    simp [Int.not_le.mpr hfd]
  · rw [if_neg hfd, if_neg Bool.false_ne_true]
    simp [Int.not_lt.mp hfd]

/-- `setInterest` changes things for this event only. -/
theorem changed_setInterest {flags : IOEventFlags} (h : s.Inv poolOf)
    (hd : s.Distinct (watchOwner poolOf)) (hev : s.events i = some ev) (hne : ev.interest ≠ flags) :
    Changed poolOf i (some { ev with interest := flags }) s
      (s.setInterest poolOf i ev flags) := by
  rw [setInterest, if_neg hne]
  refine ⟨events_syncRegistration, created_syncRegistration, fun t g => ?_⟩
  rw [hev]
  by_cases hact : (ev.active && decide (0 ≤ ev.fd)) = true
  · -- the watch is there, and gets the new mask
    obtain ⟨hon, hfd⟩ := Bool.and_eq_true_iff.mp hact
    have hw := h.watch_of_active hev hon (of_decide_eq_true hfd)
    have hhas : s.hasIOWatch poolOf ev.owner ev.fd = true := by
      rw [hasIOWatch, hw]
      rfl
    have hwant : (wanted poolOf i (some { ev with interest := flags })
        (watchOwner poolOf ev.owner) ev.fd) = some (watchOf i { ev with interest := flags }) :=
      wanted_here hact
    dsimp only
    rw [syncRegistration, if_neg (Int.not_lt.mpr (of_decide_eq_true hfd)), if_pos, tables_modifyIO,
      tables_setEvent]
    · by_cases heq : t = watchOwner poolOf ev.owner ∧ g = ev.fd
      · obtain ⟨rfl, rfl⟩ := heq
        rw [if_pos ⟨rfl, rfl⟩, hw, settled, hwant]
        rfl
      · have hnew : wanted poolOf i (some { ev with interest := flags }) t g = none :=
          wanted_elsewhere heq
        rw [if_neg heq, settled, hnew, wanted_elsewhere heq]
        rfl
    · rw [hon]
      exact hhas
  · rw [settled_of_inactive hact]
    refine tables_syncRegistration ?_
    rw [hasIOWatch, tables_setEvent, h.no_watch hd hev hact]
    exact Bool.and_false _

/-- `start` changes things for this event only. -/
theorem changed_start (h : s.Inv poolOf) (hd : s.Distinct (watchOwner poolOf))
    (hev : s.events i = some ev) :
    Changed poolOf i (some (started ev)) s (s.start poolOf i ev) := by
  refine ⟨events_syncRegistration, created_syncRegistration, fun t g => ?_⟩
  rw [hev, start]
  cases hact : ev.active with
  | true =>
    rw [started, if_pos hact, settled_self]
    exact tables_syncRegistration rfl
  | false =>
    rw [settled_of_inactive (by simp [hact])]
    refine tables_syncRegistration ?_
    rw [started, if_neg (by simp [hact])]
    have hw := h.no_watch hd hev (by simp [hact])
    rw [hasIOWatch, tables_setEvent, hw]
    rfl

/-- `stop` changes things for this event only. -/
theorem changed_stop (hev : s.events i = some ev) :
    Changed poolOf i (some (stopped ev)) s (s.stop poolOf i ev) := by
  have hoff : ¬ ((stopped ev).active && decide (0 ≤ (stopped ev).fd)) = true := by
    rw [stopped]
    split
    · simp
    · rename_i hact
      simp [hact]
  refine ⟨?_, ?_, fun t g => ?_⟩
  · rw [stop]
    split <;> rfl
  · rw [stop]
    split <;> rfl
  · rw [hev, stop, tables_dropped (i := i), settled, wanted_of_inactive hoff, tables_setEvent]
    rfl

/-- A move changes things for this event only. -/
theorem changed_applyMoveTo {target : ExecutorId} (hev : s.events i = some ev)
    (hne : ev.owner ≠ target) :
    Changed poolOf i (some { ev with
      owner := target, registrationGeneration := ev.registrationGeneration + 1 }) s
      (s.applyMoveTo poolOf i ev target) := by
  rw [applyMoveTo, if_neg hne, onAboutToMoveToThread, onMovedToThread]
  refine ⟨?_, ?_, fun t g => ?_⟩
  · dsimp only
    split <;> simp [setEvent, registerIO, unregisterIO, withTable]
  · dsimp only
    split <;> rfl
  · rw [hev, settled]
    refine (tables_made { ev with
      owner := target, registrationGeneration := ev.registrationGeneration + 1 }).trans ?_
    rw [tables_setEvent, tables_setEvent, tables_dropped (i := i)]

/-- The destructor changes things for this event only. -/
theorem changed_destroy (hev : s.events i = some ev) :
    Changed poolOf i none s (s.destroy poolOf i ev) := by
  have hstop : Changed poolOf i (some (stopped ev)) s (s.stop poolOf i ev) := changed_stop hev
  rw [destroy]
  refine ⟨?_, ?_, fun t g => ?_⟩
  · have : ((s.stop poolOf i ev).setEvent i none).events = Function.update s.events i none := by
      rw [setEvent, hstop.events, Function.update_idem]
    split
    · exact this
    · exact this
  · split
    · exact hstop.created
    · exact hstop.created
  · have hclose (r : IOEvents) : (if 0 ≤ ev.fd then r.close ev.fd else r).tables = r.tables := by
      split <;> rfl
    rw [hev, hclose, tables_setEvent, stop, tables_dropped (i := i), tables_setEvent]
    rfl

/-! ### Steps and runs -/

/-- A posted call changes no event and no table. -/
theorem Inv.posted {posted : List (ExecutorId × ℕ × IOCall)} (h : s.Inv poolOf) :
    Inv poolOf { s with posted } :=
  ⟨h.watch, h.created⟩

/-- What a call does keeps the invariant. -/
theorem Inv.perform {c : IOCall} (h : s.Inv poolOf) (hd : s.Distinct (watchOwner poolOf))
    (hd' : (s.perform poolOf i ev c).Distinct (watchOwner poolOf)) (hev : s.events i = some ev) :
    (s.perform poolOf i ev c).Inv poolOf := by
  cases c with
  | setDescriptor fd =>
    by_cases heq : ev.fd = fd
    · rw [IOEvents.perform, setDescriptor, if_pos heq]
      exact h
    · exact (changed_setDescriptor hev heq).inv h hd hd' hev
  | setInterest flags =>
    by_cases heq : ev.interest = flags
    · rw [IOEvents.perform, setInterest, if_pos heq]
      exact h
    · exact (changed_setInterest h hd hev heq).inv h hd hd' hev
  | start => exact (changed_start h hd hev).inv h hd hd' hev
  | stop => exact (changed_stop hev).inv h hd hd' hev

/-- A call keeps the invariant, at once or posted. -/
theorem Inv.call {from_ : Option ExecutorId} {c : IOCall} (h : s.Inv poolOf)
    (hd : s.Distinct (watchOwner poolOf))
    (hd' : (s.call poolOf from_ i ev c).Distinct (watchOwner poolOf))
    (hev : s.events i = some ev) : (s.call poolOf from_ i ev c).Inv poolOf := by
  rw [IOEvents.call] at hd' ⊢
  split
  · exact h.posted
  · rename_i heq
    rw [if_neg heq] at hd'
    exact h.perform hd hd' hev

/-- A new event keeps the invariant. -/
theorem Inv.create {owner : ExecutorId} (h : s.Inv poolOf) (hd : s.Distinct (watchOwner poolOf))
    (hd' : (s.create owner).Distinct (watchOwner poolOf)) : (s.create owner).Inv poolOf := by
  refine h.settle (i := s.created) hd hd' (fun j hj => Function.update_of_ne hj ..) (fun t g => ?_)
    (Nat.le_succ _) fun ev hev => Nat.lt_succ_self _
  have hnone : s.events s.created = none := by
    by_contra hne
    obtain ⟨ev, hev⟩ := Option.ne_none_iff_exists'.mp hne
    exact Nat.lt_irrefl _ (h.created _ ev hev)
  have hnew : Function.update s.events s.created (some { owner }) s.created = some { owner } :=
    Function.update_self ..
  change s.tables t g =
    settled poolOf s.created _ (Function.update s.events s.created (some { owner }) s.created) t g _
  rw [hnone, hnew, settled, wanted_of_inactive (by simp)]
  rfl

/-- A dispatch keeps the invariant. -/
theorem Inv.dispatch {r : IORegistration} {nativeEvents : EventMask} (h : s.Inv poolOf) :
    (s.dispatch e r nativeEvents).Inv poolOf := by
  rw [IOEvents.dispatch]
  split
  · exact h
  · split_ifs
    · exact h
    · exact ⟨h.watch, h.created⟩
    · exact h

/-- **What a step keeps.** -/
theorem Inv.step (h : s.Inv poolOf) (hd : s.Distinct (watchOwner poolOf)) (hs : Step poolOf s l s')
    (hd' : s'.Distinct (watchOwner poolOf)) : s'.Inv poolOf := by
  cases hs with
  | create => exact h.create hd hd'
  | call hev => exact h.call hd hd' hev
  | runPosted _ hev => exact h.posted.call hd hd' hev
  | dropPosted => exact h.posted
  | @applyMoveTo i ev target hev =>
    by_cases heq : ev.owner = target
    · rw [IOEvents.applyMoveTo, if_pos heq]
      exact h
    · exact (changed_applyMoveTo hev heq).inv h hd hd' hev
  | destroy hev => exact (changed_destroy hev).inv h hd hd' hev
  | ready => exact h.dispatch

/-! ### What is handled -/

/-- `syncRegistration` handles nothing. -/
theorem handled_syncRegistration {wasActive : Bool} :
    (s.syncRegistration poolOf i ev wasActive).handled = s.handled := by
  rw [syncRegistration]
  split_ifs <;> rfl

/-- `stop` handles nothing. -/
theorem handled_stop : (s.stop poolOf i ev).handled = s.handled := by
  rw [stop]
  split <;> rfl

/-- What a call does handles nothing. -/
theorem handled_perform {c : IOCall} : (s.perform poolOf i ev c).handled = s.handled := by
  cases c with
  | setDescriptor fd =>
    rw [perform, setDescriptor]
    dsimp only
    split_ifs <;> rfl
  | setInterest flags =>
    rw [perform, setInterest]
    split
    · rfl
    · exact handled_syncRegistration
  | start => exact handled_syncRegistration
  | stop => exact handled_stop

/-- Nor does a call handle anything. -/
theorem handled_call {from_ : Option ExecutorId} {c : IOCall} :
    (s.call poolOf from_ i ev c).handled = s.handled := by
  rw [call]
  split
  · rfl
  · exact handled_perform

/-- A late callback is not heard. -/
theorem Filtered.dispatch {r : IORegistration} {nativeEvents : EventMask} (h : s.Filtered) :
    (s.dispatch e r nativeEvents).Filtered := by
  rw [IOEvents.dispatch]
  split
  · exact h
  · split_ifs with howner hcur
    · exact h
    · intro k hk
      rcases List.mem_append.mp hk with hk | hk
      · exact h k hk
      · obtain rfl := List.mem_singleton.mp hk
        simp only [isRegistrationCurrent, Bool.and_eq_true, decide_eq_true_eq] at hcur
        exact ⟨not_not.mp howner, hcur.2, hcur.1⟩
    · exact h

/-- Every step calls `handleEvents` for current registrations only. -/
theorem Filtered.step (h : s.Filtered) (hs : Step poolOf s l s') : s'.Filtered := by
  have hkeep (heq : s'.handled = s.handled) : s'.Filtered := by
    rw [Filtered, heq]
    exact h
  cases hs with
  | create => exact hkeep rfl
  | call _ => exact hkeep handled_call
  | runPosted _ _ => exact hkeep handled_call
  | dropPosted => exact hkeep rfl
  | applyMoveTo _ =>
    refine hkeep ?_
    rw [applyMoveTo, onAboutToMoveToThread, onMovedToThread]
    dsimp only
    split_ifs <;> rfl
  | destroy _ =>
    refine hkeep ?_
    rw [destroy]
    split
    · exact handled_stop
    · exact handled_stop
  | ready => exact h.dispatch

/-- At the start nothing is watched. -/
theorem Inv.init : Inv poolOf {} where
  watch t g w := by
    refine iff_of_false nofun ?_
    rintro ⟨i, hi⟩
    exact nomatch hi
  created i ev hev := nomatch hev

/-- In a run in which no two events that share a table hold one descriptor at any time, an event
has its watch, with its interest and its current registration, exactly while it is active and has
a descriptor; and only the callbacks of current registrations reach `handleEvents`, in the
owner. -/
theorem watches_follow_events
    (h : Run (Step poolOf) (fun s _ => s.Distinct (watchOwner poolOf)) {} ls s)
    (hd : s.Distinct (watchOwner poolOf)) :
    (∀ i ev, s.events i = some ev →
      (s.hasIOWatch poolOf ev.owner ev.fd = true ↔ ev.active = true ∧ 0 ≤ ev.fd) ∧
      ∀ w, s.tables (watchOwner poolOf ev.owner) ev.fd = some w →
        w = (interestToNative ev.interest, ⟨i, ev.fd, ev.registrationGeneration⟩)) ∧
    s.Filtered := by
  have hinv : s.Distinct (watchOwner poolOf) → s.Inv poolOf :=
    h.invariant (I := fun s => s.Distinct (watchOwner poolOf) → s.Inv poolOf)
      (fun _ _ _ hi hd hs hd' => (hi hd).step hd hs hd') fun _ => Inv.init
  have hi := hinv hd
  refine ⟨fun i ev hev => ⟨?_, fun w hw => ?_⟩, ?_⟩
  · by_cases hact : (ev.active && decide (0 ≤ ev.fd)) = true
    · obtain ⟨hon, hfd⟩ := Bool.and_eq_true_iff.mp hact
      rw [hasIOWatch, hi.watch_of_active hev hon (of_decide_eq_true hfd)]
      exact iff_of_true rfl ⟨hon, of_decide_eq_true hfd⟩
    · rw [hasIOWatch, hi.no_watch hd hev hact]
      refine iff_of_false Bool.false_ne_true fun hand => hact ?_
      rw [hand.1, decide_eq_true hand.2]
      rfl
  · by_cases hact : (ev.active && decide (0 ≤ ev.fd)) = true
    · obtain ⟨hon, hfd⟩ := Bool.and_eq_true_iff.mp hact
      rw [hi.watch_of_active hev hon (of_decide_eq_true hfd)] at hw
      exact (Option.some.inj hw).symm
    · rw [hi.no_watch hd hev hact] at hw
      exact nomatch hw
  · exact h.invariant (fun _ _ _ hf _ hs => hf.step hs) nofun

/-- Two events of distinct owners are distinct. -/
theorem distinct_of_two {κ : Type} {owner : ExecutorId → κ} (h : ∀ i, s.events (i + 2) = none)
    (hne : ∀ ev ev', s.events 0 = some ev → s.events 1 = some ev' →
      owner ev.owner ≠ owner ev'.owner) : s.Distinct owner := by
  intro i j ev ev' hi hj howner _ _
  match i, j with
  | 0, 0 => rfl
  | 1, 1 => rfl
  | 0, 1 => exact absurd howner (hne ev ev' hi hj)
  | 1, 0 => exact absurd howner.symm (hne ev' ev hj hi)
  | i + 2, _ => exact nomatch (h i).symm.trans hi
  | _, j + 2 => exact nomatch (h j).symm.trans hj

/-- One event is distinct from all others. -/
theorem distinct_of_one {κ : Type} {owner : ExecutorId → κ} (h : ∀ i, s.events (i + 1) = none) :
    s.Distinct owner :=
  distinct_of_two (fun i => h (i + 1)) fun _ _ _ hj => nomatch (h 0).symm.trans hj

/-- An event that is started, moves, and becomes ready at both owners: it is told once. -/
theorem ready_behind_move : ∃ ls s, Run (Step fun _ => 0)
    (fun s _ => s.Distinct (watchOwner fun _ => 0)) {} ls s ∧
    s.hasIOWatch (fun _ => 0) (.loop 2) 5 = true ∧ s.handled.length = 1 ∧ s.Filtered := by
  have hone {s : IOEvents} (h : ∀ i, s.events (i + 1) = none) :
      s.Distinct (watchOwner fun _ => 0) := distinct_of_one h
  have hrun : Run (Step fun _ => 0) (fun s _ => s.Distinct (watchOwner fun _ => 0)) {}
      [.create (.loop 1), .call (some (.loop 1)) 0 (.setDescriptor 5),
        .call (some (.loop 1)) 0 .start, .applyMoveTo 0 (.loop 2),
        .ready (.loop 1) ⟨0, 5, 2⟩ epollIn, .ready (.loop 2) ⟨0, 5, 3⟩ epollIn] _ :=
    .cons (hone fun _ => rfl) .create <| .cons (hone fun _ => rfl) (.call rfl) <|
    .cons (hone fun _ => rfl) (.call rfl) <| .cons (hone fun _ => rfl) (.applyMoveTo rfl) <|
    .cons (hone fun _ => rfl) (.ready (by decide)) <|
    .cons (hone fun _ => rfl) (.ready (by decide)) <| .nil _
  have hall := watches_follow_events hrun (hone fun _ => rfl)
  exact ⟨_, _, hrun, ((hall.1 0 _ rfl).1).mpr ⟨rfl, by decide⟩, rfl, hall.2⟩

/-- Two strands of a pool have events with one descriptor. The second event to be started finds a
watch, which is the first one's, and only changes its mask: nobody will tell the second. -/
theorem foreign_watch : ∃ ls s ev, Run (Step fun _ => 0) (fun s _ => s.Distinct id) {} ls s ∧
    s.Distinct id ∧ s.events 1 = some ev ∧ ev.active = true ∧ ev.fd = 5 ∧
    s.tables (watchOwner (fun _ => 0) ev.owner) 5 =
      some (interestToNative ev.interest, ⟨0, 5, 2⟩) := by
  have htwo {s : IOEvents} (h : ∀ i, s.events (i + 2) = none)
      (hne : ∀ ev ev', s.events 0 = some ev → s.events 1 = some ev' → ev.owner ≠ ev'.owner) :
      s.Distinct id := distinct_of_two h hne
  have hrun : Run (Step fun _ => 0) (fun s _ => s.Distinct id) {}
      [.create (.strand 0), .create (.strand 1), .call (some (.strand 0)) 0 (.setDescriptor 5),
        .call (some (.strand 0)) 0 .start, .call (some (.strand 1)) 1 (.setDescriptor 5),
        .call (some (.strand 1)) 1 .start] _ :=
    .cons (htwo (fun _ => rfl) nofun) .create <|
    .cons (htwo (fun _ => rfl) (by rintro _ _ ⟨⟩ ⟨⟩)) .create <|
    .cons (htwo (fun _ => rfl) (by rintro _ _ ⟨⟩ ⟨⟩; decide)) (.call rfl) <|
    .cons (htwo (fun _ => rfl) (by rintro _ _ ⟨⟩ ⟨⟩; decide)) (.call rfl) <|
    .cons (htwo (fun _ => rfl) (by rintro _ _ ⟨⟩ ⟨⟩; decide)) (.call rfl) <|
    .cons (htwo (fun _ => rfl) (by rintro _ _ ⟨⟩ ⟨⟩; decide)) (.call rfl) <| .nil _
  exact ⟨_, _, _, hrun, htwo (fun _ => rfl) (by rintro _ _ ⟨⟩ ⟨⟩; decide), rfl, rfl, rfl, rfl⟩

end IOEvents

end SimplyNode
