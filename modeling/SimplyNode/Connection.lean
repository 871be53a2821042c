import SimplyNode.Executor
import SimplyNode.Lib.Transition

/-!
# Signals and their Receivers

`Signal::emit` copies the list of slots and invokes one after the other. A slot of a receiver is
run on the spot, or posted to the executor that owns the receiver; and the task that was posted is
posted again, to the new owner, while the receiver moves on. Whether the slot may run is looked up
when the signal is emitted and whenever the task arrives: the connection has a flag, and the
receiver a control block that outlives it.

A step is one slot of an emission up to its end or to the post, the post itself, or one task; the
other steps are calls that anybody may make in between. The queues of the executors are in one
list, in the order of the posts: the queue of an executor is the part that was posted to it. What
the slots do are calls again, and the arguments of an emission are its number. Connections without a
receiver node are always direct and are no data here.

## Main results

* `Inv.step`: what a step keeps; `invoke_cases` and `runTask_cases` say what the two long
  steps do.
* `deliveries_safe`: no slot is started after the end of its connection or receiver, none twice for
  one emission, none outside of the owner unless it is direct; and what was posted is started, or
  waits, or is not to be started, or was posted to an executor that has been shut down.
-/

open Transition

namespace SimplyNode

/-- `ConnectionType`. -/
inductive ConnectionType
  | direct
  | queued
  | auto
  deriving DecidableEq

/-- A `SlotEntry` and its `ConnectionState`. The receiver is the block that its `NodePtr` has. -/
structure Connection where
  receiver : Option Generation
  type : ConnectionType
  connected : Bool := true
  deriving DecidableEq

/-- The task of `detail::postToReceiverOwner`: the arguments that it delivers are those of an
emission by a thread. -/
structure Delivery where
  emission : ℕ
  thread : ThreadId
  connection : ℕ
  receiver : Option Generation
  deriving DecidableEq

/-- A call of `emit()`: the slots that it has still to invoke, and the owner that it has read for
the post that is next. -/
structure Emission where
  ctx : CallContext
  slots : List ℕ
  posting : Option (ExecutorId × ℕ) := none
  deriving DecidableEq

/-- How often a slot may still be invoked or posted. -/
def Emission.pending (E : Emission) (c : ℕ) : ℕ :=
  E.slots.count c + if E.posting.any fun p => p.2 = c then 1 else 0

/-- A slot that was started: for whom and where, and what was true of it then. -/
structure SlotStart where
  emission : ℕ
  thread : ThreadId
  connection : ℕ
  receiver : Option Generation
  type : ConnectionType
  queued : Bool
  ctx : CallContext
  owner : Option ExecutorId
  deriving DecidableEq

/-- What can be observed. -/
inductive SignalEvent
  /-- An executor has become the owner of a node. -/
  | owned (node : Generation) (owner : ExecutorId)
  /-- `deleteLater()` has marked a node. -/
  | marked (node : Generation)
  /-- A node has been destroyed. -/
  | destroyed (node : Generation)
  /-- `disconnect()` was called. -/
  | disconnected (connection : ℕ)
  /-- An emission has posted a slot. -/
  | posted (emission connection : ℕ)
  /-- A slot has started. -/
  | started (start : SlotStart)
  deriving DecidableEq

/-- The control blocks of the nodes, the connections and the slots of the signals, the emissions,
the tasks that wait, and what was observed, the latest first. Nodes, connections and emissions are
numbered as they come. -/
structure SignalRun where
  blocks : Generation → NodeLifetimeBlock := fun _ => { alive := false }
  nodes : ℕ := 0
  connections : ℕ → Option Connection := fun _ => none
  made : ℕ := 0
  slots : ℕ → List ℕ := fun _ => []
  emissions : ℕ → Option Emission := fun _ => none
  emitted : ℕ := 0
  posts : List (ExecutorId × Delivery) := []
  retired : List ExecutorId := []
  log : List SignalEvent := []

/-- What can happen next. -/
inductive SignalStep
  | create (owner : ExecutorId)
  | deleteLater (node : Generation)
  | destroy (node : Generation)
  | applyMoveTo (node : Generation) (target : ExecutorId)
  | connect (signal : ℕ) (receiver : Option Generation) (type : ConnectionType)
  | disconnect (connection : ℕ)
  | emit (signal : ℕ) (ctx : CallContext)
  /-- An emission invokes its next slot. -/
  | invoke (emission : ℕ)
  /-- It makes the post it has read the owner for. -/
  | post (emission : ℕ)
  /-- An executor runs its next task; a strand does so on some thread. -/
  | run (executor : ExecutorId) (thread : ThreadId)
  /-- An executor is shut down: what waits there is dropped. -/
  | retire (executor : ExecutorId)
  deriving DecidableEq

namespace SignalRun

section Defs

variable (s : SignalRun)

/-- The owner in the control block of a `NodePtr`. -/
def ownerOf (receiver : Option Generation) : Option ExecutorId :=
  receiver.bind fun g => (s.blocks g).owner

/-- `detail::canInvokeReceiver`. -/
def canInvokeReceiver (receiver : Option Generation) : Bool :=
  receiver.any fun g => (s.blocks g).alive && !(s.blocks g).markedForDelete

/-- The flag of a connection. -/
def isConnected (c : ℕ) : Bool := (s.connections c).any (·.connected)

/-- The tasks that wait with an executor. -/
def queue (e : ExecutorId) : List Delivery :=
  s.posts.filterMap fun p => if p.1 = e then some p.2 else none

/-- Something is observed. -/
def record (v : SignalEvent) : SignalRun := { s with log := v :: s.log }

/-- The control block of a node, replaced. -/
def setBlock (g : Generation) (b : NodeLifetimeBlock) : SignalRun :=
  { s with blocks := Function.update s.blocks g b }

/-- An emission has come a step further. -/
def setEmission (n : ℕ) (E : Emission) : SignalRun :=
  { s with emissions := Function.update s.emissions n (some E) }

/-- `connected.store(false)`. -/
def sever (c : ℕ) : SignalRun :=
  { s with
    connections := Function.update s.connections c
      ((s.connections c).map fun k => { k with connected := false }) }

/-- `Node::Node`, as far as the control block is concerned. -/
def create (owner : ExecutorId) : SignalRun :=
  ({ s with nodes := s.nodes + 1 }.setBlock s.nodes { owner := some owner }).record
    (.owned s.nodes owner)

/-- `Node::deleteLater`, as far as the control block is concerned. -/
def deleteLater (g : Generation) : SignalRun :=
  (s.setBlock g { s.blocks g with markedForDelete := true }).record (.marked g)

/-- `Node::~Node`, as far as the control block is concerned. -/
def destroy (g : Generation) : SignalRun :=
  (s.setBlock g { s.blocks g with alive := false }).record (.destroyed g)

/-- `Node::applyMoveTo`, as far as the control block is concerned. -/
def applyMoveTo (g : Generation) (target : ExecutorId) : SignalRun :=
  (s.setBlock g { s.blocks g with owner := some target }).record (.owned g target)

/-- `Signal::connect`. -/
def connect (signal : ℕ) (receiver : Option Generation) (type : ConnectionType) : SignalRun :=
  { s with
    connections := Function.update s.connections s.made (some { receiver, type })
    made := s.made + 1
    slots := Function.update s.slots signal (s.slots signal ++ [s.made]) }

/-- `Connection::disconnect`. -/
def disconnect (c : ℕ) : SignalRun := (s.sever c).record (.disconnected c)

/-- `Signal::pruneDisconnectedLocked`. -/
def pruneDisconnected (signal : ℕ) : SignalRun :=
  { s with slots := Function.update s.slots signal ((s.slots signal).filter s.isConnected) }

/-- `Signal::emit`, up to the loop. -/
def emit (signal : ℕ) (ctx : CallContext) : SignalRun :=
  let s := s.pruneDisconnected signal
  { s.setEmission s.emitted { ctx, slots := s.slots signal } with emitted := s.emitted + 1 }

/-- The owner that `invoke` reads. -/
def queueOwner (k : Connection) : Option ExecutorId :=
  if k.type = .direct then none else s.ownerOf k.receiver

/-- `invoke` queues the slot. -/
def queues (ctx : CallContext) (k : Connection) : Bool :=
  k.type = .queued || (k.type = .auto && (s.queueOwner k).any fun o => !ctx.isCurrent o)

/-- A slot that starts on the spot. -/
def startNow (n : ℕ) (E : Emission) (c : ℕ) (k : Connection) : SlotStart where
  emission := n
  thread := E.ctx.thread
  connection := c
  receiver := k.receiver
  type := k.type
  queued := false
  ctx := E.ctx
  owner := s.ownerOf k.receiver

/-- A slot that starts in an executor. -/
def startQueued (e : ExecutorId) (t : ThreadId) (d : Delivery) (k : Connection) : SlotStart where
  emission := d.emission
  thread := d.thread
  connection := d.connection
  receiver := d.receiver
  type := k.type
  queued := true
  ctx := .inside t e
  owner := s.ownerOf d.receiver

/-- The loop of `Signal::emit`, and the `invoke` of a slot: one slot, up to its start or to the
post. What `invokeNow` checks has just been checked. -/
def invoke (n : ℕ) (E : Emission) (c : ℕ) (rest : List ℕ) : SignalRun :=
  let next := s.setEmission n { E with slots := rest }
  match s.connections c with
  | none => next
  | some k =>
      if !k.connected then next
      else if !s.canInvokeReceiver k.receiver then next.sever c
      else if s.queues E.ctx k then
        match s.queueOwner k with
        | none => next.sever c
        | some o => s.setEmission n { E with slots := rest, posting := some (o, c) }
      else next.record (.started (s.startNow n E c k))

/-- `Executor::post`. -/
def enqueue (e : ExecutorId) (d : Delivery) : SignalRun :=
  { s with posts := if e ∈ s.retired then s.posts else s.posts ++ [(e, d)] }

/-- `detail::postToReceiverOwner`, called by an emission. -/
def post (n : ℕ) (E : Emission) (o : ExecutorId) (c : ℕ) : SignalRun :=
  ((s.setEmission n { E with posting := none }).enqueue o
    { emission := n
      thread := E.ctx.thread
      connection := c
      receiver := (s.connections c).bind Connection.receiver }).record (.posted n c)

/-- The queued slot itself. -/
def deliver (e : ExecutorId) (t : ThreadId) (d : Delivery) : SignalRun :=
  match s.connections d.connection with
  | none => s
  | some k =>
      if !k.connected || !s.canInvokeReceiver d.receiver then s
      else
        s.record (.started (s.startQueued e t d k))

/-- The task of `detail::postToReceiverOwner`. -/
def runTask (e : ExecutorId) (t : ThreadId) (d : Delivery) : SignalRun :=
  if !s.canInvokeReceiver d.receiver then s
  else
    match s.ownerOf d.receiver with
    | none => s.deliver e t d
    | some o => if o ≠ e then s.enqueue o d else s.deliver e t d

/-- An executor that is shut down drops its tasks, and takes no more. -/
def retire (e : ExecutorId) : SignalRun :=
  { s with posts := s.posts.filter (·.1 ≠ e), retired := e :: s.retired }

/-- **One step of a run.** -/
inductive Step : SignalRun → SignalStep → SignalRun → Prop
  | create {s : SignalRun} {owner : ExecutorId} : Step s (.create owner) (s.create owner)
  | deleteLater {s : SignalRun} {g : Generation} :
      (s.blocks g).alive = true → Step s (.deleteLater g) (s.deleteLater g)
  | destroy {s : SignalRun} {g : Generation} :
      (s.blocks g).alive = true → Step s (.destroy g) (s.destroy g)
  | applyMoveTo {s : SignalRun} {g : Generation} {target : ExecutorId} :
      (s.blocks g).alive = true → Step s (.applyMoveTo g target) (s.applyMoveTo g target)
  | connect {s : SignalRun} {signal : ℕ} {receiver : Option Generation} {type : ConnectionType} :
      (∀ g, receiver = some g → g < s.nodes) →
      Step s (.connect signal receiver type) (s.connect signal receiver type)
  | disconnect {s : SignalRun} {c : ℕ} : c < s.made → Step s (.disconnect c) (s.disconnect c)
  | emit {s : SignalRun} {signal : ℕ} {ctx : CallContext} :
      Step s (.emit signal ctx) (s.emit signal ctx)
  | invoke {s : SignalRun} {n c : ℕ} {E : Emission} {rest : List ℕ} :
      s.emissions n = some E → E.posting = none → E.slots = c :: rest →
      Step s (.invoke n) (s.invoke n E c rest)
  | post {s : SignalRun} {n c : ℕ} {E : Emission} {o : ExecutorId} :
      s.emissions n = some E → E.posting = some (o, c) → Step s (.post n) (s.post n E o c)
  | run {s : SignalRun} {e : ExecutorId} {t : ThreadId} {d : Delivery}
      {before after : List (ExecutorId × Delivery)} :
      s.posts = before ++ (e, d) :: after → (∀ p ∈ before, p.1 ≠ e) →
      Step s (.run e t) ({ s with posts := before ++ after }.runTask e t d)
  | retire {s : SignalRun} {e : ExecutorId} : Step s (.retire e) (s.retire e)

/-- What ends a slot for good. -/
def Ends : SignalEvent → SlotStart → Prop
  | .disconnected c, d => d.connection = c
  | .marked g, d => d.receiver = some g
  | .destroyed g, d => d.receiver = some g
  | _, _ => False

/-- The event ends some slots. -/
def IsEnd : SignalEvent → Prop
  | .disconnected _ | .marked _ | .destroyed _ => True
  | _ => False

/-- The event is a start of a slot for an emission. -/
def startsFor (n c : ℕ) : SignalEvent → Bool
  | .started d => d.emission = n && d.connection = c
  | _ => false

/-- How often an emission has started a slot. -/
def starts (n c : ℕ) : ℕ := s.log.countP (startsFor n c)

/-- The deliveries of an emission to a slot that wait. -/
def waits (n c : ℕ) : ℕ := s.posts.countP fun p => p.2.emission = n && p.2.connection = c

/-- A delivery of a slot to an executor is in order: it has owned the receiver. -/
def Addressed (e : ExecutorId) (c : ℕ) : Prop :=
  ∃ k g, s.connections c = some k ∧ k.type ≠ .direct ∧ k.receiver = some g ∧ .owned g e ∈ s.log

/-- A slot is not started any more, or an executor that has owned its receiver has been shut
down. -/
def Excused (c : ℕ) : Prop :=
  ∃ k, s.connections c = some k ∧ (k.connected = false ∨ s.canInvokeReceiver k.receiver = false ∨
    ∃ g e, k.receiver = some g ∧ .owned g e ∈ s.log ∧ e ∈ s.retired)

/-- How often an emission may still invoke or post a slot. -/
def pending (n c : ℕ) : ℕ :=
  match s.emissions n with
  | none => 0
  | some E => E.pending c

/-- The starts of a slot for an emission that there have been or may be. -/
def copies (n c : ℕ) : ℕ := s.starts n c + s.waits n c + s.pending n c

/-- The numbers that are in use have been given away, and every node has had its owner for the
owner. -/
structure Known : Prop where
  made : ∀ c, c < s.made ↔ ∃ k, s.connections c = some k
  receivers : ∀ c k g, s.connections c = some k → k.receiver = some g → g < s.nodes
  alive : ∀ g, (s.blocks g).alive = true → g < s.nodes
  owners : ∀ g, g < s.nodes → ∃ o, (s.blocks g).owner = some o ∧ .owned g o ∈ s.log
  slots : ∀ signal, (s.slots signal).Nodup ∧ ∀ c ∈ s.slots signal, c < s.made

/-- There is one copy at most. -/
structure Ledger : Prop where
  once : ∀ n c, s.copies n c ≤ 1
  fresh : ∀ n c, s.emitted ≤ n → s.copies n c = 0

/-- What is posted, or about to be, is in order. -/
structure Routed : Prop where
  posting : ∀ n E o c, s.emissions n = some E → E.posting = some (o, c) → s.Addressed o c
  waiting : ∀ p ∈ s.posts, s.Addressed p.1 p.2.connection ∧
    (s.connections p.2.connection).bind Connection.receiver = p.2.receiver

/-- What has ended has ended. -/
structure Ended : Prop where
  disconnected : ∀ c, .disconnected c ∈ s.log → ∃ k, s.connections c = some k ∧ k.connected = false
  marked : ∀ g, .marked g ∈ s.log → g < s.nodes ∧ s.canInvokeReceiver (some g) = false
  destroyed : ∀ g, .destroyed g ∈ s.log → g < s.nodes ∧ s.canInvokeReceiver (some g) = false

/-- The slot may start as it does. -/
def Startable (d : SlotStart) : Prop :=
  (∃ k, s.connections d.connection = some k ∧ k.connected = true) ∧
    s.canInvokeReceiver d.receiver = true ∧ d.owner = s.ownerOf d.receiver ∧
    (d.type ≠ .direct → ∀ o, s.ownerOf d.receiver = some o → d.ctx.isCurrent o = true)

/-- **Deliveries are safe.** -/
structure Safe : Prop where
  ended : s.log.Pairwise fun later earlier => ∀ d, later = .started d → ¬ Ends earlier d
  once : ∀ n c, s.starts n c ≤ 1
  inside : ∀ d, .started d ∈ s.log → d.type ≠ .direct →
    ∃ o, d.owner = some o ∧ d.ctx.isCurrent o = true
  kept : ∀ n c, .posted n c ∈ s.log →
    0 < s.starts n c ∨ 0 < s.waits n c ∨ s.Excused c

end Defs

variable {s s' : SignalRun} {e o : ExecutorId} {t : ThreadId} {d : Delivery} {g : Generation}
  {n c : ℕ} {E : Emission} {k : Connection} {rest : List ℕ} {l : SignalStep} {v : SignalEvent}
  {r : Option Generation}

/-! ### What a step can do -/

/-- A connection is queued if it is not direct and its receiver has an owner. -/
theorem queueOwner_eq_some :
    s.queueOwner k = some o ↔ k.type ≠ .direct ∧ s.ownerOf k.receiver = some o := by
  rw [queueOwner]
  split
  · rename_i h
    exact iff_of_false nofun fun hand => hand.1 h
  · rename_i h
    exact (and_iff_right h).symm

/-- A slot that is not queued and not direct runs in the owner. -/
theorem isCurrent_of_not_queues {ctx : CallContext} (h : s.queues ctx k = false)
    (hdirect : k.type ≠ .direct) (ho : s.ownerOf k.receiver = some o) :
    ctx.isCurrent o = true := by
  rw [queues, queueOwner_eq_some.mpr ⟨hdirect, ho⟩, Bool.or_eq_false_iff] at h
  cases htype : k.type with
  | direct => exact absurd htype hdirect
  | queued => simp [htype] at h
  | auto => simpa [htype] using h

/-- One slot of an emission: it is passed over, severed, made ready for the post, or started. -/
theorem invoke_cases (s : SignalRun) (n : ℕ) (E : Emission) (c : ℕ) (rest : List ℕ) :
    s.invoke n E c rest = s.setEmission n { E with slots := rest } ∨
    s.invoke n E c rest = (s.setEmission n { E with slots := rest }).sever c ∨
    (∃ k o, s.connections c = some k ∧ k.type ≠ .direct ∧ s.ownerOf k.receiver = some o ∧
      s.invoke n E c rest = s.setEmission n { E with slots := rest, posting := some (o, c) }) ∨
    ∃ k, s.connections c = some k ∧ k.connected = true ∧ s.canInvokeReceiver k.receiver = true ∧
      (k.type ≠ .direct → ∀ o, s.ownerOf k.receiver = some o → E.ctx.isCurrent o = true) ∧
      s.invoke n E c rest =
        (s.setEmission n { E with slots := rest }).record (.started (s.startNow n E c k)) := by
  rw [invoke]
  split
  · exact Or.inl rfl
  · rename_i k hk
    split
    · exact Or.inl rfl
    · rename_i hconn
      split
      · exact Or.inr (Or.inl rfl)
      · rename_i hinv
        split
        · split
          · exact Or.inr (Or.inl rfl)
          · rename_i o ho
            obtain ⟨hdirect, ho⟩ := queueOwner_eq_some.mp ho
            exact Or.inr (Or.inr (Or.inl ⟨k, o, hk, hdirect, ho, rfl⟩))
        · rename_i hqueue
          refine Or.inr (Or.inr (Or.inr
            ⟨k, hk, by simpa using hconn, by simpa using hinv, ?_, rfl⟩))
          intro hdirect o ho
          exact isCurrent_of_not_queues (by simpa using hqueue) hdirect ho

/-- A task is dropped, posted again, or starts its slot. -/
theorem runTask_cases (s : SignalRun) (e : ExecutorId) (t : ThreadId) (d : Delivery) :
    (s.runTask e t d = s ∧ ∀ k, s.connections d.connection = some k →
      k.connected = false ∨ s.canInvokeReceiver d.receiver = false) ∨
    (∃ o, s.ownerOf d.receiver = some o ∧ o ≠ e ∧ s.runTask e t d = s.enqueue o d) ∨
    ∃ k, s.connections d.connection = some k ∧ k.connected = true ∧
      s.canInvokeReceiver d.receiver = true ∧ (∀ o, s.ownerOf d.receiver = some o → o = e) ∧
      s.runTask e t d = s.record (.started (s.startQueued e t d k)) := by
  by_cases hinv : s.canInvokeReceiver d.receiver = true
  · by_cases howner : ∀ o, s.ownerOf d.receiver = some o → o = e
    · have hrun : s.runTask e t d = s.deliver e t d := by
        rw [runTask, if_neg (by simp [hinv])]
        split
        · rfl
        · rename_i o ho
          rw [if_neg (not_not.mpr (howner o ho))]
      rw [hrun, deliver]
      cases hk : s.connections d.connection with
      | none => exact Or.inl ⟨rfl, nofun⟩
      | some k =>
        cases hconn : k.connected with
        | false =>
          refine Or.inl ⟨by simp [hconn], fun k' hk' => Or.inl ?_⟩
          obtain rfl := Option.some.inj hk'
          exact hconn
        | true => exact Or.inr (Or.inr ⟨k, rfl, hconn, hinv, howner, by simp [hconn, hinv]⟩)
    · push Not at howner
      obtain ⟨o, ho, hne⟩ := howner
      refine Or.inr (Or.inl ⟨o, ho, hne, ?_⟩)
      rw [runTask, if_neg (by simp [hinv])]
      simp only [ho]
      rw [if_pos hne]
  · have hfalse : s.canInvokeReceiver d.receiver = false := by simpa using hinv
    refine Or.inl ⟨?_, fun _ _ => Or.inr hfalse⟩
    rw [runTask, if_pos (by simp [hfalse])]

/-! ### Nothing comes back -/

/-- The connection that is severed is not connected any more. -/
theorem connections_sever_self (hk : s.connections c = some k) :
    (s.sever c).connections c = some { k with connected := false } := by
  simp only [sever, Function.update_self, hk, Option.map_some]

/-- The other connections stay. -/
theorem connections_sever_of_ne {c' : ℕ} (hc : c' ≠ c) :
    (s.sever c).connections c' = s.connections c' :=
  Function.update_of_ne hc ..

/-- What every step leaves as it is, or brings closer to the end. -/
structure Grows (s s' : SignalRun) : Prop where
  log : ∀ v ∈ s.log, v ∈ s'.log
  retired : ∀ e ∈ s.retired, e ∈ s'.retired
  connection : ∀ c k, s.connections c = some k → ∃ k', s'.connections c = some k' ∧
    k'.receiver = k.receiver ∧ k'.type = k.type ∧ (k.connected = false → k'.connected = false)
  invoke : ∀ g, g < s.nodes → s.canInvokeReceiver (some g) = false →
    s'.canInvokeReceiver (some g) = false
  nodes : s.nodes ≤ s'.nodes
  made : s.made ≤ s'.made

namespace Grows

/-- A run has grown where only entries of its record are new. -/
theorem of_eq (hl : ∀ v ∈ s.log, v ∈ s'.log) (hr : ∀ e ∈ s.retired, e ∈ s'.retired)
    (hc : s'.connections = s.connections) (hb : s'.blocks = s.blocks) (hn : s'.nodes = s.nodes)
    (hm : s'.made = s.made) : Grows s s' where
  log := hl
  retired := hr
  connection c k hk := ⟨k, by rw [hc, hk], rfl, rfl, id⟩
  invoke g _ h := by
    rw [← h]
    simp only [canInvokeReceiver, hb]
  nodes := Nat.le_of_eq hn.symm
  made := Nat.le_of_eq hm.symm

/-- What has grown twice has grown. -/
theorem trans {s₁ : SignalRun} (h : Grows s s₁) (h' : Grows s₁ s') : Grows s s' where
  log v hv := h'.log v (h.log v hv)
  retired e he := h'.retired e (h.retired e he)
  connection c k hk := by
    obtain ⟨k₁, hk₁, hr₁, ht₁, hc₁⟩ := h.connection c k hk
    obtain ⟨k₂, hk₂, hr₂, ht₂, hc₂⟩ := h'.connection c k₁ hk₁
    exact ⟨k₂, hk₂, hr₂.trans hr₁, ht₂.trans ht₁, fun hf => hc₂ (hc₁ hf)⟩
  invoke g hg hf := h'.invoke g (Nat.lt_of_lt_of_le hg h.nodes) (h.invoke g hg hf)
  nodes := Nat.le_trans h.nodes h'.nodes
  made := Nat.le_trans h.made h'.made

/-- An entry of the record more. -/
theorem record : Grows s (s.record v) :=
  .of_eq (fun _ => List.mem_cons_of_mem _) (fun _ => id) rfl rfl rfl rfl

/-- A step of an emission. -/
theorem setEmission : Grows s (s.setEmission n E) :=
  .of_eq (fun _ => id) (fun _ => id) rfl rfl rfl rfl

/-- A posted delivery more. -/
theorem enqueue : Grows s (s.enqueue e d) :=
  .of_eq (fun _ => id) (fun _ => id) rfl rfl rfl rfl

/-- A connection that is severed. -/
theorem sever : Grows s (s.sever c) where
  log _ := id
  retired _ := id
  connection c' k hk := by
    by_cases hc : c' = c
    · subst hc
      exact ⟨_, connections_sever_self hk, rfl, rfl, fun _ => rfl⟩
    · exact ⟨k, (connections_sever_of_ne hc).trans hk, rfl, rfl, id⟩
  invoke _ _ := id
  nodes := Nat.le_refl _
  made := Nat.le_refl _

/-- A block is replaced by one that can be invoked only if the old one can. -/
theorem setBlock {b : NodeLifetimeBlock}
    (h : (b.alive && !b.markedForDelete) = true →
      ((s.blocks g).alive && !(s.blocks g).markedForDelete) = true) : Grows s (s.setBlock g b) where
  log _ := id
  retired _ := id
  connection c k hk := ⟨k, hk, rfl, rfl, id⟩
  invoke g' _ hf := by
    simp only [canInvokeReceiver, SignalRun.setBlock, Option.any_some,
      Function.update_apply] at hf ⊢
    split
    · rename_i heq
      rw [heq] at hf
      by_contra hne
      rw [Bool.not_eq_false] at hne
      rw [h hne] at hf
      exact Bool.noConfusion hf
    · exact hf
  nodes := Nat.le_refl _
  made := Nat.le_refl _

end Grows

/-- Every step makes the run grow. -/
theorem Step.grows (h : s.Known) (hs : Step s l s') : Grows s s' := by
  cases hs with
  | create =>
    refine ⟨fun _ => List.mem_cons_of_mem _, fun _ => id, fun c k hk => ⟨k, hk, rfl, rfl, id⟩,
      fun g hg hf => ?_, Nat.le_succ _, Nat.le_refl _⟩
    rw [← hf]
    simp only [canInvokeReceiver, SignalRun.create, record, setBlock, Option.any_some,
      Function.update_of_ne (Nat.ne_of_lt hg)]
  | deleteLater _ => exact (Grows.setBlock (by simp)).trans .record
  | destroy _ => exact (Grows.setBlock (by simp)).trans .record
  | @applyMoveTo g target _ =>
    exact (Grows.setBlock (b := { s.blocks g with owner := some target }) id).trans .record
  | connect hr =>
    refine ⟨fun _ => id, fun _ => id, fun c k hk => ⟨k, ?_, rfl, rfl, id⟩, fun _ _ => id,
      Nat.le_refl _, Nat.le_succ _⟩
    exact (Function.update_of_ne (Nat.ne_of_lt ((h.made c).mpr ⟨k, hk⟩)) ..).trans hk
  | disconnect _ => exact Grows.sever.trans .record
  | emit => exact .of_eq (fun _ => id) (fun _ => id) rfl rfl rfl rfl
  | @invoke n c E rest _ _ _ =>
    rcases invoke_cases s n E c rest with heq | heq | ⟨k, o, _, _, _, heq⟩ | ⟨k, _, _, _, _, heq⟩
    · rw [heq]
      exact .setEmission
    · rw [heq]
      exact Grows.setEmission.trans .sever
    · rw [heq]
      exact .setEmission
    · rw [heq]
      exact Grows.setEmission.trans .record
  | post _ _ => exact (Grows.setEmission.trans .enqueue).trans .record
  | @run e t d before after _ _ =>
    have hpop : Grows s { s with posts := before ++ after } :=
      .of_eq (fun _ => id) (fun _ => id) rfl rfl rfl rfl
    rcases runTask_cases { s with posts := before ++ after } e t d with
      ⟨heq, _⟩ | ⟨o, _, _, heq⟩ | ⟨k, _, _, _, _, heq⟩
    · rw [heq]
      exact hpop
    · rw [heq]
      exact hpop.trans .enqueue
    · rw [heq]
      exact hpop.trans .record
  | retire => exact .of_eq (fun _ => id) (fun _ => List.mem_cons_of_mem _) rfl rfl rfl rfl

/-- What is addressed stays so. -/
theorem Addressed.grows (h : s.Addressed e c) (hg : Grows s s') : s'.Addressed e c := by
  obtain ⟨k, g, hk, htype, hr, howned⟩ := h
  obtain ⟨k', hk', hr', ht', _⟩ := hg.connection c k hk
  exact ⟨k', g, hk', by rwa [ht'], hr'.trans hr, hg.log _ howned⟩

/-- What is excused stays so. -/
theorem Excused.grows (h : s.Excused c) (hk : s.Known) (hg : Grows s s') : s'.Excused c := by
  obtain ⟨k, hkc, h⟩ := h
  obtain ⟨k', hk', hr', _, hc'⟩ := hg.connection c k hkc
  refine ⟨k', hk', ?_⟩
  rw [hr']
  rcases h with h | h | ⟨g, e, hr, howned, he⟩
  · exact Or.inl (hc' h)
  · refine Or.inr (Or.inl ?_)
    cases hrec : k.receiver with
    | none => rfl
    | some g =>
      rw [hrec] at h
      exact hg.invoke g (hk.receivers c k g hkc hrec) h
  · exact Or.inr (Or.inr ⟨g, e, hr, hg.log _ howned, hg.retired e he⟩)

/-! ### The numbers in use -/

/-- Neither the blocks nor the lists of slots change. -/
theorem Known.frame (h : s.Known) (hg : Grows s s') (hb : s'.blocks = s.blocks)
    (hn : s'.nodes = s.nodes) (hm : s'.made = s.made) (hs : s'.slots = s.slots)
    (hc : ∀ c k', s'.connections c = some k' → ∃ k, s.connections c = some k) : s'.Known where
  made c := by
    rw [hm, h.made]
    constructor
    · rintro ⟨k, hk⟩
      obtain ⟨k', hk', _⟩ := hg.connection c k hk
      exact ⟨k', hk'⟩
    · rintro ⟨k', hk'⟩
      exact hc c k' hk'
  receivers c k' g hk' hr := by
    obtain ⟨k, hk⟩ := hc c k' hk'
    obtain ⟨k₁, hk₁, hr₁, _⟩ := hg.connection c k hk
    obtain rfl := Option.some.inj (hk'.symm.trans hk₁)
    rw [hn]
    exact h.receivers c k g hk (hr₁.symm.trans hr)
  alive g := by
    rw [hb, hn]
    exact h.alive g
  owners g := by
    rw [hb, hn]
    intro hlt
    obtain ⟨o, ho, howned⟩ := h.owners g hlt
    exact ⟨o, ho, hg.log _ howned⟩
  slots signal := by
    rw [hs, hm]
    exact h.slots signal

/-- The block of a node is replaced by one with an owner. -/
theorem Known.setBlock {b : NodeLifetimeBlock} (h : s.Known) (hlt : g < s.nodes)
    (hb : ∃ o, b.owner = some o ∧ (.owned g o ∈ s.log ∨ v = .owned g o)) :
    ((s.setBlock g b).record v).Known where
  made := h.made
  receivers := h.receivers
  alive g' hal := by
    by_cases heq : g' = g
    · exact heq ▸ hlt
    · exact h.alive g' (by simpa [record, SignalRun.setBlock, Function.update_of_ne heq] using hal)
  owners g' hg' := by
    by_cases heq : g' = g
    · subst heq
      obtain ⟨o, ho, hlog⟩ := hb
      refine ⟨o, by simpa [record, SignalRun.setBlock] using ho, ?_⟩
      rcases hlog with hlog | hlog
      · exact List.mem_cons_of_mem _ hlog
      · exact hlog ▸ List.mem_cons_self
    · obtain ⟨o, ho, hlog⟩ := h.owners g' hg'
      exact ⟨o, by simpa [record, SignalRun.setBlock, Function.update_of_ne heq] using ho,
        List.mem_cons_of_mem _ hlog⟩
  slots := h.slots

/-- A new node is known. -/
theorem Known.create (h : s.Known) : (s.create o).Known where
  made := h.made
  receivers c k g hk hr := Nat.lt_succ_of_lt (h.receivers c k g hk hr)
  alive g hal := by
    by_cases heq : g = s.nodes
    · exact heq ▸ Nat.lt_succ_self _
    · refine Nat.lt_succ_of_lt (h.alive g ?_)
      simpa [SignalRun.create, record, SignalRun.setBlock, Function.update_of_ne heq] using hal
  owners g hg := by
    by_cases heq : g = s.nodes
    · subst heq
      exact ⟨o, by simp [SignalRun.create, record, SignalRun.setBlock], List.mem_cons_self⟩
    · obtain ⟨o, ho, hlog⟩ := h.owners g (Nat.lt_of_le_of_ne (Nat.le_of_lt_succ hg) heq)
      refine ⟨o, ?_, List.mem_cons_of_mem _ hlog⟩
      simpa [SignalRun.create, record, SignalRun.setBlock, Function.update_of_ne heq] using ho
  slots := h.slots

/-- A new connection is known. -/
theorem Known.connect {signal : ℕ} {type : ConnectionType} (h : s.Known)
    (hr : ∀ g, r = some g → g < s.nodes) : (s.connect signal r type).Known where
  made c := by
    by_cases heq : c = s.made
    · subst heq
      exact iff_of_true (Nat.lt_succ_self _) ⟨_, Function.update_self ..⟩
    · have hold : (s.connect signal r type).connections c = s.connections c :=
        Function.update_of_ne heq ..
      rw [hold, ← h.made]
      exact ⟨fun hlt => Nat.lt_of_le_of_ne (Nat.le_of_lt_succ hlt) heq, Nat.lt_succ_of_lt⟩
  receivers c k g hk hg := by
    by_cases heq : c = s.made
    · subst heq
      obtain rfl : { receiver := r, type } = k := by simpa [SignalRun.connect] using hk
      exact hr g hg
    · exact h.receivers c k g
        (by simpa [SignalRun.connect, Function.update_of_ne heq] using hk) hg
  alive := h.alive
  owners := h.owners
  slots signal' := by
    obtain ⟨hnodup, hlt⟩ := h.slots signal'
    by_cases heq : signal' = signal
    · subst heq
      simp only [SignalRun.connect, Function.update_self]
      refine ⟨?_, fun c hc => ?_⟩
      · rw [List.nodup_append]
        refine ⟨hnodup, List.nodup_singleton _, fun a ha b hb => ?_⟩
        rw [List.mem_singleton.mp hb]
        exact Nat.ne_of_lt (hlt a ha)
      · rcases List.mem_append.mp hc with hc | hc
        · exact Nat.lt_succ_of_lt (hlt c hc)
        · exact List.mem_singleton.mp hc ▸ Nat.lt_succ_self _
    · simp only [SignalRun.connect, Function.update_of_ne heq]
      exact ⟨hnodup, fun c hc => Nat.lt_succ_of_lt (hlt c hc)⟩

/-- Pruning keeps what is known. -/
theorem Known.prune {signal : ℕ} (h : s.Known) : (s.pruneDisconnected signal).Known where
  made := h.made
  receivers := h.receivers
  alive := h.alive
  owners := h.owners
  slots signal' := by
    obtain ⟨hnodup, hlt⟩ := h.slots signal'
    by_cases heq : signal' = signal
    · subst heq
      simp only [pruneDisconnected, Function.update_self]
      exact ⟨hnodup.filter _, fun c hc => hlt c (List.mem_of_mem_filter hc)⟩
    · simp only [pruneDisconnected, Function.update_of_ne heq]
      exact ⟨hnodup, hlt⟩

/-- Severing makes no connection. -/
theorem exists_of_connections_sever {c' : ℕ} {k' : Connection}
    (h : (s.sever c).connections c' = some k') : ∃ k, s.connections c' = some k := by
  by_cases heq : c' = c
  · subst heq
    simp only [sever, Function.update_self, Option.map_eq_some_iff] at h
    obtain ⟨k, hk, _⟩ := h
    exact ⟨k, hk⟩
  · exact ⟨k', (connections_sever_of_ne heq).symm.trans h⟩

/-- Every step keeps what is known. -/
theorem Known.step (h : s.Known) (hs : Step s l s') : s'.Known := by
  have hg := hs.grows h
  cases hs with
  | create => exact h.create
  | @deleteLater g hal =>
    obtain ⟨o, ho, hlog⟩ := h.owners g (h.alive g hal)
    exact h.setBlock (h.alive g hal) ⟨o, ho, Or.inl hlog⟩
  | @destroy g hal =>
    obtain ⟨o, ho, hlog⟩ := h.owners g (h.alive g hal)
    exact h.setBlock (h.alive g hal) ⟨o, ho, Or.inl hlog⟩
  | applyMoveTo hal => exact h.setBlock (h.alive _ hal) ⟨_, rfl, Or.inr rfl⟩
  | connect hr => exact h.connect hr
  | disconnect _ => exact h.frame hg rfl rfl rfl rfl fun _ _ => exists_of_connections_sever
  | @emit signal ctx =>
    have hp : (s.pruneDisconnected signal).Known := h.prune
    exact hp.frame (.of_eq (fun _ => id) (fun _ => id) rfl rfl rfl rfl) rfl rfl rfl rfl
      fun _ k hk => ⟨k, hk⟩
  | @invoke n c E rest _ _ _ =>
    rcases invoke_cases s n E c rest with heq | heq | ⟨k, o, _, _, _, heq⟩ | ⟨k, _, _, _, _, heq⟩
    · rw [heq] at hg ⊢
      exact h.frame hg rfl rfl rfl rfl fun _ k hk => ⟨k, hk⟩
    · rw [heq] at hg ⊢
      exact h.frame hg rfl rfl rfl rfl fun _ _ hk => exists_of_connections_sever hk
    · rw [heq] at hg ⊢
      exact h.frame hg rfl rfl rfl rfl fun _ k hk => ⟨k, hk⟩
    · rw [heq] at hg ⊢
      exact h.frame hg rfl rfl rfl rfl fun _ k hk => ⟨k, hk⟩
  | post _ _ => exact h.frame hg rfl rfl rfl rfl fun _ k hk => ⟨k, hk⟩
  | @run e t d before after _ _ =>
    rcases runTask_cases { s with posts := before ++ after } e t d with
      ⟨heq, _⟩ | ⟨o, _, _, heq⟩ | ⟨k, _, _, _, _, heq⟩
    · rw [heq] at hg ⊢
      exact h.frame hg rfl rfl rfl rfl fun _ k hk => ⟨k, hk⟩
    · rw [heq] at hg ⊢
      exact h.frame hg rfl rfl rfl rfl fun _ k hk => ⟨k, hk⟩
    · rw [heq] at hg ⊢
      exact h.frame hg rfl rfl rfl rfl fun _ k hk => ⟨k, hk⟩
  | retire => exact h.frame hg rfl rfl rfl rfl fun _ k hk => ⟨k, hk⟩

/-! ### One start for an emission -/

/-- An entry of the record is one more start, or none. -/
theorem starts_record :
    (s.record v).starts n c = s.starts n c + if startsFor n c v then 1 else 0 :=
  List.countP_cons

/-- A posted delivery is one more that waits, at most. -/
theorem waits_enqueue_le : (s.enqueue e d).waits n c ≤
    s.waits n c + if d.emission = n ∧ d.connection = c then 1 else 0 := by
  simp only [waits, enqueue]
  split
  · exact Nat.le_add_right ..
  · rw [List.countP_append, List.countP_singleton]
    simp only [Bool.and_eq_true, decide_eq_true_eq]
    exact Nat.le_refl _

/-- What is pending after a step of an emission. -/
theorem pending_setEmission {m : ℕ} :
    (s.setEmission m E).pending n c = if n = m then E.pending c else s.pending n c := by
  by_cases heq : n = m
  · subst heq
    simp only [pending, setEmission, Function.update_self, if_true]
  · simp only [pending, setEmission, Function.update_of_ne heq, if_neg heq]

/-- What is pending is what its emission still has to do. -/
theorem pending_of_emission (h : s.emissions n = some E) : s.pending n c = E.pending c := by
  rw [pending, h]

/-- Invoking a slot takes one away. -/
theorem pending_cons {c' : ℕ} (hp : E.posting = none) (hE : E.slots = c' :: rest) :
    E.pending c = rest.count c + if c' = c then 1 else 0 := by
  rw [Emission.pending, hp, hE, List.count_cons]
  simp

/-- Between two slots an emission has its remaining slots to do. -/
theorem pending_rest (hp : E.posting = none) :
    Emission.pending { E with slots := rest } c = rest.count c := by
  rw [Emission.pending, hp]
  rfl

/-- A slot that is invoked is started, or posted, or left out. -/
theorem copies_invoke_le {m c' : ℕ} (hE : s.emissions m = some E) (hp : E.posting = none)
    (hslots : E.slots = c' :: rest) (n c : ℕ) :
    (s.invoke m E c' rest).copies n c ≤ s.copies n c := by
  have hbefore (heq : n = m) : s.pending n c = rest.count c + if c' = c then 1 else 0 := by
    rw [pending_of_emission (heq ▸ hE), pending_cons hp hslots]
  have hnext : (s.setEmission m { E with slots := rest }).pending n c ≤ s.pending n c := by
    rw [pending_setEmission]
    split
    · rename_i heq
      rw [hbefore heq, pending_rest hp]
      omega
    · exact Nat.le_refl _
  rcases invoke_cases s m E c' rest with heq | heq | ⟨k, o, _, _, _, heq⟩ | ⟨k, _, _, _, _, heq⟩
  · rw [heq]
    exact Nat.add_le_add_left hnext _
  · rw [heq]
    exact Nat.add_le_add_left hnext _
  · rw [heq]
    refine Nat.add_le_add_left ?_ _
    rw [pending_setEmission]
    split
    · rename_i heq
      rw [hbefore heq, Emission.pending]
      simp
    · exact Nat.le_refl _
  · rw [heq, copies, copies, starts_record]
    have hstart : startsFor n c (.started (s.startNow m E c' k)) = (m = n && c' = c) := rfl
    change s.starts n c + _ + s.waits n c + (s.setEmission m { E with slots := rest }).pending n c
      ≤ _
    rw [hstart, pending_setEmission]
    by_cases hnm : n = m
    · rw [if_pos hnm, hbefore hnm, pending_rest hp]
      simp only [hnm, decide_true, Bool.true_and, decide_eq_true_eq]
      omega
    · simp only [if_neg hnm, Ne.symm hnm, decide_false, Bool.false_and, Bool.false_eq_true]
      exact Nat.le_refl _

/-- A delivery that is posted waits. -/
theorem copies_post_le {m c' : ℕ} (hE : s.emissions m = some E) (hp : E.posting = some (o, c'))
    (n c : ℕ) : (s.post m E o c').copies n c ≤ s.copies n c := by
  have hw := waits_enqueue_le (s := s.setEmission m { E with posting := none }) (e := o) (n := n)
    (c := c) (d := ⟨m, E.ctx.thread, c', (s.connections c').bind Connection.receiver⟩)
  have hpend : (s.setEmission m { E with posting := none }).pending n c +
      (if m = n ∧ c' = c then 1 else 0) = s.pending n c := by
    rw [pending_setEmission]
    split
    · rename_i heq
      rw [pending_of_emission (heq ▸ hE), Emission.pending, Emission.pending, hp]
      simp [heq]
    · rename_i hne
      rw [if_neg fun hand => hne hand.1.symm, Nat.add_zero]
  rw [post, copies, copies, starts_record]
  have hstart : startsFor n c (.posted m c') = false := rfl
  rw [hstart]
  dsimp only at hw
  change s.starts n c + 0 + (SignalRun.enqueue _ o _).waits n c +
    (s.setEmission m { E with posting := none }).pending n c ≤ _
  have hold : (s.setEmission m { E with posting := none }).waits n c = s.waits n c := rfl
  omega

/-- A delivery that an executor runs is started, or posted again, or left out. -/
theorem copies_run_le {before after : List (ExecutorId × Delivery)}
    (hposts : s.posts = before ++ (e, d) :: after) (n c : ℕ) :
    (runTask { s with posts := before ++ after } e t d).copies n c ≤ s.copies n c := by
  have hw : s.waits n c = waits { s with posts := before ++ after } n c +
      if d.emission = n ∧ d.connection = c then 1 else 0 := by
    simp only [waits, hposts, List.countP_append, List.countP_cons, Bool.and_eq_true,
      decide_eq_true_eq]
    omega
  rcases runTask_cases { s with posts := before ++ after } e t d with
    ⟨heq, _⟩ | ⟨o, _, _, heq⟩ | ⟨k, _, _, _, _, heq⟩
  · rw [heq, copies, copies, hw]
    change s.starts n c + _ + s.pending n c ≤ _
    omega
  · have hle := waits_enqueue_le (s := { s with posts := before ++ after }) (e := o) (n := n)
      (c := c) (d := d)
    rw [heq, copies, copies, hw]
    change s.starts n c + _ + s.pending n c ≤ _
    omega
  · rw [heq, copies, copies, starts_record, hw]
    have hstart : startsFor n c
        (.started (startQueued { s with posts := before ++ after } e t d k)) =
        (d.emission = n && d.connection = c) := rfl
    rw [hstart]
    simp only [Bool.and_eq_true, decide_eq_true_eq]
    change s.starts n c + _ + waits { s with posts := before ++ after } n c + s.pending n c ≤ _
    omega

/-- No step but `emit` makes copies. -/
theorem copies_step (hs : Step s l s') (hl : ∀ signal ctx, l ≠ .emit signal ctx) (n c : ℕ) :
    s'.copies n c ≤ s.copies n c := by
  cases hs with
  | create | deleteLater | destroy | applyMoveTo | connect | disconnect => exact Nat.le_refl _
  | emit => exact absurd rfl (hl _ _)
  | invoke hE hp hslots => exact copies_invoke_le hE hp hslots n c
  | post hE hp => exact copies_post_le hE hp n c
  | run hposts _ => exact copies_run_le hposts n c
  | @retire e =>
    have hw : (s.retire e).waits n c ≤ s.waits n c := (List.filter_sublist).countP_le
    exact Nat.add_le_add_right (Nat.add_le_add_left hw _) _

/-- Only `emit` begins an emission. -/
theorem emitted_step (hs : Step s l s') (hl : ∀ signal ctx, l ≠ .emit signal ctx) :
    s'.emitted = s.emitted := by
  cases hs with
  | create | deleteLater | destroy | applyMoveTo | connect | disconnect | post | retire => rfl
  | emit => exact absurd rfl (hl _ _)
  | @invoke m c' E rest _ _ _ =>
    rcases invoke_cases s m E c' rest with heq | heq | ⟨k, o, _, _, _, heq⟩ | ⟨k, _, _, _, _, heq⟩
    · rw [heq]
      rfl
    · rw [heq]
      rfl
    · rw [heq]
      rfl
    · rw [heq]
      rfl
  | @run e t d before after _ _ =>
    rcases runTask_cases { s with posts := before ++ after } e t d with
      ⟨heq, _⟩ | ⟨o, _, _, heq⟩ | ⟨k, _, _, _, _, heq⟩
    · rw [heq]
    · rw [heq]
      rfl
    · rw [heq]
      rfl

/-- A new emission has every slot once. -/
theorem Ledger.emit {signal : ℕ} {ctx : CallContext} (h : s.Ledger) (hk : s.Known) :
    (s.emit signal ctx).Ledger := by
  have hnew (c : ℕ) : (s.emit signal ctx).copies s.emitted c ≤ 1 := by
    have hzero := h.fresh s.emitted c (Nat.le_refl _)
    have hpend : (s.emit signal ctx).pending s.emitted c ≤ 1 := by
      have hprune : (s.pruneDisconnected signal).Known := hk.prune
      refine Nat.le_trans (Nat.le_of_eq ?_)
        (List.nodup_iff_count_le_one.mp (hprune.slots signal).1 c)
      exact pending_of_emission (E := { ctx, slots := _ }) (Function.update_self ..)
    rw [copies] at hzero ⊢
    change s.starts s.emitted c + s.waits s.emitted c + _ ≤ 1
    omega
  have hold (n c : ℕ) (hn : n ≠ s.emitted) : (s.emit signal ctx).copies n c = s.copies n c := by
    have hpend : (s.emit signal ctx).pending n c = s.pending n c := by
      simp only [pending, SignalRun.emit, setEmission, pruneDisconnected, Function.update_of_ne hn]
    rw [copies, hpend]
    rfl
  refine ⟨fun n c => ?_, fun n c hn => ?_⟩
  · by_cases heq : n = s.emitted
    · exact heq ▸ hnew c
    · exact hold n c heq ▸ h.once n c
  · have hlt : s.emitted < n := hn
    exact (hold n c (Nat.ne_of_gt hlt)).trans (h.fresh n c (Nat.le_of_lt hlt))

/-- Every step keeps the ledger. -/
theorem Ledger.step (h : s.Ledger) (hk : s.Known) (hs : Step s l s') : s'.Ledger := by
  by_cases hl : ∀ signal ctx, l ≠ .emit signal ctx
  · have hle := copies_step hs hl
    exact ⟨fun n c => Nat.le_trans (hle n c) (h.once n c), fun n c hn =>
      Nat.le_zero.mp (h.fresh n c (emitted_step hs hl ▸ hn) ▸ hle n c)⟩
  · push Not at hl
    obtain ⟨signal, ctx, rfl⟩ := hl
    cases hs
    exact h.emit hk

/-! ### What is posted is in order -/

/-- The receiver of an addressed connection stays the same. -/
theorem Grows.receiver (hg : Grows s s') (h : s.Addressed e c) :
    (s'.connections c).bind Connection.receiver = (s.connections c).bind Connection.receiver := by
  obtain ⟨k, _, hk, _⟩ := h
  obtain ⟨k', hk', hr', _⟩ := hg.connection c k hk
  rw [hk, hk', Option.bind_some, Option.bind_some, hr']

/-- The emissions and the posts are old ones. -/
theorem Routed.frame (h : s.Routed) (hg : Grows s s')
    (hE : ∀ n E o c, s'.emissions n = some E → E.posting = some (o, c) → s.Addressed o c)
    (hposts : ∀ p ∈ s'.posts, p ∈ s.posts) : s'.Routed where
  posting n E o c hn hp := (hE n E o c hn hp).grows hg
  waiting p hp := by
    obtain ⟨haddr, hr⟩ := h.waiting p (hposts p hp)
    exact ⟨haddr.grows hg, (hg.receiver haddr).trans hr⟩

/-- An entry of the record routes nothing. -/
theorem Routed.record (h : s.Routed) : (s.record v).Routed :=
  h.frame .record (fun n E o c hn hp => h.posting n E o c hn hp) fun _ hp => hp

/-- A step of an emission that is addressed keeps the routes. -/
theorem Routed.setEmission (h : s.Routed)
    (hE : ∀ o c, E.posting = some (o, c) → s.Addressed o c) : (s.setEmission n E).Routed := by
  refine h.frame .setEmission (fun m E' o c hm hp => ?_) fun _ hp => hp
  by_cases heq : m = n
  · subst heq
    obtain rfl : E = E' := by simpa [SignalRun.setEmission] using hm
    exact hE o c hp
  · exact h.posting m E' o c
      (by simpa [SignalRun.setEmission, Function.update_of_ne heq] using hm) hp

/-- A delivery that is addressed can be posted. -/
theorem Routed.enqueue (h : s.Routed) (haddr : s.Addressed e d.connection)
    (hr : (s.connections d.connection).bind Connection.receiver = d.receiver) :
    (s.enqueue e d).Routed where
  posting n E o c hn hp := (h.posting n E o c hn hp).grows .enqueue
  waiting p hp := by
    have hp : p ∈ s.posts ∨ p = (e, d) := by
      simp only [SignalRun.enqueue] at hp
      split at hp
      · exact Or.inl hp
      · simpa using hp
    rcases hp with hp | rfl
    · exact ⟨(h.waiting p hp).1.grows .enqueue, (h.waiting p hp).2⟩
    · exact ⟨haddr.grows .enqueue, hr⟩

/-- The owner that is read has owned the receiver. -/
theorem Known.owned (h : s.Known) (hk : s.connections c = some k)
    (ho : s.ownerOf k.receiver = some o) :
    ∃ g, k.receiver = some g ∧ .owned g o ∈ s.log := by
  rw [ownerOf, Option.bind_eq_some_iff] at ho
  obtain ⟨g, hg, ho⟩ := ho
  obtain ⟨o', ho', howned⟩ := h.owners g (h.receivers c k g hk hg)
  obtain rfl := Option.some.inj (ho.symm.trans ho')
  exact ⟨g, hg, howned⟩

/-- Every step keeps the routes. -/
theorem Routed.step (h : s.Routed) (hk : s.Known) (hs : Step s l s') : s'.Routed := by
  have hg := hs.grows hk
  cases hs with
  | create => exact h.frame hg h.posting fun _ hp => hp
  | deleteLater _ => exact h.frame hg h.posting fun _ hp => hp
  | destroy _ => exact h.frame hg h.posting fun _ hp => hp
  | applyMoveTo _ => exact h.frame hg h.posting fun _ hp => hp
  | connect _ => exact h.frame hg h.posting fun _ hp => hp
  | disconnect _ => exact h.frame hg h.posting fun _ hp => hp
  | @emit signal ctx =>
    have hnext : ((s.pruneDisconnected signal).setEmission s.emitted
        { ctx, slots := (s.pruneDisconnected signal).slots signal }).Routed :=
      Routed.setEmission (h.frame (.of_eq (fun _ => id) (fun _ => id) rfl rfl rfl rfl) h.posting
        fun _ hp => hp) nofun
    exact ⟨hnext.posting, hnext.waiting⟩
  | @invoke n c E rest hE hp _ =>
    have hnone : ∀ o c, E.posting = some (o, c) → s.Addressed o c := by simp [hp]
    rcases invoke_cases s n E c rest with
      heq | heq | ⟨k, o, hkc, htype, ho, heq⟩ | ⟨k, _, _, _, _, heq⟩
    · rw [heq]
      exact h.setEmission hnone
    · rw [heq]
      have hnext : (s.setEmission n { E with slots := rest }).Routed := h.setEmission hnone
      exact hnext.frame .sever hnext.posting fun _ hp => hp
    · rw [heq]
      obtain ⟨g, hr, howned⟩ := hk.owned hkc ho
      refine h.setEmission fun o' c' hp' => ?_
      obtain ⟨rfl, rfl⟩ := Prod.mk.inj (Option.some.inj hp')
      exact ⟨k, g, hkc, htype, hr, howned⟩
    · rw [heq]
      exact Routed.record (h.setEmission hnone)
  | @post n c E o hE hp =>
    have haddr := h.posting n E o c hE hp
    refine Routed.record (Routed.enqueue (h.setEmission nofun) ?_ rfl)
    exact haddr.grows .setEmission
  | @run e t d before after hposts _ =>
    have hpop : Routed { s with posts := before ++ after } :=
      h.frame (.of_eq (fun _ => id) (fun _ => id) rfl rfl rfl rfl) h.posting fun p hp => by
        rw [hposts, List.mem_append, List.mem_cons]
        rcases List.mem_append.mp hp with hp | hp
        · exact Or.inl hp
        · exact Or.inr (Or.inr hp)
    obtain ⟨⟨k, g, hkc, htype, hr, _⟩, hrec⟩ := h.waiting (e, d) (by simp [hposts])
    rcases runTask_cases { s with posts := before ++ after } e t d with
      ⟨heq, _⟩ | ⟨o, ho, _, heq⟩ | ⟨k, _, _, _, _, heq⟩
    · rw [heq]
      exact hpop
    · rw [heq]
      have hkr : k.receiver = d.receiver := by
        rw [← hrec, hkc]
        rfl
      obtain ⟨g', hr', howned⟩ := hk.owned hkc (hkr ▸ ho)
      exact hpop.enqueue ⟨k, g', hkc, htype, hr', howned⟩ hrec
    · rw [heq]
      exact hpop.record
  | retire => exact h.frame hg h.posting fun p hp => List.mem_of_mem_filter hp

/-! ### What has ended -/

/-- `disconnect` ends a connection for good. -/
theorem Ended.disconnect (h : s.Ended) (hk : s.Known) (hc : c < s.made) :
    (s.disconnect c).Ended := by
  have hg : Grows s (s.disconnect c) := Grows.sever.trans .record
  refine ⟨fun c' hc' => ?_, fun g hg' => ?_, fun g hg' => ?_⟩
  · rcases List.mem_cons.mp hc' with heq | hc'
    · obtain rfl := SignalEvent.disconnected.inj heq
      obtain ⟨k, hkc⟩ := (hk.made c').mp hc
      exact ⟨_, connections_sever_self hkc, rfl⟩
    · obtain ⟨k, hkc, hf⟩ := h.disconnected c' hc'
      obtain ⟨k', hk', _, _, hf'⟩ := hg.connection c' k hkc
      exact ⟨k', hk', hf' hf⟩
  · exact h.marked g ((List.mem_cons.mp hg').resolve_left nofun)
  · exact h.destroyed g ((List.mem_cons.mp hg').resolve_left nofun)

/-- No more ends are observed. -/
theorem Ended.frame (h : s.Ended) (hg : Grows s s')
    (hl : ∀ w ∈ s'.log, IsEnd w → w ∈ s.log) : s'.Ended where
  disconnected c hc := by
    obtain ⟨k, hk, hf⟩ := h.disconnected c (hl _ hc trivial)
    obtain ⟨k', hk', _, _, hf'⟩ := hg.connection c k hk
    exact ⟨k', hk', hf' hf⟩
  marked g hg' := by
    obtain ⟨hlt, hf⟩ := h.marked g (hl _ hg' trivial)
    exact ⟨Nat.lt_of_lt_of_le hlt hg.nodes, hg.invoke g hlt hf⟩
  destroyed g hg' := by
    obtain ⟨hlt, hf⟩ := h.destroyed g (hl _ hg' trivial)
    exact ⟨Nat.lt_of_lt_of_le hlt hg.nodes, hg.invoke g hlt hf⟩

/-- A node is marked or destroyed. -/
theorem Ended.close {b : NodeLifetimeBlock} (h : s.Ended) (hlt : g < s.nodes)
    (hb : (b.alive && !b.markedForDelete) = false) (hv : v = .marked g ∨ v = .destroyed g) :
    ((s.setBlock g b).record v).Ended := by
  have hset : Grows s (s.setBlock g b) :=
    .setBlock fun hand => absurd (hb.symm.trans hand) (by simp)
  have hf : ((s.setBlock g b).record v).canInvokeReceiver (some g) = false := by
    simpa [canInvokeReceiver, record, setBlock] using hb
  have hg : Grows s ((s.setBlock g b).record v) := hset.trans .record
  refine ⟨fun c hc => ?_, fun g' hg' => ?_, fun g' hg' => ?_⟩
  · have hc : .disconnected c ∈ s.log := (List.mem_cons.mp hc).resolve_left (by
      rcases hv with rfl | rfl
      · exact nofun
      · exact nofun)
    exact h.disconnected c hc
  · rcases List.mem_cons.mp hg' with heq | hg'
    · obtain rfl : g' = g := by
        rcases hv with rfl | rfl
        · exact SignalEvent.marked.inj heq
        · exact nomatch heq
      exact ⟨hlt, hf⟩
    · exact ⟨(h.marked g' hg').1, hg.invoke g' (h.marked g' hg').1 (h.marked g' hg').2⟩
  · rcases List.mem_cons.mp hg' with heq | hg'
    · obtain rfl : g' = g := by
        rcases hv with rfl | rfl
        · exact nomatch heq
        · exact SignalEvent.destroyed.inj heq
      exact ⟨hlt, hf⟩
    · exact ⟨(h.destroyed g' hg').1, hg.invoke g' (h.destroyed g' hg').1 (h.destroyed g' hg').2⟩

/-- Nothing is observed, or a start that may be. -/
def Starts (s s' : SignalRun) : Prop :=
  s'.log = s.log ∨ ∃ d, s'.log = .started d :: s.log ∧ s.Startable d

/-- A slot that is invoked starts once. -/
theorem starts_invoke : Starts s (s.invoke n E c rest) := by
  rcases invoke_cases s n E c rest with
    heq | heq | ⟨k, o, _, _, _, heq⟩ | ⟨k, hkc, hconn, hinv, hcur, heq⟩
  · rw [heq]
    exact Or.inl rfl
  · rw [heq]
    exact Or.inl rfl
  · rw [heq]
    exact Or.inl rfl
  · rw [heq]
    exact Or.inr ⟨_, rfl, ⟨k, hkc, hconn⟩, hinv, rfl, hcur⟩

/-- A delivery that runs starts its slot at most once. -/
theorem starts_runTask : Starts s (s.runTask e t d) := by
  rcases runTask_cases s e t d with ⟨heq, _⟩ | ⟨o, _, _, heq⟩ | ⟨k, hkc, hconn, hinv, howner, heq⟩
  · rw [heq]
    exact Or.inl rfl
  · rw [heq]
    exact Or.inl rfl
  · rw [heq]
    refine Or.inr ⟨_, rfl, ⟨k, hkc, hconn⟩, hinv, rfl, fun _ o ho => ?_⟩
    obtain rfl := howner o ho
    cases o with
    | loop t => exact beq_self_eq_true t
    | strand i => exact beq_self_eq_true (some i)

/-- A step observes no start, or one that may be. -/
theorem log_step (hs : Step s l s') :
    Starts s s' ∨ ∃ v, s'.log = v :: s.log ∧ ∀ d, v ≠ .started d := by
  cases hs with
  | create | deleteLater | destroy | applyMoveTo | disconnect | post => exact Or.inr ⟨_, rfl, nofun⟩
  | connect | emit | retire => exact Or.inl (Or.inl rfl)
  | invoke => exact Or.inl starts_invoke
  | run => exact Or.inl starts_runTask

/-- What has ended has ended behind every step. -/
theorem Ended.step (h : s.Ended) (hk : s.Known) (hs : Step s l s') : s'.Ended := by
  have hg := hs.grows hk
  have hstarts (hst : Starts s s') : s'.Ended := h.frame hg fun w hw hend => by
    rcases hst with heq | ⟨d, heq, _⟩
    · exact heq ▸ hw
    · rw [heq] at hw
      exact (List.mem_cons.mp hw).resolve_left fun heq => by rwa [heq] at hend
  cases hs with
  | deleteLater hal => exact h.close (hk.alive _ hal) (by simp) (Or.inl rfl)
  | destroy hal => exact h.close (hk.alive _ hal) (by simp) (Or.inr rfl)
  | disconnect hc => exact h.disconnect hk hc
  | create | applyMoveTo | post =>
    exact h.frame hg fun w hw hend => (List.mem_cons.mp hw).resolve_left fun heq => by
      rwa [heq] at hend
  | connect | emit | retire => exact hstarts (Or.inl rfl)
  | invoke => exact hstarts starts_invoke
  | run => exact hstarts starts_runTask

/-! ### Safety -/

/-- Where a slot may start, nothing has ended it. -/
theorem Ended.not_ends {d : SlotStart} (h : s.Ended) (hd : s.Startable d) :
    ∀ w ∈ s.log, ¬ Ends w d := by
  obtain ⟨⟨k, hk, hconn⟩, hinv, _⟩ := hd
  intro w hw hends
  cases w with
  | disconnected c =>
    obtain ⟨k', hk', hf⟩ := h.disconnected c hw
    obtain rfl : d.connection = c := hends
    obtain rfl := Option.some.inj (hk.symm.trans hk')
    exact Bool.noConfusion (hconn.symm.trans hf)
  | marked g =>
    rw [show d.receiver = some g from hends, (h.marked g hw).2] at hinv
    exact Bool.noConfusion hinv
  | destroyed g =>
    rw [show d.receiver = some g from hends, (h.destroyed g hw).2] at hinv
    exact Bool.noConfusion hinv
  | owned | posted | started => exact hends

/-- A receiver that may be invoked is alive, so it has an owner. -/
theorem Known.owner_of_canInvoke {receiver : Option Generation} (hk : s.Known)
    (h : s.canInvokeReceiver receiver = true) : ∃ o, s.ownerOf receiver = some o := by
  rw [canInvokeReceiver, Option.any_eq_true] at h
  obtain ⟨g, hg, hand⟩ := h
  obtain ⟨o, ho, _⟩ := hk.owners g (hk.alive g (Bool.and_eq_true_iff.mp hand).1)
  refine ⟨o, ?_⟩
  rw [ownerOf, hg]
  exact ho

/-- A slot that may start has a receiver with an owner. -/
theorem Startable.inside {d : SlotStart} (hd : s.Startable d) (hk : s.Known)
    (htype : d.type ≠ .direct) : ∃ o, d.owner = some o ∧ d.ctx.isCurrent o = true := by
  obtain ⟨_, hinv, howner, hcur⟩ := hd
  obtain ⟨o, hown⟩ := hk.owner_of_canInvoke hinv
  exact ⟨o, howner.trans hown, hcur htype o hown⟩

/-- A delivery was started, or waits, or is excused. -/
def Kept (s : SignalRun) (n c : ℕ) : Prop := 0 < s.starts n c ∨ 0 < s.waits n c ∨ s.Excused c

/-- What waited waits, or else is started or excused. -/
theorem Kept.next (h : s.Kept n c) (hk : s.Known) (hg : Grows s s')
    (hstarts : s.starts n c ≤ s'.starts n c) (hwaits : 0 < s.waits n c → s'.Kept n c) :
    s'.Kept n c := by
  rcases h with h | h | h
  · exact Or.inl (Nat.lt_of_lt_of_le h hstarts)
  · exact hwaits h
  · exact Or.inr (Or.inr (h.grows hk hg))

/-- The record takes no start back. -/
theorem starts_le_record : s.starts n c ≤ (s.record v).starts n c := by
  rw [starts_record]
  exact Nat.le_add_right ..

/-- No step takes a start back. -/
theorem starts_step (hs : Step s l s') : s.starts n c ≤ s'.starts n c := by
  rcases log_step hs with (heq | ⟨d, heq, _⟩) | ⟨v, heq, _⟩
  · rw [starts, starts, heq]
  · rw [starts, starts, heq, List.countP_cons]
    exact Nat.le_add_right ..
  · rw [starts, starts, heq, List.countP_cons]
    exact Nat.le_add_right ..

/-- A slot that is invoked posts nothing. -/
theorem posts_invoke : (s.invoke n E c rest).posts = s.posts := by
  rcases invoke_cases s n E c rest with heq | heq | ⟨k, o, _, _, _, heq⟩ | ⟨k, _, _, _, _, heq⟩
  · rw [heq]
    rfl
  · rw [heq]
    rfl
  · rw [heq]
    rfl
  · rw [heq]
    rfl

/-- A posted delivery takes none away. -/
theorem waits_le_enqueue : s.waits n c ≤ (s.enqueue e d).waits n c := by
  simp only [waits, enqueue]
  split
  · exact Nat.le_refl _
  · rw [List.countP_append]
    exact Nat.le_add_right ..

/-- What is posted waits, unless the executor has been shut down. -/
theorem kept_enqueue (haddr : s.Addressed e d.connection) :
    (s.enqueue e d).Kept d.emission d.connection := by
  by_cases hret : e ∈ s.retired
  · obtain ⟨k, g, hk, _, hr, howned⟩ := haddr
    exact Or.inr (Or.inr ⟨k, hk, Or.inr (Or.inr ⟨g, e, hr, howned, hret⟩)⟩)
  · refine Or.inr (Or.inl ?_)
    simp only [waits, enqueue, if_neg hret]
    exact List.countP_pos_iff.mpr ⟨(e, d), by simp, by simp⟩

/-- The delivery that an executor takes is kept. -/
theorem kept_runTask (hk : s.Known) (haddr : s.Addressed e d.connection)
    (hrec : (s.connections d.connection).bind Connection.receiver = d.receiver) :
    (s.runTask e t d).Kept d.emission d.connection := by
  obtain ⟨k, g, hkc, htype, hr, _⟩ := haddr
  have hkr : k.receiver = d.receiver := by
    rw [← hrec, hkc]
    rfl
  rcases runTask_cases s e t d with ⟨heq, hend⟩ | ⟨o, ho, _, heq⟩ | ⟨k', _, _, _, _, heq⟩
  · rw [heq]
    refine Or.inr (Or.inr ⟨k, hkc, ?_⟩)
    rcases hend k hkc with h | h
    · exact Or.inl h
    · exact Or.inr (Or.inl (hkr ▸ h))
  · rw [heq]
    obtain ⟨g', hr', howned⟩ := hk.owned hkc (hkr ▸ ho)
    exact kept_enqueue ⟨k, g', hkc, htype, hr', howned⟩
  · rw [heq]
    refine Or.inl ?_
    rw [starts_record]
    have hstart : startsFor d.emission d.connection (.started (s.startQueued e t d k')) = true := by
      simp [startsFor, startQueued]
    rw [hstart]
    exact Nat.succ_pos _

/-- A delivery that runs takes none from those that wait. -/
theorem waits_le_runTask : s.waits n c ≤ (s.runTask e t d).waits n c := by
  rcases runTask_cases s e t d with ⟨heq, _⟩ | ⟨o, _, _, heq⟩ | ⟨k, _, _, _, _, heq⟩
  · rw [heq]
  · rw [heq]
    exact waits_le_enqueue
  · rw [heq]
    exact Nat.le_refl _

/-- Every step keeps what has been emitted. -/
theorem Kept.step (h : s.Kept n c) (hk : s.Known) (hr : s.Routed) (hs : Step s l s') :
    s'.Kept n c := by
  refine h.next hk (hs.grows hk) (starts_step hs) fun hw => ?_
  cases hs with
  | create | deleteLater | destroy | applyMoveTo | connect | disconnect | emit =>
    exact Or.inr (Or.inl hw)
  | invoke =>
    refine Or.inr (Or.inl ?_)
    rw [waits, posts_invoke]
    exact hw
  | post _ _ => exact Or.inr (Or.inl (Nat.lt_of_lt_of_le hw waits_le_enqueue))
  | @run e t d before after hposts _ =>
    obtain ⟨haddr, hrec⟩ := hr.waiting (e, d) (by simp [hposts])
    have hk' : Known { s with posts := before ++ after } :=
      hk.frame (.of_eq (fun _ => id) (fun _ => id) rfl rfl rfl rfl) rfl rfl rfl rfl
        fun _ k hk => ⟨k, hk⟩
    by_cases hd : d.emission = n ∧ d.connection = c
    · obtain ⟨rfl, rfl⟩ := hd
      exact kept_runTask hk' haddr hrec
    · refine Or.inr (Or.inl (Nat.lt_of_lt_of_le ?_ waits_le_runTask))
      simpa [waits, hposts, List.countP_append, List.countP_cons, hd] using hw
  | @retire e =>
    obtain ⟨p, hp, hand⟩ := List.countP_pos_iff.mp hw
    by_cases he : p.1 = e
    · obtain ⟨⟨k, g, hkc, _, hrec, howned⟩, _⟩ := hr.waiting p hp
      simp only [Bool.and_eq_true, decide_eq_true_eq] at hand
      rw [hand.2] at hkc
      exact Or.inr (Or.inr ⟨k, hkc, Or.inr (Or.inr
        ⟨g, p.1, hrec, howned, he ▸ List.mem_cons_self⟩)⟩)
    · exact Or.inr (Or.inl (List.countP_pos_iff.mpr
        ⟨p, List.mem_filter.mpr ⟨hp, by simpa using he⟩, hand⟩))

/-- What is posted is posted by an emission. -/
theorem posted_step (hs : Step s l s') (h : .posted n c ∈ s'.log) : .posted n c ∈ s.log ∨
    ∃ E o, s.emissions n = some E ∧ E.posting = some (o, c) ∧ s' = s.post n E o c := by
  have hstarts (hst : Starts s s') : .posted n c ∈ s.log := by
    rcases hst with heq | ⟨d, heq, _⟩
    · exact heq ▸ h
    · rw [heq] at h
      exact (List.mem_cons.mp h).resolve_left nofun
  cases hs with
  | create | deleteLater | destroy | applyMoveTo | disconnect =>
    exact Or.inl ((List.mem_cons.mp h).resolve_left nofun)
  | connect | emit | retire => exact Or.inl h
  | invoke => exact Or.inl (hstarts starts_invoke)
  | run => exact Or.inl (hstarts starts_runTask)
  | @post m c' E o hE hp =>
    rcases List.mem_cons.mp h with heq | h
    · obtain ⟨rfl, rfl⟩ := SignalEvent.posted.inj heq
      exact Or.inr ⟨E, o, hE, hp, rfl⟩
    · exact Or.inl h

/-- Every step is safe. -/
theorem Safe.step (h : s.Safe) (hk : s.Known) (hl : s.Ledger) (hr : s.Routed) (he : s.Ended)
    (hs : Step s l s') : s'.Safe where
  ended := by
    rcases log_step hs with (heq | ⟨d, heq, hd⟩) | ⟨v, heq, hv⟩
    · rw [heq]
      exact h.ended
    · rw [heq]
      refine List.pairwise_cons.mpr ⟨fun w hw d' heq' => ?_, h.ended⟩
      obtain rfl := SignalEvent.started.inj heq'
      exact he.not_ends hd w hw
    · rw [heq]
      exact List.pairwise_cons.mpr ⟨fun w _ d heq' => absurd heq' (hv d), h.ended⟩
  once n c := by
    have hle := (hl.step hk hs).once n c
    rw [copies] at hle
    omega
  inside d hd htype := by
    rcases log_step hs with (heq | ⟨d', heq, hd'⟩) | ⟨v, heq, hv⟩
    · exact h.inside d (heq ▸ hd) htype
    · rw [heq] at hd
      rcases List.mem_cons.mp hd with heq' | hd
      · obtain rfl := SignalEvent.started.inj heq'
        exact hd'.inside hk htype
      · exact h.inside d hd htype
    · rw [heq] at hd
      rcases List.mem_cons.mp hd with heq' | hd
      · exact absurd heq'.symm (hv d)
      · exact h.inside d hd htype
  kept n c hp := by
    rcases posted_step hs hp with hp | ⟨E, o, hE, hpost, rfl⟩
    · exact Kept.step (h.kept n c hp) hk hr hs
    · have haddr : (s.setEmission n { E with posting := none }).Addressed o c :=
        (hr.posting n E o c hE hpost).grows .setEmission
      have hg : Grows s ((s.setEmission n { E with posting := none }).enqueue o
          ⟨n, E.ctx.thread, c, (s.connections c).bind Connection.receiver⟩) :=
        Grows.setEmission.trans .enqueue
      exact Kept.next (kept_enqueue haddr) (hk.frame hg rfl rfl rfl rfl fun _ k hk => ⟨k, hk⟩)
        .record starts_le_record fun hw => Or.inr (Or.inl hw)

/-! ### Runs -/

/-- **The invariant.** -/
structure Inv (s : SignalRun) : Prop where
  known : s.Known
  ledger : s.Ledger
  routed : s.Routed
  ended : s.Ended
  safe : s.Safe

/-- **What a step keeps.** -/
theorem Inv.step (h : s.Inv) (hs : Step s l s') : s'.Inv where
  known := h.known.step hs
  ledger := h.ledger.step h.known hs
  routed := h.routed.step h.known hs
  ended := h.ended.step h.known hs
  safe := h.safe.step h.known h.ledger h.routed h.ended hs

/-- At the start all of it holds. -/
theorem Inv.init : Inv {} where
  known := ⟨fun c => iff_of_false (Nat.not_lt_zero c) nofun, nofun, nofun, nofun,
    fun _ => ⟨List.nodup_nil, nofun⟩⟩
  ledger := ⟨fun _ _ => Nat.zero_le _, fun _ _ _ => rfl⟩
  routed := ⟨nofun, nofun⟩
  ended := ⟨nofun, nofun, nofun⟩
  safe := ⟨List.Pairwise.nil, fun _ _ => Nat.zero_le _, nofun, nofun⟩

/-- In every run no slot is started after its connection or its receiver has ended, none twice for
one emission, and none outside of the owner unless it is direct; and no delivery is lost, unless
it is not to be started any more or an executor that has owned its receiver has been shut down. -/
theorem deliveries_safe {ls : List SignalStep} (h : Reaches Step {} ls s) : s.Safe :=
  (h.invariant (fun _ _ _ hi _ hs => hi.step hs) Inv.init).safe

/-- The first delivery can run. -/
theorem Step.run_head {after : List (ExecutorId × Delivery)} (h : s.posts = (e, d) :: after) :
    Step s (.run e t) ({ s with posts := after }.runTask e t d) :=
  Step.run (s := s) (h.trans (List.nil_append _).symm) nofun

/-- A delivery is forwarded twice, and starts at its third executor. -/
theorem forwarded_twice : ∃ ls s, Reaches Step {} ls s ∧ s.starts 0 0 = 1 ∧ s.Safe := by
  have hrun : Reaches Step {} [.create (.loop 0), .connect 0 (some 0) .auto,
      .emit 0 (.onLoop 9), .invoke 0, .post 0, .applyMoveTo 0 (.strand 4), .run (.loop 0) 0,
      .applyMoveTo 0 (.loop 1), .run (.strand 4) 7, .run (.loop 1) 1] _ :=
    .cons trivial .create <| .cons trivial (.connect (by decide)) <| .cons trivial .emit <|
    .cons trivial (.invoke rfl rfl rfl) <| .cons trivial (.post rfl rfl) <|
    .cons trivial (.applyMoveTo rfl) <| .cons trivial (.run_head rfl) <|
    .cons trivial (.applyMoveTo rfl) <| .cons trivial (.run_head rfl) <|
    .cons trivial (.run_head rfl) <| .nil _
  exact ⟨_, _, hrun, rfl, deliveries_safe hrun⟩

end SignalRun

end SimplyNode
