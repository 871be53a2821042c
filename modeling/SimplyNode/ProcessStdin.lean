import SimplyNode.StreamSocket

/-!
# The Stdin of a Process

`Process` queues what is written to its child and flushes the queue (`writeImpl`, `flushWriteQueue`,
`closePipeWrite` in `Process.cpp`). The loop of a flush emits `bytesWritten` on the spot, and holds
a reference to the front of the queue over it. A slot may write again, which starts a second loop on
the same queue, and so on: the loops that have not returned are a stack, and only the one on top is
not in an emission.

An entry of the queue is known by its number in the order in which entries were pushed. A reference
to an entry that has been removed is noticed when the slots return.

## Main results

* `ProcessStdin.inv_step`: what the loops, the queue and the bytes have to do with each other.
* `ProcessStdin.orderly_of_run`: **the child gets the accepted bytes in order**, and the loops
  work on what is in the queue, if a slot neither writes when the front is consumed nor makes the
  front be removed, and the channel is closed when everything is written.
-/

open Transition

namespace SimplyNode

/-- `EPIPE`. -/
def epipe : Errno := 32

/-- `ECONNRESET`. -/
def econnreset : Errno := 104

/-- A loop of `flushWriteQueue`. -/
inductive FlushLoop
  /-- It is about to call `::write`. -/
  | running
  /-- It emits `bytesWritten`, and holds a reference to this entry. -/
  | emitting (front : ℕ)
  /-- It emits `errorOccurred`, and is about to close the channel. -/
  | failing
  deriving DecidableEq

/-- The loop holds a reference. -/
def FlushLoop.holds : FlushLoop → Bool
  | .emitting _ => true
  | .running | .failing => false

/-- What a `Process` knows of the stdin of its child, with the bytes that were accepted and
written. -/
structure ProcessStdin where
  /-- The state is `Running`. -/
  running : Bool := true
  /-- There is a descriptor. -/
  isOpen : Bool := true
  writeQueue : List ByteArray := []
  /-- How many entries have been removed from the queue. -/
  removed : ℕ := 0
  loops : List FlushLoop := []
  accepted : Bytes := []
  written : Bytes := []
  /-- The kernel has reported an error. -/
  failed : Bool := false
  exited : Bool := false
  /-- A loop has worked on an entry that was removed or consumed. -/
  stale : Bool := false
  deriving DecidableEq

/-- What happens to the stdin of a process. -/
inductive StdinEvent
  /-- `write`, from outside or from a slot. -/
  | write (data : ByteArray)
  /-- `closeWriteChannel`, from outside or from a slot. -/
  | closeWriteChannel
  /-- `::write` returns to the loop on top. -/
  | kernelWrites (result : SendResult)
  /-- The slots of the emission on top return. -/
  | slotsReturn
  /-- `EPOLLOUT` in `handleStdinEvents`. -/
  | writable
  /-- `EPOLLERR` or `EPOLLHUP` in `handleStdinEvents`. -/
  | channelError
  /-- `handleChildExit`. -/
  | childExits
  deriving DecidableEq

namespace ProcessStdin

variable (s : ProcessStdin)

/-- The owner is not in a loop, but outside or in a slot. -/
def inApplication : Bool := s.loops.head? ≠ some .running

/-- `closePipeWrite`. -/
def closePipeWrite : ProcessStdin :=
  { s with isOpen := false, writeQueue := [], removed := s.removed + s.writeQueue.length }

/-- The condition of the loop on top. -/
def testQueue : ProcessStdin :=
  match s.loops with
  | .running :: rest => if s.writeQueue = [] then { s with loops := rest } else s
  | _ => s

/-- `flushWriteQueue` is called. -/
def flushWriteQueue : ProcessStdin :=
  if s.isOpen then testQueue { s with loops := .running :: s.loops } else s

/-- `write` takes data. -/
def accepts : Bool := s.running && s.isOpen

/-- `writeImpl`. -/
def writeImpl (data : ByteArray) : ProcessStdin :=
  if data.remainingSize = 0 then s
  else if s.accepts then
    flushWriteQueue { s with
      writeQueue := s.writeQueue ++ [data]
      accepted := s.accepted ++ data.remainingView }
  else s

/-- The error of `::write` only ends the loop, or lets it try again. -/
def isTransient (errno : Errno) : Bool := errno = eintr || errno = eagain || errno = ewouldblock

/-- The loop on top, when `::write` has returned for the front of the queue. -/
def flushResult (front : ByteArray) (queue : List ByteArray) (rest : List FlushLoop)
    (r : SendResult) : Option ProcessStdin :=
  let s := { s with stale := s.stale || front.fullyConsumed }
  if 0 < r.written then
    if r.written ≤ front.remainingSize then
      some { s with
        writeQueue := front.advance r.written.toNat :: queue
        written := s.written ++ front.remainingView.take r.written.toNat
        loops := .emitting s.removed :: rest }
    else none
  else if r.written = 0 then
    if front.remainingSize = 0 then some { s with loops := .failing :: rest } else none
  else if r.errno = eintr then some s
  else if r.errno = eagain ∨ r.errno = ewouldblock then some { s with loops := rest }
  else if r.errno = epipe ∨ r.errno = econnreset then
    some { s.closePipeWrite with loops := rest, failed := true }
  else some { s with loops := .failing :: rest, failed := true }

/-- The loop on top goes on behind `emitBytesWritten`, with its reference to an entry. -/
def afterEmission (front : ℕ) (rest : List FlushLoop) : ProcessStdin :=
  let s := { s with loops := .running :: rest }
  if front < s.removed then testQueue { s with stale := true }
  else
    match s.writeQueue[front - s.removed]? with
    | none => testQueue { s with stale := true }
    | some data =>
        if data.fullyConsumed then
          testQueue { s with writeQueue := s.writeQueue.tail, removed := s.removed + 1 }
        else testQueue s

/-- What an event does, if it can happen. -/
def step : StdinEvent → Option ProcessStdin
  | .write data => if s.inApplication then some (s.writeImpl data) else none
  | .closeWriteChannel => if s.inApplication then some s.closePipeWrite else none
  | .kernelWrites r =>
      match s.loops, s.writeQueue with
      | .running :: rest, front :: queue => s.flushResult front queue rest r
      | _, _ => none
  | .slotsReturn =>
      match s.loops with
      | .emitting front :: rest => some (s.afterEmission front rest)
      | .failing :: rest => some { s.closePipeWrite with loops := rest }
      | _ => none
  | .writable => if s.loops = [] then some s.flushWriteQueue else none
  | .channelError => if s.loops = [] then some { s.closePipeWrite with failed := true } else none
  | .childExits =>
      if s.inApplication then some { s.closePipeWrite with running := false, exited := true }
      else none

/-- The steps of the owner. -/
def Step (s : ProcessStdin) (e : StdinEvent) (t : ProcessStdin) : Prop := s.step e = some t

/-- The bytes are written in order, the channel is closed when everything is written, or after an
error or the exit of the child, and no loop has worked on an entry that was removed or consumed. -/
structure Orderly : Prop where
  prefix_accepted : s.written <+: s.accepted
  closed : s.isOpen = false → s.failed ∨ s.exited ∨ s.written = s.accepted
  notStale : s.stale = false

/-- A loop holds a reference. -/
def Holding (loops : List FlushLoop) : Prop := ∃ loop ∈ loops, loop.holds = true

/-- A result leaves something of the front, and the channel open. -/
def Leaves (front : ByteArray) (r : SendResult) : Prop :=
  (0 < r.written ∧ r.written < front.remainingSize) ∨ (r.written < 0 ∧ isTransient r.errno = true)

/-- The steps that keep to what the loops hold. A slot of `bytesWritten` does not write when the
front is consumed, what it writes does not make the front be removed, and neither it nor anyone else
closes the channel before everything is written. -/
def Careful : StdinEvent → Prop
  | .write data =>
      data.remainingSize = 0 ∨ s.accepts = false ∨
        ∀ front ∈ s.writeQueue.head?, front.fullyConsumed = false
  | .closeWriteChannel =>
      s.isOpen = true → ¬Holding s.loops ∧ (s.writeQueue = [] ∨ s.failed = true)
  | .kernelWrites r =>
      Holding s.loops.tail → ∀ front ∈ s.writeQueue.head?, Leaves front r
  | .childExits => s.isOpen = true → ¬Holding s.loops
  | .slotsReturn | .writable | .channelError => True

instance (loops : List FlushLoop) : Decidable (Holding loops) :=
  inferInstanceAs (Decidable (∃ loop ∈ loops, loop.holds = true))

instance (front : ByteArray) (r : SendResult) : Decidable (Leaves front r) :=
  inferInstanceAs (Decidable (_ ∨ _))

instance (e : StdinEvent) : Decidable (s.Careful e) :=
  match e with
  | .write _ => inferInstanceAs (Decidable (_ ∨ _ ∨ _))
  | .closeWriteChannel => inferInstanceAs (Decidable (_ → _))
  | .kernelWrites _ => inferInstanceAs (Decidable (_ → _))
  | .childExits => inferInstanceAs (Decidable (_ → _))
  | .slotsReturn | .writable | .channelError => inferInstanceAs (Decidable True)

/-- How the loops of a stack stand to each other: only the top is in its loop, and below an
`errorOccurred` nobody holds a reference. -/
def Below (upper lower : FlushLoop) : Prop :=
  lower ≠ .running ∧ (upper = .failing → lower.holds = false)

/-- The loops, the queue and the bytes, before the loop on top looks at the queue. -/
structure Base : Prop where
  /-- A loop that holds a reference holds the front. -/
  held : ∀ k, .emitting k ∈ s.loops → s.isOpen = true ∧ k = s.removed ∧ s.writeQueue ≠ []
  stack : s.loops.Pairwise Below
  /-- A consumed front is about to be popped by the only loop that holds it. -/
  consumed : ∀ front queue, s.writeQueue = front :: queue → front.fullyConsumed = true →
    ∃ rest, s.loops = .emitting s.removed :: rest ∧ ¬Holding rest
  unconsumed : ∀ data ∈ s.writeQueue.tail, data.fullyConsumed = false
  failing : .failing ∈ s.loops → s.failed = true
  notStale : s.stale = false
  opened : s.isOpen = true →
    s.accepted = s.written ++ (s.writeQueue.map ByteArray.remainingView).flatten
  closed : s.isOpen = false → s.writeQueue = [] ∧ s.written <+: s.accepted ∧
    (s.failed = true ∨ s.exited = true ∨ s.written = s.accepted)

/-- The loops, the queue and the bytes. A loop on top has something to write. -/
structure Inv : Prop extends Base s where
  top : s.loops.head? = some .running → s.isOpen = true ∧ s.writeQueue ≠ []

variable {s}

theorem not_holding_nil : ¬Holding [] := fun ⟨_, hmem, _⟩ => absurd hmem List.not_mem_nil

theorem not_emitting_of_not_holding {loops : List FlushLoop} (h : ¬Holding loops) (k : ℕ) :
    .emitting k ∉ loops := fun hmem => h ⟨_, hmem, rfl⟩

/-- Below the loop on top, nobody is in his loop. -/
theorem Base.head_ne_running (h : Base s) {loop : FlushLoop} {rest : List FlushLoop}
    (hloops : s.loops = loop :: rest) : rest.head? ≠ some .running := by
  intro hhead
  have hpair := h.stack
  rw [hloops, List.pairwise_cons] at hpair
  exact (hpair.1 .running (List.mem_of_mem_head? hhead)).1 rfl

theorem Inv.running_not_mem (h : Inv s) (happ : s.inApplication = true) :
    ∀ loop ∈ s.loops, loop ≠ .running := by
  intro loop hmem
  have hhead : s.loops.head? ≠ some .running := of_decide_eq_true happ
  cases hloops : s.loops with
  | nil => rw [hloops] at hmem; cases hmem
  | cons upper rest =>
      have hpair := h.stack
      rw [hloops] at hmem hhead hpair
      rcases List.mem_cons.mp hmem with rfl | hmem
      · exact fun heq => hhead (congrArg some heq)
      · exact ((List.pairwise_cons.mp hpair).1 loop hmem).1

/-- The loop on top looks at the queue. -/
theorem inv_testQueue (h : Base s) {rest : List FlushLoop} (hloops : s.loops = .running :: rest)
    (hopen : s.isOpen = true) : Inv s.testQueue := by
  rw [testQueue, hloops]
  by_cases hqueue : s.writeQueue = []
  · have hmem : ∀ loop ∈ rest, loop ∈ s.loops := fun loop hloop =>
      hloops ▸ List.mem_cons_of_mem .running hloop
    have hstack := h.stack
    rw [hloops] at hstack
    simp only [if_pos hqueue]
    exact { h with
      held := fun k hk => h.held k (hmem _ hk)
      stack := hstack.of_cons
      consumed := fun front queue hcons => by simp [hqueue] at hcons
      failing := fun hfailing => h.failing (hmem _ hfailing)
      top := fun hhead => absurd hhead (h.head_ne_running hloops) }
  · simp only [if_neg hqueue]
    exact { h with top := fun _ => ⟨hopen, hqueue⟩ }

/-- The channel is closed for a reason, and nobody holds a reference. -/
theorem base_closePipeWrite (h : Base s) (hloops : ¬Holding s.loops)
    (hreason : s.failed = true ∨ s.exited = true ∨ s.writeQueue = []) :
    Base s.closePipeWrite where
  held k hk := absurd hk (not_emitting_of_not_holding hloops k)
  stack := h.stack
  consumed front queue hcons := by cases hcons
  unconsumed data hdata := by cases hdata
  failing := h.failing
  notStale := h.notStale
  opened hopen := by cases hopen
  closed _ := by
    refine ⟨rfl, ?_⟩
    change s.written <+: s.accepted ∧
      (s.failed = true ∨ s.exited = true ∨ s.written = s.accepted)
    cases hopen : s.isOpen with
    | false => exact (h.closed hopen).2
    | true =>
        have haccepted := h.opened hopen
        refine ⟨haccepted ▸ List.prefix_append ..,
          hreason.imp_right (Or.imp_right fun hqueue => ?_)⟩
        rw [haccepted, hqueue]
        simp

/-- The stack changes while no entry is consumed. -/
theorem base_loops (h : Base s) {loops : List FlushLoop}
    (hfresh : ∀ front ∈ s.writeQueue.head?, front.fullyConsumed = false)
    (hheld : ∀ k, .emitting k ∈ loops → s.isOpen = true ∧ k = s.removed ∧ s.writeQueue ≠ [])
    (hstack : loops.Pairwise Below) (hfailing : .failing ∈ loops → s.failed = true) :
    Base { s with loops := loops } where
  held := hheld
  stack := hstack
  consumed front queue hcons hconsumed := by
    have hfront := hfresh front (by rw [hcons, List.head?_cons]; rfl)
    rw [hconsumed] at hfront
    cases hfront
  unconsumed := h.unconsumed
  failing := hfailing
  notStale := h.notStale
  opened := h.opened
  closed := h.closed

/-- A loop on top that holds no reference has no consumed front. -/
theorem Base.fresh (h : Base s) (htop : ∀ k, s.loops.head? ≠ some (.emitting k)) :
    ∀ front ∈ s.writeQueue.head?, front.fullyConsumed = false := by
  intro front hfront
  obtain ⟨queue, hqueue⟩ : ∃ queue, s.writeQueue = front :: queue :=
    ⟨s.writeQueue.tail, List.eq_cons_of_mem_head? hfront⟩
  by_contra hconsumed
  obtain ⟨rest, hloops, -⟩ := h.consumed front queue hqueue (Bool.eq_true_of_not_eq_false hconsumed)
  exact htop s.removed (by rw [hloops, List.head?_cons])

theorem Base.stack_cons (h : Base s) {loop : FlushLoop} {rest : List FlushLoop}
    (hloops : s.loops = loop :: rest) {upper : FlushLoop}
    (hbelow : upper = .failing → ¬Holding rest) : (upper :: rest).Pairwise Below := by
  have hstack := h.stack
  rw [hloops, List.pairwise_cons] at hstack
  refine List.pairwise_cons.mpr ⟨fun lower hlower => ⟨(hstack.1 lower hlower).1, fun hupper => ?_⟩,
    hstack.2⟩
  by_contra hholds
  exact hbelow hupper ⟨lower, hlower, Bool.eq_true_of_not_eq_false hholds⟩

theorem Base.failed (h : Base s) : Base { s with failed := true } :=
  { h with
    failing := fun _ => rfl
    closed := fun hclosed =>
      let ⟨hqueue, hprefix, _⟩ := h.closed hclosed
      ⟨hqueue, hprefix, .inl rfl⟩ }

/-! ### The steps -/

/-- An entry is pushed, and a loop begins. -/
theorem base_push (h : Inv s) (happ : s.inApplication = true) (hopen : s.isOpen = true)
    {data : ByteArray} (hdata : data.fullyConsumed = false)
    (hfresh : ∀ front ∈ s.writeQueue.head?, front.fullyConsumed = false) :
    Base { s with
      writeQueue := s.writeQueue ++ [data]
      accepted := s.accepted ++ data.remainingView
      loops := .running :: s.loops } where
  held k hk := by
    obtain ⟨-, hk', -⟩ := h.held k (List.mem_of_ne_of_mem (by simp) hk)
    exact ⟨hopen, hk', by simp⟩
  stack := List.pairwise_cons.mpr ⟨fun lower hlower =>
    ⟨h.running_not_mem happ lower hlower, fun hrunning => by cases hrunning⟩, h.stack⟩
  consumed front queue hcons hconsumed := by
    change s.writeQueue ++ [data] = front :: queue at hcons
    have hfront : front.fullyConsumed = false := by
      cases hqueue : s.writeQueue with
      | nil =>
          rw [hqueue] at hcons
          cases hcons
          exact hdata
      | cons first more =>
          rw [hqueue] at hcons
          cases hcons
          exact hfresh front (by rw [hqueue]; rfl)
    rw [hconsumed] at hfront
    cases hfront
  unconsumed d hd := by
    cases hqueue : s.writeQueue with
    | nil =>
        simp only [hqueue] at hd
        cases hd
    | cons first queue =>
        simp only [hqueue, List.cons_append, List.tail_cons, List.mem_append,
          List.mem_singleton] at hd
        rcases hd with hd | rfl
        · exact h.unconsumed d (by rw [hqueue]; exact hd)
        · exact hdata
  failing hfailing := h.failing (List.mem_of_ne_of_mem (by simp) hfailing)
  notStale := h.notStale
  opened _ := by simp [h.opened hopen]
  closed hclosed := by
    change s.isOpen = false at hclosed
    rw [hopen] at hclosed
    cases hclosed

theorem inv_writeImpl (h : Inv s) (happ : s.inApplication = true) {data : ByteArray}
    (hok : s.Careful (.write data)) : Inv (s.writeImpl data) := by
  by_cases hempty : data.remainingSize = 0
  · rw [writeImpl, if_pos hempty]
    exact h
  by_cases haccepts : s.accepts = true
  · rw [writeImpl, if_neg hempty, if_pos haccepts]
    have hopen : s.isOpen = true := (Bool.and_eq_true_iff.mp haccepts).2
    have hfresh : ∀ front ∈ s.writeQueue.head?, front.fullyConsumed = false :=
      (hok.resolve_left hempty).resolve_left (by simp [haccepts])
    have hbase := base_push h happ hopen (decide_eq_false hempty) hfresh
    rw [flushWriteQueue, if_pos hopen]
    exact inv_testQueue hbase rfl hopen
  · rw [writeImpl, if_neg hempty, if_neg haccepts]
    exact h

/-- The kernel takes some bytes of the front. -/
theorem inv_advance (h : Inv s) {rest : List FlushLoop} {front : ByteArray}
    {queue : List ByteArray} (hloops : s.loops = .running :: rest)
    (hqueue : s.writeQueue = front :: queue) {n : ℤ} (hpos : 0 < n)
    (hrest : Holding rest → n < front.remainingSize) :
    Inv { s with
      writeQueue := front.advance n.toNat :: queue
      written := s.written ++ front.remainingView.take n.toNat
      loops := .emitting s.removed :: rest } where
  held k hk := by
    obtain ⟨hopen, hne⟩ := h.top (by rw [hloops, List.head?_cons])
    rcases List.mem_cons.mp hk with heq | hk
    · exact ⟨hopen, FlushLoop.emitting.inj heq, List.cons_ne_nil _ _⟩
    · exact ⟨hopen, (h.held k (hloops ▸ List.mem_cons_of_mem .running hk)).2.1,
        List.cons_ne_nil _ _⟩
  stack := h.stack_cons hloops fun heq => by cases heq
  consumed first more hcons hconsumed := by
    obtain ⟨rfl, -⟩ := List.cons_eq_cons.mp hcons
    refine ⟨rest, rfl, fun hholding => ?_⟩
    have hlt := hrest hholding
    have hview := (ByteArray.fullyConsumed_iff _).mp hconsumed
    rw [ByteArray.remainingView_advance, List.drop_eq_nil_iff] at hview
    rw [ByteArray.remainingSize] at hlt
    omega
  unconsumed data hdata := h.unconsumed data (by rw [hqueue]; exact hdata)
  failing hmem :=
    h.failing (hloops ▸ List.mem_cons_of_mem .running (List.mem_of_ne_of_mem (by simp) hmem))
  notStale := h.notStale
  opened hopen := by
    have haccepted := h.opened hopen
    change s.accepted = s.written ++ front.remainingView.take n.toNat ++
      ((front.advance n.toNat :: queue).map ByteArray.remainingView).flatten
    rw [haccepted, hqueue, List.map_cons, List.map_cons, List.flatten_cons, List.flatten_cons,
      ByteArray.remainingView_advance, List.append_assoc, ← List.append_assoc (List.take _ _),
      List.take_append_drop]
  closed hclosed := by
    have hopen := (h.top (by rw [hloops, List.head?_cons])).1
    change s.isOpen = false at hclosed
    rw [hopen] at hclosed
    cases hclosed
  top hhead := by cases hhead

/-- What `::write` has to do with the front. -/
theorem inv_flushResult (h : Inv s) {rest : List FlushLoop} {front : ByteArray}
    {queue : List ByteArray} (hloops : s.loops = .running :: rest)
    (hqueue : s.writeQueue = front :: queue) {r : SendResult} {t : ProcessStdin}
    (hok : Holding rest → Leaves front r)
    (ht : s.flushResult front queue rest r = some t) : Inv t := by
  have hopen : s.isOpen = true := (h.top (by rw [hloops, List.head?_cons])).1
  have hfresh := h.toBase.fresh fun k hk => by
    rw [hloops] at hk
    cases hk
  have hfront : front.fullyConsumed = false := hfresh front (by rw [hqueue, List.head?_cons]; rfl)
  have hstale : (s.stale || front.fullyConsumed) = s.stale := by rw [hfront, Bool.or_false]
  have hheld : ∀ k, .emitting k ∈ rest →
      s.isOpen = true ∧ k = s.removed ∧ s.writeQueue ≠ [] := fun k hk =>
    h.held k (hloops ▸ List.mem_cons_of_mem .running hk)
  have hfailing : .failing ∈ rest → s.failed = true := fun hmem =>
    h.failing (hloops ▸ List.mem_cons_of_mem .running hmem)
  have hrest : (FlushLoop.running :: rest).Pairwise Below :=
    h.stack_cons hloops fun heq => by cases heq
  have hnot (hpos : ¬0 < r.written) (hintr : r.errno ≠ eintr)
      (hagain : ¬(r.errno = eagain ∨ r.errno = ewouldblock)) : ¬Holding rest := fun hholding => by
    rcases hok hholding with hleaves | hleaves
    · exact hpos hleaves.1
    · have htransient := hleaves.2
      simp [isTransient, hintr, not_or.mp hagain] at htransient
  rw [flushResult] at ht
  simp only [hstale] at ht
  split_ifs at ht with hpos hle hzero hsize hintr hagain hpipe
  · cases ht
    exact inv_advance h hloops hqueue hpos fun hholding => by
      rcases hok hholding with hleaves | hleaves
      · exact hleaves.2
      · omega
  · have hremaining : front.remainingView ≠ [] := fun hnil => by
      rw [(ByteArray.fullyConsumed_iff front).mpr hnil] at hfront
      cases hfront
    exact absurd (List.length_eq_zero_iff.mp hsize) hremaining
  · cases ht
    exact h
  · cases ht
    exact
      { base_loops h.toBase hfresh hheld hrest.of_cons hfailing with
        top := fun hhead => absurd hhead (h.head_ne_running hloops) }
  · cases ht
    have hbase := base_loops h.toBase.failed hfresh hheld hrest.of_cons fun _ => rfl
    exact
      { base_closePipeWrite hbase (hnot hpos hintr hagain) (.inl rfl) with
        top := fun hhead => absurd hhead (h.head_ne_running hloops) }
  · cases ht
    have hfailing' : (FlushLoop.failing :: rest).Pairwise Below :=
      h.stack_cons hloops fun _ => hnot hpos hintr hagain
    have hheld' : ∀ k, .emitting k ∈ FlushLoop.failing :: rest →
        s.isOpen = true ∧ k = s.removed ∧ s.writeQueue ≠ [] := fun k hk =>
      hheld k (List.mem_of_ne_of_mem (by simp) hk)
    exact
      { base_loops h.toBase.failed hfresh hheld' hfailing' fun _ => rfl with
        top := fun hhead => by cases hhead }

/-- A front that is consumed is popped by the loop that holds it. -/
theorem base_pop (h : Inv s) (hopen : s.isOpen = true) {loop : FlushLoop} {rest : List FlushLoop}
    (hloops : s.loops = loop :: rest) (hnot : ¬Holding rest) {front : ByteArray}
    {queue : List ByteArray} (hqueue : s.writeQueue = front :: queue)
    (hconsumed : front.fullyConsumed = true) :
    Base { s with
      loops := .running :: rest
      writeQueue := s.writeQueue.tail
      removed := s.removed + 1 } where
  held k hk := absurd (List.mem_of_ne_of_mem (by simp) hk) (not_emitting_of_not_holding hnot k)
  stack := h.stack_cons hloops fun heq => by cases heq
  consumed first more hcons hfirst := by
    change s.writeQueue.tail = first :: more at hcons
    have hfresh := h.unconsumed first (by rw [hcons]; exact List.mem_cons_self)
    rw [hfirst] at hfresh
    cases hfresh
  unconsumed data hdata := h.unconsumed data (List.mem_of_mem_tail hdata)
  failing hfailing :=
    h.failing (hloops ▸ List.mem_cons_of_mem _ (List.mem_of_ne_of_mem (by simp) hfailing))
  notStale := h.notStale
  opened _ := by
    have haccepted := h.opened hopen
    have hview := (ByteArray.fullyConsumed_iff front).mp hconsumed
    rw [hqueue, List.map_cons, List.flatten_cons, hview, List.nil_append] at haccepted
    rw [hqueue]
    exact haccepted
  closed hclosed := by
    change s.isOpen = false at hclosed
    rw [hopen] at hclosed
    cases hclosed

/-- The slots of `bytesWritten` return. -/
theorem inv_afterEmission (h : Inv s) {k : ℕ} {rest : List FlushLoop}
    (hloops : s.loops = .emitting k :: rest) : Inv (s.afterEmission k rest) := by
  obtain ⟨hopen, rfl, hne⟩ := h.held k (by rw [hloops]; exact List.mem_cons_self)
  obtain ⟨front, queue, hqueue⟩ := List.exists_cons_of_ne_nil hne
  have hindex : s.writeQueue[s.removed - s.removed]? = some front := by
    rw [Nat.sub_self, hqueue, List.getElem?_cons_zero]
  rw [afterEmission, if_neg (Nat.lt_irrefl _)]
  simp only [hindex]
  cases hconsumed : front.fullyConsumed with
  | false =>
      rw [if_neg Bool.false_ne_true]
      have hmem : ∀ loop ∈ FlushLoop.running :: rest, loop ≠ .running → loop ∈ s.loops :=
        fun loop hloop hne => hloops ▸ List.mem_cons_of_mem _ (List.mem_of_ne_of_mem hne hloop)
      have hstack : (FlushLoop.running :: rest).Pairwise Below :=
        h.stack_cons hloops fun heq => by cases heq
      have hbase : Base { s with loops := .running :: rest } := by
        refine base_loops h.toBase (fun first hfirst => ?_) (fun k hk => ?_) hstack fun hfail => ?_
        · rw [hqueue, List.head?_cons] at hfirst
          cases hfirst
          exact hconsumed
        · exact h.held k (hmem _ hk (by simp))
        · exact h.failing (hmem _ hfail (by simp))
      exact inv_testQueue hbase rfl hopen
  | true =>
      rw [if_pos rfl]
      obtain ⟨rest', hloops', hnot⟩ := h.consumed front queue hqueue hconsumed
      obtain ⟨-, rfl⟩ := List.cons_eq_cons.mp (hloops.symm.trans hloops')
      exact inv_testQueue (base_pop h hopen hloops hnot hqueue hconsumed) rfl hopen

/-- The slots of `errorOccurred` return. -/
theorem inv_afterError (h : Inv s) {rest : List FlushLoop} (hloops : s.loops = .failing :: rest) :
    Inv { s.closePipeWrite with loops := rest } := by
  have hmem : ∀ loop ∈ rest, loop ∈ s.loops := fun loop hloop =>
    hloops ▸ List.mem_cons_of_mem _ hloop
  have hfailed : s.failed = true := h.failing (by rw [hloops]; exact List.mem_cons_self)
  have hstack := h.stack
  rw [hloops, List.pairwise_cons] at hstack
  have hnot : ¬Holding rest := fun ⟨lower, hlower, hholds⟩ => by
    rw [(hstack.1 lower hlower).2 rfl] at hholds
    cases hholds
  have hfresh := h.toBase.fresh fun k hk => by
    rw [hloops] at hk
    cases hk
  have hbase := base_loops h.toBase hfresh (fun k hk => h.held k (hmem _ hk)) hstack.2 fun hfail =>
    h.failing (hmem _ hfail)
  exact
    { base_closePipeWrite hbase hnot (.inl hfailed) with
      top := fun hhead => absurd hhead (h.head_ne_running hloops) }

/-- The channel is closed, outside a loop. -/
theorem inv_close (h : Inv s) (happ : s.inApplication = true)
    (hreason : s.isOpen = true →
      ¬Holding s.loops ∧ (s.failed = true ∨ s.exited = true ∨ s.writeQueue = [])) :
    Inv s.closePipeWrite := by
  have htop : s.loops.head? ≠ some .running := of_decide_eq_true happ
  have hnot : ¬Holding s.loops := by
    rintro ⟨loop, hloop, hholds⟩
    cases loop with
    | emitting k =>
        have hopen := (h.held k hloop).1
        exact (hreason hopen).1 ⟨_, hloop, rfl⟩
    | running | failing => cases hholds
  have hreason' : s.failed = true ∨ s.exited = true ∨ s.writeQueue = [] := by
    cases hopen : s.isOpen with
    | true => exact (hreason hopen).2
    | false => exact .inr (.inr (h.closed hopen).1)
  exact { base_closePipeWrite h.toBase hnot hreason' with top := fun hhead => absurd hhead htop }

/-- The channel is writable, and a loop begins. -/
theorem inv_flushWriteQueue (h : Inv s) (hloops : s.loops = []) : Inv s.flushWriteQueue := by
  rw [flushWriteQueue]
  split
  · rename_i hopen
    have hfresh := h.toBase.fresh fun k hk => by
      rw [hloops] at hk
      cases hk
    refine inv_testQueue (base_loops h.toBase hfresh ?_ ?_ ?_) rfl hopen
    · intro k hk
      rw [hloops] at hk
      cases List.mem_singleton.mp hk
    · rw [hloops]
      exact List.pairwise_singleton Below _
    · intro hfailing
      rw [hloops] at hfailing
      cases List.mem_singleton.mp hfailing
  · exact h

/-- The channel has an error. -/
theorem inv_channelError (h : Inv s) (hloops : s.loops = []) :
    Inv { s.closePipeWrite with failed := true } := by
  have hnot : ¬Holding s.loops := by
    rw [hloops]
    exact not_holding_nil
  have hinv : Inv { s with failed := true } := { h.toBase.failed with top := h.top }
  have happ : s.inApplication = true := by
    rw [inApplication, hloops]
    rfl
  exact inv_close hinv happ fun _ => ⟨hnot, .inl rfl⟩

/-- The child exits. -/
theorem inv_childExit (h : Inv s) (happ : s.inApplication = true)
    (hnot : s.isOpen = true → ¬Holding s.loops) :
    Inv { s.closePipeWrite with running := false, exited := true } := by
  have hbase : Base { s with running := false, exited := true } :=
    { h with
      closed := fun hclosed =>
        let ⟨hqueue, hprefix, _⟩ := h.closed hclosed
        ⟨hqueue, hprefix, .inr (.inl rfl)⟩ }
  have hinv : Inv { s with running := false, exited := true } := { hbase with top := h.top }
  exact inv_close hinv happ fun hopen => ⟨hnot hopen, .inr (.inl rfl)⟩

/-- **The steps keep the loops, the queue and the bytes in order**, if they are careful. -/
theorem inv_step {t : ProcessStdin} {e : StdinEvent} (h : Inv s) (hok : s.Careful e)
    (hstep : Step s e t) : Inv t := by
  cases e with
  | write data =>
      obtain ⟨happ, heq⟩ := Option.ite_none_right_eq_some.mp hstep
      cases heq
      exact inv_writeImpl h happ hok
  | closeWriteChannel =>
      obtain ⟨happ, heq⟩ := Option.ite_none_right_eq_some.mp hstep
      cases heq
      refine inv_close h happ fun hopen => ?_
      obtain ⟨hnot, hreason⟩ := hok hopen
      exact ⟨hnot, hreason.elim (fun hqueue => .inr (.inr hqueue)) .inl⟩
  | kernelWrites r =>
      simp only [Step, step] at hstep
      split at hstep
      · rename_i rest front queue hloops hqueue
        refine inv_flushResult h hloops hqueue (fun hholding => ?_) hstep
        exact hok (by rw [hloops]; exact hholding) front (by rw [hqueue]; rfl)
      · cases hstep
  | slotsReturn =>
      simp only [Step, step] at hstep
      split at hstep
      · rename_i k rest hloops
        cases hstep
        exact inv_afterEmission h hloops
      · rename_i rest hloops
        cases hstep
        exact inv_afterError h hloops
      · cases hstep
  | writable =>
      obtain ⟨hloops, heq⟩ := Option.ite_none_right_eq_some.mp hstep
      cases heq
      exact inv_flushWriteQueue h hloops
  | channelError =>
      obtain ⟨hloops, heq⟩ := Option.ite_none_right_eq_some.mp hstep
      cases heq
      exact inv_channelError h hloops
  | childExits =>
      obtain ⟨happ, heq⟩ := Option.ite_none_right_eq_some.mp hstep
      cases heq
      exact inv_childExit h happ hok

theorem Inv.orderly (h : Inv s) : Orderly s where
  prefix_accepted := by
    cases hopen : s.isOpen with
    | true => exact h.opened hopen ▸ List.prefix_append ..
    | false => exact (h.closed hopen).2.1
  closed hclosed := (h.closed hclosed).2.2
  notStale := h.notStale

/-- A process that has been started. -/
theorem inv_started : Inv {} where
  held k hk := by cases hk
  stack := .nil
  consumed front queue hcons := by cases hcons
  unconsumed data hdata := by cases hdata
  failing hfailing := by cases hfailing
  notStale := rfl
  opened _ := rfl
  closed hclosed := by cases hclosed
  top hhead := by cases hhead

/-- **The child gets the accepted bytes in order**, the channel is closed in time, and the loops
work on what is in the queue, after any run whose steps are careful. -/
theorem orderly_of_run {es : List StdinEvent} (h : Run Step Careful {} es s) : Orderly s :=
  (h.invariant (fun _ _ _ hinv hok hstep => inv_step hinv hok hstep) inv_started).orderly

/-- Two bytes are written one by one, and a slot writes a third one in between. -/
def nestedWrite : List StdinEvent :=
  [.write (.ofBytes [1, 2]), .kernelWrites ⟨1, 0⟩, .write (.ofBytes [3]),
    .kernelWrites ⟨-1, eagain⟩, .slotsReturn, .kernelWrites ⟨1, 0⟩, .slotsReturn,
    .kernelWrites ⟨1, 0⟩, .slotsReturn]

/-- A slot that writes while its loop is in the middle of the front entry. -/
theorem nested_write_orderly : ∃ s, Run Step Careful {} nestedWrite s ∧
    s.accepted = [1, 2, 3] ∧ s.written = [1, 2, 3] ∧ Orderly s := by
  have hrun : Run Step Careful {} nestedWrite
      { removed := 2, accepted := [1, 2, 3], written := [1, 2, 3] } :=
    .cons (by decide) rfl <| .cons (by decide) rfl <| .cons (by decide) rfl <|
      .cons (by decide) rfl <| .cons (by decide) rfl <| .cons (by decide) rfl <|
      .cons (by decide) rfl <| .cons (by decide) rfl <| .cons (by decide) rfl <| .nil _
  exact ⟨_, hrun, rfl, rfl, orderly_of_run hrun⟩

/-- A slot that writes when its byte was the last one of the front loses what it writes, and the
channel with it. So does whoever closes the channel while something is still queued. -/
theorem nested_write_lost :
    Reaches Step {}
        [.write (.ofBytes [1]), .kernelWrites ⟨1, 0⟩, .write (.ofBytes [2]), .kernelWrites ⟨0, 0⟩,
          .slotsReturn, .slotsReturn]
        { isOpen := false, removed := 2, accepted := [1, 2], written := [1], stale := true } ∧
      ¬Orderly
        { isOpen := false, removed := 2, accepted := [1, 2], written := [1], stale := true } ∧
      Reaches Step {}
        [.write (.ofBytes [1]), .kernelWrites ⟨-1, eagain⟩, .closeWriteChannel]
        { isOpen := false, removed := 1, accepted := [1] } ∧
      ¬Orderly { isOpen := false, removed := 1, accepted := [1] } := by
  refine ⟨?_, fun h => ?_, ?_, fun h => ?_⟩
  · exact .cons trivial rfl <| .cons trivial rfl <| .cons trivial rfl <| .cons trivial rfl <|
      .cons trivial rfl <| .cons trivial rfl <| .nil _
  · exact absurd h.notStale (by decide)
  · exact .cons trivial rfl <| .cons trivial rfl <| .cons trivial rfl <| .nil _
  · exact absurd (h.closed rfl) (by decide)

end ProcessStdin

end SimplyNode
