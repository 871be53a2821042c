import SimplyNode.StreamSocket
import SimplyNode.Lib.Transition

/-!
# The Write Stream of a TcpSocket

The calls of `write()` on a connection make one stream of bytes. The kernel takes it piece by
piece, as much of the array at the front of the queue as it wants, and the rest is sent when the
descriptor is ready again.

## Main results

* `WriteStream`: the invariant of the stream, kept in the middle of a flush.
* `writes_in_order`: what the kernel has taken and what is queued is what was accepted, in this
  order; the descriptor is watched for writing iff something is queued; and the notifications
  tell how much was taken.
-/

open Transition

namespace SimplyNode

namespace StreamSocket

variable {s s' : StreamSocket} {l : SocketCall}

/-- The bytes in the write queue. -/
def queued (s : StreamSocket) : Bytes := s.writeQueue.flatMap ByteArray.remainingView

/-- The numbers that the `bytesWritten` notifications carry. -/
def written (signals : List SocketSignal) : List ℕ :=
  signals.filterMap fun signal =>
    match signal with
    | .bytesWritten n => some n
    | _ => none

/-- **The invariant of the stream.** Nothing in the queue has been consumed. -/
structure WriteStream (s : StreamSocket) : Prop where
  sent : s.connection.sent <+: s.connection.accepted
  queued : s.IsOpen → s.connection.sent ++ s.queued = s.connection.accepted
  unconsumed : ∀ b ∈ s.writeQueue, b.remainingView ≠ []
  notified : (written s.connection.signals).sum = s.connection.sent.length

/-- The descriptor is watched for writing iff the write queue is not empty. -/
def Attentive (s : StreamSocket) : Prop :=
  s.state = .connected → (hasAny s.interest .write = true ↔ s.writeQueue ≠ [])

/-- A socket with an error takes no bytes. -/
theorem not_isOpen_of_error (h : s.state = .error) : ¬ s.IsOpen := by
  simp [IsOpen, h]

/-- A socket that is not connected takes no bytes. -/
theorem not_isOpen_of_disconnected (h : s.state = .disconnected) : ¬ s.IsOpen := by
  simp [IsOpen, h]

/-! ### The stream between two flushes -/

/-- A signal other than `bytesWritten` does not touch the stream. -/
theorem WriteStream.emit (h : s.WriteStream) {signal : SocketSignal}
    (hsignal : written [signal] = []) : (StreamSocket.emit .tcpSocket s signal).WriteStream where
  sent := h.sent
  queued := h.queued
  unconsumed := h.unconsumed
  notified := by
    have hnotified := h.notified
    change (written (s.connection.signals ++ [signal])).sum = _
    rw [written, List.filterMap_append]
    rw [written] at hsignal hnotified
    rw [hsignal, List.append_nil]
    exact hnotified

/-- An error keeps the stream. -/
theorem WriteStream.failWithErrno (h : s.WriteStream) {text : String} {errno : Errno} :
    (failWithErrno .tcpSocket s text errno).WriteStream :=
  WriteStream.emit (s := { s with state := .error })
    ⟨h.sent, fun hopen => absurd hopen (not_isOpen_of_error rfl), h.unconsumed, h.notified⟩ rfl

/-- The end of a connection keeps the stream. -/
theorem WriteStream.applyDisconnectedState (h : s.WriteStream) {emitSignal : Bool} :
    (applyDisconnectedState .tcpSocket s emitSignal).WriteStream := by
  have hnext : (s.transitionToDisconnected.stop.setDescriptor (-1)).WriteStream :=
    ⟨h.sent, fun hopen => absurd hopen (not_isOpen_of_disconnected rfl),
      fun b hb => absurd hb List.not_mem_nil, h.notified⟩
  rw [StreamSocket.applyDisconnectedState]
  split
  · exact hnext.emit rfl
  · exact hnext

/-- Bytes that are accepted go to the end of the stream. -/
theorem WriteStream.accept (h : s.WriteStream) (hopen : s.IsOpen) {data : ByteArray}
    (hdata : data.remainingView ≠ []) : (s.accept data).WriteStream where
  sent := h.sent.trans (List.prefix_append _ _)
  queued _ := by
    have hqueued := h.queued hopen
    change s.connection.sent ++ (s.writeQueue ++ [data]).flatMap ByteArray.remainingView =
      s.connection.accepted ++ data.remainingView
    rw [List.flatMap_append, ← hqueued, StreamSocket.queued]
    simp
  unconsumed b hb := by
    rcases List.mem_append.mp hb with hb | hb
    · exact h.unconsumed b hb
    · rwa [List.mem_singleton.mp hb]
  notified := h.notified

/-! ### A flush -/

/-- The bytes that `send` takes move from the front of the queue to the kernel. -/
theorem WriteStream.advanceFront (h : s.WriteStream) (hopen : s.IsOpen) {front : ByteArray}
    {rest : List ByteArray} (hqueue : s.writeQueue = front :: rest) {n : ℕ}
    (hn : n ≤ front.remainingSize) :
    (StreamSocket.emit .tcpSocket (s.advanceFront front rest n) (.bytesWritten n)).WriteStream := by
  have hview := front.remainingView_advance n
  have hmoved : (s.connection.sent ++ front.remainingView.take n) ++
      (s.advanceFront front rest n).queued = s.connection.accepted := by
    have hqueued := h.queued hopen
    rw [StreamSocket.queued, hqueue, List.flatMap_cons] at hqueued
    rw [StreamSocket.queued, StreamSocket.advanceFront]
    dsimp only
    split
    · rename_i hconsumed
      rw [ByteArray.fullyConsumed_iff, hview, List.drop_eq_nil_iff] at hconsumed
      rw [List.take_of_length_le hconsumed, List.append_assoc]
      exact hqueued
    · rw [List.flatMap_cons, hview, ← hqueued]
      simp only [List.append_assoc, ← List.append_assoc (front.remainingView.take n),
        List.take_append_drop]
  refine ⟨⟨_, hmoved⟩, fun _ => hmoved, fun b hb => ?_, ?_⟩
  · change b ∈ (s.advanceFront front rest n).writeQueue at hb
    have hrest (hb : b ∈ rest) : b.remainingView ≠ [] :=
      h.unconsumed b (by rw [hqueue]; exact List.mem_cons_of_mem _ hb)
    rw [StreamSocket.advanceFront] at hb
    dsimp only at hb
    split at hb
    · exact hrest hb
    · rename_i hconsumed
      rcases List.mem_cons.mp hb with rfl | hb
      · rwa [ByteArray.fullyConsumed_iff] at hconsumed
      · exact hrest hb
  · have hnotified := h.notified
    change (written (s.connection.signals ++ [.bytesWritten n])).sum =
      (s.connection.sent ++ front.remainingView.take n).length
    rw [written] at hnotified
    rw [written, List.filterMap_append, List.sum_append, List.length_append, hnotified,
      List.length_take_of_le hn]
    rfl

/-- There is nothing to pop. -/
theorem WriteStream.popConsumed (h : s.WriteStream) : s.popConsumed = s := by
  have hqueue : s.writeQueue.dropWhile ByteArray.fullyConsumed = s.writeQueue := by
    cases hq : s.writeQueue with
    | nil => rfl
    | cons b rest =>
        have hb : b.remainingView ≠ [] := h.unconsumed b (by rw [hq]; exact List.mem_cons_self)
        exact List.dropWhile_cons_of_neg fun hconsumed => hb (b.fullyConsumed_iff.mp hconsumed)
  rw [StreamSocket.popConsumed, hqueue]

/-! ### The interest -/

/-- Only a connected socket has to wait for room. -/
theorem attentive_of_state (h : s.state ≠ .connected) : s.Attentive := fun hstate =>
  absurd hstate h

/-- `updateInterestForState` brings the interest in step with the queue. -/
theorem attentive_updateInterestForState :
    (updateInterestForState .tcpSocket s).Attentive := by
  intro hstate
  have hconnected : s.state = .connected := hstate
  change hasAny (updateInterestForState .tcpSocket s).interest .write = true ↔ s.writeQueue ≠ []
  have hinterest : (updateInterestForState .tcpSocket s).interest =
      if !s.writeQueue.isEmpty then .error ||| .hangUp ||| .read ||| .write
      else .error ||| .hangUp ||| .read := by
    simp [updateInterestForState, setInterest, hconnected]
  rw [hinterest]
  cases s.writeQueue with
  | nil => exact iff_of_false (by decide) fun h => h rfl
  | cons b rest =>
      rw [if_pos (by rfl)]
      exact iff_of_true (by decide) (List.cons_ne_nil b rest)

/-- **The invariant between two calls.** -/
structure WritesInOrder (s : StreamSocket) : Prop where
  stream : s.WriteStream
  attentive : s.Attentive

/-- `handleWritable` takes from the stream, and leaves the interest in step with the queue. -/
theorem WriteStream.handleWritable (h : s.WriteStream) (hopen : s.IsOpen)
    {sends : List SendResult} (hs : handleWritable .tcpSocket s sends = some s') :
    s'.WritesInOrder := by
  have hupdate {v : StreamSocket} (hv : v.WriteStream) :
      (updateInterestForState .tcpSocket v).WritesInOrder :=
    ⟨⟨hv.sent, hv.queued, hv.unconsumed, hv.notified⟩, attentive_updateInterestForState⟩
  refine handleWritable_rule (I := fun v => v.WriteStream ∧ v.IsOpen) ?_ ?_
    (fun _ _ hv => hupdate hv.1) ?_ ⟨h, hopen⟩ hs
  · rintro v ⟨hv, hopen⟩
    rw [hv.popConsumed]
    exact ⟨hv, hopen⟩
  · rintro v front rest n ⟨hv, hopen⟩ hqueue _ hn
    exact ⟨hv.advanceFront hopen hqueue hn, hopen⟩
  · rintro v r _ _ ⟨hv, -⟩
    exact hupdate hv.failWithErrno.applyDisconnectedState

/-- The end of a connection keeps the order of writes. -/
theorem WritesInOrder.applyDisconnectedState (h : s.WriteStream) :
    (applyDisconnectedState .tcpSocket s true).WritesInOrder := by
  refine ⟨h.applyDisconnectedState, attentive_of_state ?_⟩
  rw [StreamSocket.applyDisconnectedState]
  split
  · exact SocketState.noConfusion
  · exact SocketState.noConfusion

/-- A connection is established whose stream is not broken. -/
theorem WriteStream.applyConnectedState (h : s.WriteStream)
    (hqueued : s.connection.sent ++ s.queued = s.connection.accepted) {sends : List SendResult}
    (hs : applyConnectedState .tcpSocket s sends = some s') : s'.WritesInOrder := by
  refine WriteStream.handleWritable ?_ (Or.inl rfl) hs
  exact WriteStream.emit (s := (updateInterestForState .tcpSocket
    { s with state := .connected, connection.established := true }).start)
    ⟨h.sent, fun _ => hqueued, h.unconsumed, h.notified⟩ rfl

/-! ### The calls -/

/-- **Reading** keeps the order of writes. -/
theorem WritesInOrder.handleReadable (h : s.WritesInOrder) {recvs : List RecvResult}
    (hs : handleReadable .tcpSocket s recvs = some s') : s'.WritesInOrder := by
  refine handleReadable_rule (I := WritesInOrder) ?_ ?_ ?_ ?_ h hs
  · intro v bytes hv
    exact ⟨⟨hv.stream.sent, hv.stream.queued, hv.stream.unconsumed, hv.stream.notified⟩,
      hv.attentive⟩
  · exact fun _ v hv => .applyDisconnectedState hv.stream
  · exact fun _ v hv => ⟨hv, hv.stream.emit rfl, hv.attentive⟩
  · exact fun v r _ _ hv errno => .applyDisconnectedState hv.stream.failWithErrno

/-- **Events of the socket** keep the order of writes. -/
theorem WritesInOrder.handleEvents (h : s.WritesInOrder) {nativeEvents : EventMask}
    {answers : EventAnswers} (hs : handleEvents .tcpSocket s nativeEvents answers = some s') :
    s'.WritesInOrder := by
  have hcomplete {p : StreamSocket × Bool}
      (hp : completeConnect .tcpSocket s nativeEvents answers = some p) : p.1.WritesInOrder := by
    rcases completeConnect_cases hp with ⟨-, -, text, errno, rfl⟩ | ⟨hstate, -, hp, -⟩ | ⟨-, rfl⟩
    · exact .applyDisconnectedState h.stream.failWithErrno
    · exact h.stream.applyConnectedState (h.stream.queued (Or.inr hstate)) hp
    · exact h
  rcases handleEvents_cases hs with ⟨-, hs, -, -⟩ | ⟨hp, -, -⟩ | ⟨v, w, -, hp, hinput, houtput⟩
  · rcases handleHangUp_cases hs with ⟨hstate, -, hs⟩ | ⟨-, rfl⟩
    · exact h.stream.applyConnectedState (h.stream.queued (Or.inr hstate)) hs
    · exact .applyDisconnectedState h.stream
  · exact hcomplete hp
  · have hw : w.WritesInOrder := by
      rcases handleInput_cases hinput with ⟨-, hinput⟩ | ⟨-, rfl⟩
      · exact (hcomplete hp).handleReadable hinput
      · exact hcomplete hp
    rcases handleOutput_cases houtput with ⟨hstate, houtput⟩ | ⟨-, rfl⟩
    · exact hw.stream.handleWritable (Or.inl hstate) houtput
    · exact hw

/-- **Writing** keeps the order of writes. -/
theorem WritesInOrder.write (h : s.WritesInOrder) {data : ByteArray} {sends : List SendResult}
    {p : StreamSocket × ℕ} (hs : write .tcpSocket s data sends = some p) : p.1.WritesInOrder := by
  rcases write_cases hs with ⟨-, rfl⟩ | ⟨hdata, hopen, hs, -⟩
  · exact h
  · exact (h.stream.accept hopen hdata).handleWritable hopen hs

/-- The candidates are tried for a connection that has no stream yet. -/
theorem WriteStream.connectLoop {sends : List SendResult} {attempts : List ConnectAttempt}
    {errno : Errno} (h : s.WriteStream)
    (hqueued : s.connection.sent ++ s.queued = s.connection.accepted)
    (hs : TcpSocket.connectLoop sends attempts errno s = some s') : s'.WritesInOrder := by
  have hmove (fd : FileDescriptor) : (s.setDescriptor fd).WriteStream :=
    ⟨h.sent, h.queued, h.unconsumed, h.notified⟩
  rcases TcpSocket.connectLoop_cases hs with ⟨fd, hs⟩ | ⟨-, fd, rfl⟩ | ⟨-, fd, errno, rfl⟩
  · exact (hmove fd).applyConnectedState hqueued hs
  · exact ⟨⟨h.sent, fun _ => hqueued, h.unconsumed, h.notified⟩,
      attentive_of_state SocketState.noConfusion⟩
  · exact .applyDisconnectedState (hmove fd).failWithErrno

/-- The step lemma. -/
theorem WritesInOrder.step (h : s.WritesInOrder) (hst : TcpSocket.Step s l s') :
    s'.WritesInOrder := by
  rw [TcpSocket.Step] at hst
  cases l with
  | connectToHost host resolution sends =>
      obtain ⟨signals, heq, -⟩ := applyDisconnectedState_eq .tcpSocket s true
      rw [← close] at heq
      have hqueue : (TcpSocket.beginConnection (close .tcpSocket s)).queued = [] := by
        rw [queued, TcpSocket.beginConnection, heq]
        rfl
      have hblank : (TcpSocket.beginConnection (close .tcpSocket s)).WriteStream :=
        ⟨List.prefix_rfl, fun _ => hqueue, by simp [TcpSocket.beginConnection, heq], rfl⟩
      cases resolution with
      | error resolveError =>
          obtain ⟨-, rfl⟩ := finish_eq_some.mp hst
          exact ⟨WriteStream.emit (s := { TcpSocket.beginConnection (close .tcpSocket s) with
            state := .error }) ⟨hblank.sent, fun hopen => absurd hopen (not_isOpen_of_error rfl),
              hblank.unconsumed, hblank.notified⟩ rfl, attentive_of_state SocketState.noConfusion⟩
      | ok attempts => exact hblank.connectLoop hqueue hst
  | close =>
      obtain rfl := Option.some.inj hst
      exact .applyDisconnectedState h.stream
  | write data sends =>
      rw [TcpSocket.call, Option.map_eq_some_iff] at hst
      obtain ⟨p, hp, rfl⟩ := hst
      exact h.write hp
  | readAll =>
      obtain rfl := Option.some.inj hst
      exact ⟨⟨h.stream.sent, h.stream.queued, h.stream.unconsumed, h.stream.notified⟩, h.attentive⟩
  | setBlocking blocking error =>
      obtain rfl := Option.some.inj hst
      have hnext : StreamSocket.WriteStream { s with blocking := blocking } :=
        ⟨h.stream.sent, h.stream.queued, h.stream.unconsumed, h.stream.notified⟩
      cases error with
      | none => exact ⟨hnext, h.attentive⟩
      | some errno =>
          rw [setBlocking]
          split
          · exact ⟨hnext.failWithErrno, attentive_of_state SocketState.noConfusion⟩
          · exact ⟨hnext, h.attentive⟩
  | handleEvents nativeEvents answers => exact h.handleEvents hst

/-- A new socket has written nothing. -/
theorem WritesInOrder.constructed (h : TcpSocket.Constructed s) : s.WritesInOrder := by
  cases h with
  | create blocking =>
      exact ⟨⟨List.prefix_rfl, fun _ => rfl, fun b hb => absurd hb List.not_mem_nil, rfl⟩,
        attentive_of_state SocketState.noConfusion⟩
  | adopt fd blocking error =>
      have hcreate : (TcpSocket.create blocking).WriteStream :=
        ⟨List.prefix_rfl, fun _ => rfl, fun b hb => absurd hb List.not_mem_nil, rfl⟩
      cases error with
      | none =>
          rw [TcpSocket.adopt]
          split
          · exact ⟨hcreate.failWithErrno, attentive_of_state SocketState.noConfusion⟩
          · exact ⟨⟨List.prefix_rfl, fun _ => rfl, fun b hb => absurd hb List.not_mem_nil, rfl⟩,
              attentive_updateInterestForState⟩
      | some errno =>
          rw [TcpSocket.adopt]
          split
          · exact ⟨hcreate.failWithErrno, attentive_of_state SocketState.noConfusion⟩
          · exact ⟨hcreate.failWithErrno, attentive_of_state SocketState.noConfusion⟩

/-- The arrays in the queue make bytes. -/
theorem WriteStream.queued_eq_nil (h : s.WriteStream) : s.queued = [] ↔ s.writeQueue = [] := by
  rw [StreamSocket.queued, List.flatMap_eq_nil_iff, List.eq_nil_iff_forall_not_mem]
  exact ⟨fun hall b hb => h.unconsumed b hb (hall b hb), fun hnil b hb => absurd hb (hnil b)⟩

end StreamSocket

namespace TcpSocket

open StreamSocket

/-- **The write stream.** After any calls of a socket inside its owner, and whatever the kernel
has answered: what it has taken is a prefix of what was accepted on this connection, and while the
socket is connected, the rest of it is queued, and the descriptor is watched for writing iff there
is such a rest. The notifications add up to what the kernel has taken. -/
theorem writes_in_order {s₀ s : StreamSocket} {ls : List SocketCall} (h₀ : Constructed s₀)
    (hrun : Reaches Step s₀ ls s) :
    s.connection.sent <+: s.connection.accepted ∧
    (s.state = .connected → s.connection.sent ++ s.queued = s.connection.accepted ∧
      (hasAny s.interest .write = true ↔ s.writeQueue ≠ []) ∧
      (hasAny s.interest .write = true ↔ s.queued ≠ [])) ∧
    (written s.connection.signals).sum = s.connection.sent.length := by
  have h : s.WritesInOrder := by
    refine hrun.invariant (I := WritesInOrder) ?_ (.constructed h₀)
    exact fun _ _ _ h _ hst => h.step hst
  refine ⟨h.stream.sent, fun hstate => ⟨h.stream.queued (Or.inl hstate), h.attentive hstate, ?_⟩,
    h.stream.notified⟩
  exact (h.attentive hstate).trans (not_congr h.stream.queued_eq_nil).symm

/-- A connection on which the kernel takes two bytes of three, and the last one when the descriptor
is ready again. -/
theorem split_write : ∃ s, Reaches Step (adopt 5 false none)
    [.write (.ofBytes [1, 2, 3]) [{ written := 2 }, { written := -1, errno := eagain }],
      .handleEvents epollOut
        { sends := [{ written := -1, errno := eintr }, { written := 1 }] }] s ∧
    s.connection.sent = [1, 2, 3] ∧ written s.connection.signals = [2, 1] ∧
    (written s.connection.signals).sum = s.connection.sent.length := by
  have hrun : Reaches Step (adopt 5 false none)
      [.write (.ofBytes [1, 2, 3]) [{ written := 2 }, { written := -1, errno := eagain }],
        .handleEvents epollOut
          { sends := [{ written := -1, errno := eintr }, { written := 1 }] }] _ :=
    .cons trivial rfl <| .cons trivial rfl <| .nil _
  exact ⟨_, hrun, rfl, rfl, (writes_in_order (.adopt 5 false none) hrun).2.2⟩

end TcpSocket

end SimplyNode
