import SimplyNode.StreamSocket
import SimplyNode.Lib.Transition

/-!
# The End of a Stream

The peer sends some bytes and closes the connection. The kernel hands the bytes over to `recv` in
pieces of any size, and then the end of the stream; at any time it may report a hang-up or an error
of the descriptor, together with readable data or without. `transitionToDisconnected` clears the
read buffer. The slot of `readyRead` calls `readAll()`; a `TcpSocket` runs it as a task of its
owner.

## Main results

* `Reception.Step`: the events of the socket, and the tasks it has posted.
* `complete_iff_drained`: when `disconnected` is emitted, all bytes have been read by slots of
  `readyRead`, iff the socket disconnects in an event before which they had been read already.
* `last_bytes_lost`: for both classes, a run that loses the last byte.
-/

open Transition

namespace SimplyNode

open StreamSocket

/-- A connected socket, with what its peer has sent. -/
structure Reception where
  socket : StreamSocket
  /-- What `recv` will return before the end of the stream. -/
  unread : Bytes
  /-- How many of the signals that were posted have been emitted. -/
  emitted : ℕ := 0

/-- An event of the socket, or a task of its owner that emits a signal. -/
inductive ReceptionStep
  | handleEvents (nativeEvents : EventMask) (answers : EventAnswers)
  | runPosted

/-- The bytes that calls of `recv` have returned. -/
def receivedBytes (recvs : List RecvResult) : Bytes :=
  recvs.flatMap fun r =>
    match r with
    | .received bytes => bytes
    | .failed _ => []

/-- The error and hang-up flags. -/
def hangUpFlags : EventMask := epollErr ||| epollHup ||| epollRdHup

namespace Reception

variable (c : SocketClass) (r : Reception)

/-- The kernel hands over what the peer has sent, in order, and the end of the stream behind it.
It fails no call for good. -/
structure Answers (answers : EventAnswers) (unread : Bytes) : Prop where
  received : r.unread = receivedBytes answers.recvs ++ unread
  atEnd : .received [] ∈ answers.recvs → unread = []
  recvs : ∀ a ∈ answers.recvs, ¬ RecvFatal a
  sends : ∀ a ∈ answers.sends, ¬ SendFatal a

/-- **One step**, of a socket that is connected, or of its owner. -/
inductive Step (c : SocketClass) : Reception → ReceptionStep → Reception → Prop
  | handleEvents {r : Reception} {nativeEvents : EventMask} {answers : EventAnswers}
      {unread : Bytes} {socket : StreamSocket} :
      r.socket.state = .connected → r.Answers answers unread →
      r.socket.handleEvents c nativeEvents answers = some socket →
      Step c r (.handleEvents nativeEvents answers) { r with socket := socket, unread := unread }
  | runPosted {r : Reception} {signal : SocketSignal} :
      c = .tcpSocket → r.socket.connection.signals[r.emitted]? = some signal →
      Step c r .runPosted { r with socket := r.socket.runSlots signal, emitted := r.emitted + 1 }

/-- The signals that have been emitted. -/
def emittedSignals : List SocketSignal :=
  match c with
  | .tcpSocket => r.socket.connection.signals.take r.emitted
  | .localSocket => r.socket.connection.signals

/-- `disconnected` has been emitted. -/
def Ended : Prop := .disconnected ∈ r.emittedSignals c

/-- Whether the end has been announced can be computed. -/
instance decidableEnded : Decidable (r.Ended c) :=
  inferInstanceAs (Decidable (SocketSignal.disconnected ∈ r.emittedSignals c))

/-- The event makes a connected socket disconnect. -/
def Ends : ReceptionStep → Prop
  | .handleEvents nativeEvents answers =>
      nativeEvents &&& hangUpFlags ≠ 0 ∨ .received [] ∈ answers.recvs
  | .runPosted => False

/-- The condition on a step: a socket disconnects when everything has been received and read. -/
def Drained (r : Reception) (l : ReceptionStep) : Prop :=
  Ends l → r.socket.readBuffer = [] ∧ r.unread = []

variable {c} {r : Reception} {r' : Reception} {l : ReceptionStep} {s s' : StreamSocket}

/-! ### One pass -/

/-- The socket is connected, and has given these bytes to its slots or holds them for them. -/
structure Holds (s : StreamSocket) (bytes : Bytes) : Prop where
  state : s.state = .connected
  bytes : s.obtained ++ s.readBuffer = bytes
  quiet : .disconnected ∉ s.connection.signals

/-- The socket is disconnected, and has given these bytes to its slots. -/
structure Closed (s : StreamSocket) (bytes : Bytes) : Prop where
  state : s.state = .disconnected
  readBuffer : s.readBuffer = []
  obtained : s.obtained = bytes

/-- Any signal but `disconnected` leaves the socket with its bytes. -/
theorem Holds.emit {bytes : Bytes} (h : Holds s bytes) {signal : SocketSignal}
    (hsignal : signal ≠ .disconnected) : Holds (emit c s signal) bytes := by
  have hquiet : .disconnected ∉ s.connection.signals ++ [signal] := by
    simp [h.quiet, Ne.symm hsignal]
  cases c with
  | tcpSocket => exact ⟨h.state, h.bytes, hquiet⟩
  | localSocket =>
      cases signal with
      | readyRead =>
          refine ⟨h.state, ?_, hquiet⟩
          exact (List.append_nil _).trans h.bytes
      | _ => exact ⟨h.state, h.bytes, hquiet⟩

/-- A socket that has been disconnected is closed with what it has obtained. -/
theorem closed_applyDisconnectedState :
    Closed (applyDisconnectedState c s true) s.obtained := by
  obtain ⟨signals, heq, -⟩ := applyDisconnectedState_eq c s true
  rw [heq]
  exact ⟨rfl, rfl, rfl⟩

/-- What a read leaves, without the end of the stream and with it. -/
def ReadOutcome (s s' : StreamSocket) (bytes : Bytes) (recvs : List RecvResult) : Prop :=
  (.received [] ∉ recvs → Holds s' (bytes ++ receivedBytes recvs)) ∧
    (.received [] ∈ recvs → Closed s' s.obtained)

/-- Without an answer of `recv` nothing is read. -/
theorem ReadOutcome.of_nil {bytes : Bytes} (h : Holds s bytes) : ReadOutcome s s bytes [] :=
  ⟨fun _ => (List.append_nil bytes).symm ▸ h, fun hn => absurd hn List.not_mem_nil⟩

/-- The loop over `recv` reads up to the end of the stream. -/
theorem Holds.receiveLoop {bytes : Bytes} (h : Holds s bytes) {recvs : List RecvResult}
    (hrecvs : ∀ a ∈ recvs, ¬ RecvFatal a) {appended : Bool}
    (hs : receiveLoop c recvs appended s = some s') : ReadOutcome s s' bytes recvs := by
  induction recvs generalizing s bytes appended with
  | nil => cases hs
  | cons a recvs ih =>
      obtain ⟨ha, hrest⟩ := List.forall_mem_cons.mp hrecvs
      cases a with
      | received piece =>
          cases piece with
          | nil =>
              obtain ⟨-, rfl⟩ := finish_eq_some.mp hs
              exact ⟨fun hn => absurd List.mem_cons_self hn, fun _ => closed_applyDisconnectedState⟩
          | cons byte piece =>
              have hnext : Holds { s with readBuffer := s.readBuffer ++ byte :: piece }
                  (bytes ++ byte :: piece) :=
                ⟨h.state, by rw [← h.bytes, List.append_assoc], h.quiet⟩
              obtain ⟨hopen, hclosed⟩ := ih hnext hrest hs
              refine ⟨fun hn => ?_, fun hn => hclosed ?_⟩
              · have hnext := hopen fun hmem => hn (List.mem_cons_of_mem _ hmem)
                rwa [List.append_assoc] at hnext
              · simpa using hn
      | failed errno =>
          rw [StreamSocket.receiveLoop] at hs
          split at hs
          · obtain ⟨rfl, rfl⟩ := finish_eq_some.mp hs
            refine ⟨fun _ => ?_, fun hn => absurd hn (by simp)⟩
            rw [receivedBytes, List.flatMap_singleton, List.append_nil]
            split
            · exact h.emit SocketSignal.noConfusion
            · exact h
          · rename_i hagain
            split at hs
            · obtain ⟨hopen, hclosed⟩ := ih h hrest hs
              exact ⟨fun hn => hopen fun hmem => hn (List.mem_cons_of_mem _ hmem),
                fun hn => hclosed (by simpa using hn)⟩
            · exact absurd ⟨errno, rfl, hagain, ‹_›⟩ ha

/-- `handleReadable` reads up to the end of the stream. -/
theorem Holds.handleReadable {bytes : Bytes} (h : Holds s bytes) {recvs : List RecvResult}
    (hrecvs : ∀ a ∈ recvs, ¬ RecvFatal a) (hs : handleReadable c s recvs = some s') :
    ReadOutcome s s' bytes recvs := by
  rw [StreamSocket.handleReadable] at hs
  split at hs
  · obtain ⟨rfl, rfl⟩ := finish_eq_some.mp hs
    exact .of_nil h
  · exact h.receiveLoop hrecvs hs

/-- A flush does not touch what has been received. -/
theorem Holds.handleWritable {bytes : Bytes} (h : Holds s bytes) {sends : List SendResult}
    (hsends : ∀ a ∈ sends, ¬ SendFatal a) (hs : handleWritable c s sends = some s') :
    Holds s' bytes := by
  refine handleWritable_rule (c := c) (I := fun v => Holds v bytes) (J := fun v => Holds v bytes)
    ?_ ?_ ?_ ?_ h hs
  · exact fun v hv => ⟨hv.state, hv.bytes, hv.quiet⟩
  · intro v front rest n hv _ _ _
    have hnext : Holds (v.advanceFront front rest n) bytes := ⟨hv.state, hv.bytes, hv.quiet⟩
    exact hnext.emit SocketSignal.noConfusion
  · exact fun _ v hv => ⟨hv.state, hv.bytes, hv.quiet⟩
  · exact fun v a ha hfatal => absurd hfatal (hsends a ha)

/-- What an event leaves, if it does not end the connection and if it does. -/
theorem Holds.handleEvents {bytes : Bytes} (h : Holds s bytes) {nativeEvents : EventMask}
    {answers : EventAnswers} (hrecvs : ∀ a ∈ answers.recvs, ¬ RecvFatal a)
    (hsends : ∀ a ∈ answers.sends, ¬ SendFatal a)
    (hs : s.handleEvents c nativeEvents answers = some s') :
    (¬ Ends (.handleEvents nativeEvents answers) →
        Holds s' (bytes ++ receivedBytes answers.recvs)) ∧
      (Ends (.handleEvents nativeEvents answers) → Closed s' s.obtained) := by
  have hconnecting : s.state ≠ .connecting := by simp [h.state]
  have hcomplete {p : StreamSocket × Bool}
      (hp : completeConnect c s nativeEvents answers = some p) : p = (s, true) := by
    rcases completeConnect_cases hp with ⟨hstate, -⟩ | ⟨hstate, -⟩ | ⟨-, hp⟩
    · exact absurd hstate hconnecting
    · exact absurd hstate hconnecting
    · exact hp
  rcases handleEvents_cases hs with ⟨hflags, hs, -, -⟩ | ⟨hp, -, -⟩ |
    ⟨v, w, hflags, hp, hinput, houtput⟩
  · rcases handleHangUp_cases hs with ⟨hstate, -⟩ | ⟨-, rfl⟩
    · exact absurd hstate hconnecting
    · exact ⟨fun hn => absurd (Or.inl hflags) hn, fun _ => closed_applyDisconnectedState⟩
  · cases hcomplete hp
  · obtain rfl : v = s := congrArg Prod.fst (hcomplete hp)
    have hread : ReadOutcome v w bytes answers.recvs := by
      rcases handleInput_cases hinput with ⟨-, hinput⟩ | ⟨hnil, rfl⟩
      · exact h.handleReadable hrecvs hinput
      · rw [hnil]
        exact .of_nil h
    refine ⟨fun hn => ?_, fun hn => ?_⟩
    · have hw := hread.1 fun hmem => hn (Or.inr hmem)
      rcases handleOutput_cases houtput with ⟨-, houtput⟩ | ⟨-, rfl⟩
      · exact hw.handleWritable hsends houtput
      · exact hw
    · have hw := hread.2 (hn.resolve_left fun hne => hne hflags)
      rcases handleOutput_cases houtput with ⟨hstate, -⟩ | ⟨-, rfl⟩
      · exact absurd (hw.state.symm.trans hstate) (by simp)
      · exact hw

/-! ### Runs -/

/-- The connection is up: nothing of the stream is missing. -/
structure Receiving (stream : Bytes) (r : Reception) : Prop where
  holds : ∃ bytes, Holds r.socket bytes ∧ bytes ++ r.unread = stream

/-- The connection is down, and the slots have got these bytes. -/
def Over (bytes : Bytes) (r : Reception) : Prop := Closed r.socket bytes

/-- A step goes on receiving, or ends and is over. -/
theorem Receiving.step {stream : Bytes} (h : Receiving stream r) (hst : Step c r l r') :
    (¬ Ends l → Receiving stream r') ∧ (Ends l → Over r.socket.obtained r') := by
  obtain ⟨bytes, hholds, rfl⟩ := h.holds
  cases hst with
  | handleEvents hstate hanswers hs =>
      obtain ⟨hopen, hclosed⟩ := hholds.handleEvents hanswers.recvs hanswers.sends hs
      refine ⟨fun hn => ⟨_, hopen hn, ?_⟩, hclosed⟩
      rw [List.append_assoc, ← hanswers.received]
  | @runPosted signal hc hsignal =>
      refine ⟨fun _ => ⟨bytes, ?_, rfl⟩, False.elim⟩
      cases signal with
      | readyRead => exact ⟨hholds.state, (List.append_nil _).trans hholds.bytes, hholds.quiet⟩
      | _ => exact hholds

/-- Behind its end a connection gives nothing to its slots any more. -/
theorem Over.step {bytes : Bytes} (h : Over bytes r) (hst : Step c r l r') : Over bytes r' := by
  cases hst with
  | handleEvents hstate => exact absurd (h.state.symm.trans hstate) (by simp)
  | @runPosted signal hc hsignal =>
      cases signal with
      | readyRead =>
          refine ⟨h.state, rfl, ?_⟩
          change r.socket.obtained ++ r.socket.readBuffer = bytes
          rw [h.readBuffer, List.append_nil]
          exact h.obtained
      | _ => exact h

/-- A run whose steps meet the condition has lost nothing. -/
theorem run_drained {stream : Bytes} {ls : List ReceptionStep} (h : Receiving stream r)
    (hrun : Run (Step c) Drained r ls r') : Receiving stream r' ∨ Over stream r' := by
  refine hrun.invariant (I := fun u => Receiving stream u ∨ Over stream u) ?_ (Or.inl h)
  intro u l v hu hdrained hst
  rcases hu with hu | hu
  · by_cases hl : Ends l
    · obtain ⟨hbuffer, hunread⟩ := hdrained hl
      obtain ⟨bytes, hholds, rfl⟩ := hu.holds
      have hall : u.socket.obtained = bytes ++ u.unread := by
        rw [← hholds.bytes, hbuffer, hunread, List.append_nil, List.append_nil]
      exact Or.inr (hall ▸ (hu.step hst).2 hl)
    · exact Or.inl ((hu.step hst).1 hl)
  · exact Or.inr (hu.step hst)

/-- A run that has lost nothing meets the condition. -/
theorem run_of_over {stream : Bytes} {ls : List ReceptionStep} (h : Receiving stream r)
    (hrun : Reaches (Step c) r ls r') (hover : Over stream r') : Run (Step c) Drained r ls r' := by
  rcases hrun.guarded_or_breaks with hok | ⟨u, l, v, ks, ks', hok, hbreaks, hst, hrest⟩
  · exact hok
  · obtain ⟨hl, hleft⟩ := Classical.not_imp.mp hbreaks
    rcases run_drained h hok with hu | hu
    · have hv := hrest.invariant (I := Over u.socket.obtained) (fun _ _ _ hv _ hst => hv.step hst)
        ((hu.step hst).2 hl)
      obtain ⟨bytes, hholds, hstream⟩ := hu.holds
      have hlength := congrArg List.length (hv.obtained.symm.trans hover.obtained)
      rw [← hstream, ← hholds.bytes, List.length_append, List.length_append] at hlength
      refine absurd ⟨?_, ?_⟩ hleft
      · exact List.length_eq_zero_iff.mp (by omega)
      · exact List.length_eq_zero_iff.mp (by omega)
    · cases hst with
      | handleEvents hstate => exact absurd (hu.state.symm.trans hstate) (by simp)
      | runPosted => exact hl.elim

/-- A connection begins. -/
structure Fresh (r : Reception) : Prop where
  state : r.socket.state = .connected
  readBuffer : r.socket.readBuffer = []
  obtained : r.socket.obtained = []
  quiet : .disconnected ∉ r.socket.connection.signals

/-- A new connection is receiving. -/
theorem Fresh.receiving (h : r.Fresh) : Receiving r.unread r :=
  ⟨[], ⟨h.state, by rw [h.obtained, h.readBuffer]; rfl, h.quiet⟩, List.nil_append _⟩

/-- Who is receiving has not ended. -/
theorem Receiving.not_ended {stream : Bytes} (h : Receiving stream r) : ¬ r.Ended c := by
  obtain ⟨bytes, hholds, -⟩ := h.holds
  cases c with
  | tcpSocket => exact fun hended => hholds.quiet (List.mem_of_mem_take hended)
  | localSocket => exact hholds.quiet

/-- **When no received byte is lost.** When `disconnected` is emitted, by either class, the slots of
`readyRead` have got every byte that the peer sent, iff the event in which the socket disconnects
has come when they had them all. -/
theorem complete_iff_drained {r₀ r : Reception} {ls : List ReceptionStep} (h₀ : r₀.Fresh)
    (hrun : Reaches (Step c) r₀ ls r) (hended : r.Ended c) :
    r.socket.obtained = r₀.unread ↔ Run (Step c) Drained r₀ ls r := by
  constructor
  · intro hall
    have hover : Receiving r₀.unread r ∨ ∃ bytes, Over bytes r := by
      refine hrun.invariant (I := fun u => Receiving r₀.unread u ∨ ∃ bytes, Over bytes u) ?_
        (Or.inl h₀.receiving)
      rintro u l v (hu | ⟨bytes, hu⟩) - hst
      · by_cases hl : Ends l
        · exact Or.inr ⟨_, (hu.step hst).2 hl⟩
        · exact Or.inl ((hu.step hst).1 hl)
      · exact Or.inr ⟨bytes, hu.step hst⟩
    rcases hover with hreceiving | ⟨bytes, hover⟩
    · exact absurd hended hreceiving.not_ended
    · exact run_of_over h₀.receiving hrun ⟨hover.state, hover.readBuffer, hall⟩
  · intro hdrained
    rcases run_drained h₀.receiving hdrained with hreceiving | hover
    · exact absurd hended hreceiving.not_ended
    · exact hover.obtained

/-- A socket that is connected. -/
def connectedSocket : StreamSocket := { state := .connected, descriptor := 5, active := true }

/-- The byte comes in one event, its slot runs, and the end of the stream comes in the next. -/
theorem byte_before_end : ∃ ls r,
    Reaches (Step .tcpSocket) { socket := connectedSocket, unread := [7] } ls r ∧
    r.socket.obtained = [7] ∧ (r.socket.obtained = [7] ↔ Run (Step .tcpSocket) Drained
      { socket := connectedSocket, unread := [7] } ls r) := by
  have hrun : Reaches (Step .tcpSocket) { socket := connectedSocket, unread := [7] }
      [.handleEvents epollIn { recvs := [.received [7], .failed eagain] }, .runPosted,
        .handleEvents epollIn { recvs := [.received []] }, .runPosted] _ :=
    .cons trivial (.handleEvents rfl ⟨rfl, by simp, by simp [RecvFatal], by simp⟩ rfl) <|
    .cons trivial (.runPosted rfl rfl) <|
    .cons trivial (.handleEvents rfl ⟨rfl, by simp, by simp [RecvFatal], by simp⟩ rfl) <|
    .cons trivial (.runPosted rfl rfl) <| .nil _
  exact ⟨_, _, hrun, rfl, complete_iff_drained ⟨rfl, rfl, rfl, by simp [connectedSocket]⟩ hrun
    (by decide)⟩

/-- **The last bytes are lost at the end of a stream.** A `TcpSocket` is told of the hang-up
together with the last byte, which it does not read; a `LocalSocket` receives the byte and the end
of the stream in one pass, and clears its buffer before it announces the byte. -/
theorem last_bytes_lost :
    (∃ ls r, Reaches (Step .tcpSocket) { socket := connectedSocket, unread := [7] } ls r ∧
      r.Ended .tcpSocket ∧ r.socket.obtained = []) ∧
    ∃ ls r, Reaches (Step .localSocket) { socket := connectedSocket, unread := [7] } ls r ∧
      r.Ended .localSocket ∧ r.socket.obtained = [] := by
  have htcp : Reaches (Step .tcpSocket) { socket := connectedSocket, unread := [7] }
      [.handleEvents (epollIn ||| epollRdHup) {}, .runPosted] _ :=
    .cons trivial (.handleEvents rfl ⟨rfl, by simp, by simp, by simp⟩ rfl) <|
    .cons trivial (.runPosted rfl rfl) <| .nil _
  have hlocal : Reaches (Step .localSocket) { socket := connectedSocket, unread := [7] }
      [.handleEvents epollIn { recvs := [.received [7], .received []] }] _ :=
    .cons trivial (.handleEvents rfl ⟨rfl, by simp, by simp [RecvFatal], by simp⟩ rfl) <| .nil _
  exact ⟨⟨_, _, htcp, by decide, rfl⟩, _, _, hlocal, by decide, rfl⟩

end Reception

end SimplyNode
