import SimplyNode.EndOfStream
import SimplyNode.HttpConnection
import SimplyNode.Lib.Duplex

/-!
# Two Sockets of One Connection

A `TcpSocket` that connects and the one that is adopted at the other end. Each of them is used
inside its owner, by any calls of the application at any time, by the events of its descriptor and
by the tasks that emit its signals. The slot of `readyRead` calls `readAll()`. The kernel takes
bytes from `send`, and hands them over to `recv` at the other end in the same order, in pieces of
any size. Any call may fail, and any flags may come with an event. That the stream is at its end
comes behind its last byte, when the other end is disconnected.

## Main results

* `Moves`: what a call does to the two streams of a socket.
* `TcpPair.delivers`: **the bytes come to the other end in order**, none twice, and none is lost
  while both ends are connected.
-/

open Transition

namespace SimplyNode

namespace StreamSocket

variable {s v s' : StreamSocket} {bytes : Bytes}

/-! ### One call -/

/-- What the socket has read from the kernel, and not thrown away. -/
def read (s : StreamSocket) : Bytes := s.obtained ++ s.readBuffer

/-- Signals are posted. A buffer that has been filled is announced. -/
structure Posts (s s' : StreamSocket) (more : List SocketSignal) : Prop where
  signals : s'.connection.signals = s.connection.signals ++ more
  announced : s'.readBuffer ≠ [] → s.readBuffer ≠ [] ∨ .readyRead ∈ more

/-- **What a call does to the two streams of a socket.** It reads some bytes from the kernel, or it
disconnects the socket; and the kernel takes some bytes. -/
structure Moves (s s' : StreamSocket) (bytes : Bytes) : Prop where
  sent : s.connection.sent <+: s'.connection.sent
  read : s'.read = s.read ++ bytes ∨ ¬s'.IsOpen ∧ s'.read <+: s.read ++ bytes
  closed : ¬s.IsOpen → ¬s'.IsOpen ∧ bytes = []
  posts : ∃ more, Posts s s' more

/-- A call that touches neither of the streams. -/
theorem Moves.of_eq (hread : s'.readBuffer = s.readBuffer) (hobtained : s'.obtained = s.obtained)
    (hconnection : s'.connection = s.connection)
    (hclosed : ¬s.IsOpen → ¬s'.IsOpen) : Moves s s' [] where
  sent := by rw [hconnection]
  read := .inl (by rw [StreamSocket.read, StreamSocket.read, hread, hobtained, List.append_nil])
  closed := fun h => ⟨hclosed h, rfl⟩
  posts := ⟨[], by rw [hconnection, List.append_nil], fun hne => .inl (hread ▸ hne)⟩

theorem Moves.refl (s : StreamSocket) : Moves s s [] := .of_eq rfl rfl rfl id

theorem Posts.trans {more more' : List SocketSignal} (h : Posts s v more) (h' : Posts v s' more') :
    Posts s s' (more ++ more') where
  signals := by rw [h'.signals, h.signals, List.append_assoc]
  announced hne := by
    rcases h'.announced hne with hv | hmem
    · exact (h.announced hv).imp_right (List.mem_append_left _)
    · exact .inr (List.mem_append_right _ hmem)

/-- A part that leaves the socket as it reads, and what comes next. -/
theorem Moves.trans {more : Bytes} (h : Moves s v bytes) (hread : v.read = s.read ++ bytes)
    (h' : Moves v s' more) : Moves s s' (bytes ++ more) where
  sent := h.sent.trans h'.sent
  read := by
    rw [← List.append_assoc, ← hread]
    exact h'.read
  closed := fun hs => by
    obtain ⟨hv, hnil⟩ := h.closed hs
    obtain ⟨hs', hnil'⟩ := h'.closed hv
    exact ⟨hs', by rw [hnil, hnil', List.append_nil]⟩
  posts := by
    obtain ⟨more, hmore⟩ := h.posts
    obtain ⟨more', hmore'⟩ := h'.posts
    exact ⟨more ++ more', hmore.trans hmore'⟩

/-- A part that reads nothing, and what comes next. -/
theorem Moves.next (h : Moves s v []) (hread : v.read = s.read) (h' : Moves v s' bytes) :
    Moves s s' bytes := h.trans (hread.trans (List.append_nil _).symm) h'

theorem moves_note (signal : SocketSignal) : Moves s (s.note signal) [] where
  sent := List.prefix_rfl
  read := .inl (List.append_nil _).symm
  closed := fun h => ⟨h, rfl⟩
  posts := ⟨[signal], rfl, .inl⟩

/-- What a socket leaves behind that is disconnected. -/
theorem moves_disconnected {more : List SocketSignal} (hclosed : ¬s'.IsOpen)
    (hsent : s'.connection.sent = s.connection.sent) (hbuffer : s'.readBuffer = [])
    (hobtained : s'.obtained = s.obtained)
    (hsignals : s'.connection.signals = s.connection.signals ++ more) : Moves s s' [] where
  sent := by rw [hsent]
  read := by
    refine .inr ⟨hclosed, ?_⟩
    rw [StreamSocket.read, hbuffer, hobtained, List.append_nil, List.append_nil]
    exact List.prefix_append _ _
  closed := fun _ => ⟨hclosed, rfl⟩
  posts := ⟨more, hsignals, fun hne => absurd hbuffer hne⟩

theorem moves_applyDisconnectedState :
    Moves s (applyDisconnectedState .tcpSocket s true) [] := by
  obtain ⟨signals, heq, -⟩ := applyDisconnectedState_eq .tcpSocket s true
  rw [heq]
  exact moves_disconnected (not_isOpen_of_disconnected rfl) rfl rfl rfl rfl

/-- A call has failed, and the socket is disconnected. -/
theorem moves_failed {text : String} {errno : Errno} :
    Moves s (applyDisconnectedState .tcpSocket (failWithErrno .tcpSocket s text errno) true)
      [] := by
  obtain ⟨signals, heq, -⟩ :=
    applyDisconnectedState_eq .tcpSocket (failWithErrno .tcpSocket s text errno) true
  rw [heq]
  exact moves_disconnected (not_isOpen_of_disconnected rfl) rfl rfl rfl (List.append_assoc ..)

/-- The interest is no part of the streams. -/
theorem Moves.interest (h : Moves s v bytes) :
    Moves s (updateInterestForState .tcpSocket v) bytes := by
  obtain ⟨more, hsignals, hannounced⟩ := h.posts
  exact ⟨h.sent, h.read, h.closed, more, hsignals, hannounced⟩

/-- A flush. -/
theorem Moves.handleWritable {sends : List SendResult}
    (hs : handleWritable .tcpSocket s sends = some s') : Moves s s' [] := by
  refine handleWritable_rule (I := fun v => Moves s v [] ∧ v.read = s.read)
    (J := fun v => Moves s v []) ?_ ?_ ?_ ?_ ⟨.refl s, rfl⟩ hs
  · exact fun v hv => ⟨hv.1.next hv.2 (.of_eq rfl rfl rfl id), hv.2⟩
  · rintro v front rest n ⟨hv, hread⟩ - - -
    have htaken : Moves v (v.advanceFront front rest n) [] :=
      ⟨List.prefix_append _ _, .inl (List.append_nil _).symm, fun h => ⟨h, rfl⟩, [],
        (List.append_nil _).symm, .inl⟩
    exact ⟨(hv.next hread htaken).next hread (moves_note _), hread⟩
  · exact fun _ v hv => hv.1.interest
  · exact fun v r _ _ hv => (hv.1.next hv.2 moves_failed).interest

/-! ### Reading -/

/-- What the receive loop comes to. `appended` says that bytes have been received in this event,
which are announced at its end. -/
structure Reads (s s' : StreamSocket) (bytes : Bytes) (appended : Bool) : Prop where
  sent : s'.connection.sent = s.connection.sent
  read : s'.read = s.read ++ bytes ∨ ¬s'.IsOpen ∧ s'.read <+: s.read ++ bytes
  posts : ∃ more, s'.connection.signals = s.connection.signals ++ more ∧
    (s'.readBuffer = [] ∨ .readyRead ∈ more ∨ appended = false ∧ s'.readBuffer = s.readBuffer)

/-- The loop ends, and the socket is disconnected. -/
theorem Reads.of_disconnected {appended : Bool} {more : List SocketSignal}
    (hclosed : ¬s'.IsOpen) (hsent : s'.connection.sent = s.connection.sent)
    (hbuffer : s'.readBuffer = []) (hobtained : s'.obtained = s.obtained)
    (hsignals : s'.connection.signals = s.connection.signals ++ more) :
    Reads s s' bytes appended where
  sent := hsent
  read := by
    refine .inr ⟨hclosed, ?_⟩
    rw [StreamSocket.read, StreamSocket.read, hbuffer, hobtained, List.append_nil,
      List.append_assoc]
    exact List.prefix_append _ _
  posts := ⟨more, hsignals, .inl hbuffer⟩

/-- The induction is on the answers of the kernel. -/
theorem reads_receiveLoop {recvs : List RecvResult} {appended : Bool}
    (hs : receiveLoop .tcpSocket recvs appended s = some s') :
    Reads s s' (receivedBytes recvs) appended := by
  induction recvs generalizing s appended with
  | nil => cases hs
  | cons r recvs ih =>
      cases r with
      | received piece =>
          cases piece with
          | nil =>
              obtain ⟨rfl, rfl⟩ := finish_eq_some.mp hs
              obtain ⟨signals, heq, -⟩ := applyDisconnectedState_eq .tcpSocket s true
              rw [heq]
              exact .of_disconnected (not_isOpen_of_disconnected rfl) rfl rfl rfl rfl
          | cons byte piece =>
              obtain ⟨hsent, hread, more, hsignals, hposts⟩ := ih hs
              have hbytes : s.read ++ receivedBytes (.received (byte :: piece) :: recvs) =
                  StreamSocket.read { s with readBuffer := s.readBuffer ++ byte :: piece } ++
                    receivedBytes recvs := by
                simp [StreamSocket.read, receivedBytes]
              refine ⟨hsent, hbytes ▸ hread, more, hsignals, ?_⟩
              rcases hposts with hbuffer | hmem | ⟨hfalse, -⟩
              · exact .inl hbuffer
              · exact .inr (.inl hmem)
              · cases hfalse
      | failed errno =>
          rw [receiveLoop] at hs
          split at hs
          · obtain ⟨rfl, rfl⟩ := finish_eq_some.mp hs
            cases appended with
            | true =>
                exact ⟨rfl, .inl (List.append_nil _).symm, [.readyRead], rfl,
                  .inr (.inl (List.mem_singleton.mpr rfl))⟩
            | false =>
                exact ⟨rfl, .inl (List.append_nil _).symm, [], (List.append_nil _).symm,
                  .inr (.inr ⟨rfl, rfl⟩)⟩
          · split at hs
            · exact ih hs
            · obtain ⟨rfl, rfl⟩ := finish_eq_some.mp hs
              obtain ⟨signals, heq, -⟩ := applyDisconnectedState_eq .tcpSocket
                (failWithErrno .tcpSocket s "recv() failed" errno) true
              rw [recvFailed, heq]
              exact .of_disconnected (not_isOpen_of_disconnected rfl) rfl rfl rfl
                (List.append_assoc ..)

/-- A connected socket reads. -/
theorem Moves.handleReadable (hstate : s.state = .connected) {recvs : List RecvResult}
    (hs : handleReadable .tcpSocket s recvs = some s') : Moves s s' (receivedBytes recvs) := by
  rw [StreamSocket.handleReadable] at hs
  split at hs
  · obtain ⟨rfl, rfl⟩ := finish_eq_some.mp hs
    exact .refl s
  · obtain ⟨hsent, hread, more, hsignals, hposts⟩ := reads_receiveLoop hs
    refine ⟨by rw [hsent], hread, fun hclosed => absurd (.inl hstate) hclosed, more, hsignals,
      fun hne => ?_⟩
    rcases hposts with hbuffer | hmem | ⟨-, hsame⟩
    · exact absurd hbuffer hne
    · exact .inr hmem
    · exact .inl (hsame ▸ hne)

/-! ### Events -/

/-- A connect is completed. -/
theorem Moves.applyConnectedState (hopen : s.IsOpen) {sends : List SendResult}
    (hs : applyConnectedState .tcpSocket s sends = some s') : Moves s s' [] := by
  have hconnected : Moves s (StreamSocket.emit .tcpSocket (updateInterestForState .tcpSocket
      { s with state := .connected, connection.established := true }).start .connected) [] :=
    ⟨List.prefix_rfl, .inl (List.append_nil _).symm, fun h => absurd hopen h, [.connected], rfl,
      .inl⟩
  exact hconnected.next rfl (.handleWritable hs)

/-- **What an event does to the streams.** -/
theorem Moves.handleEvents {nativeEvents : EventMask} {answers : EventAnswers}
    (hs : s.handleEvents .tcpSocket nativeEvents answers = some s') :
    Moves s s' (receivedBytes answers.recvs) := by
  have hcomplete {p : StreamSocket × Bool}
      (hp : completeConnect .tcpSocket s nativeEvents answers = some p) : Moves s p.1 [] := by
    rcases completeConnect_cases hp with ⟨-, -, text, errno, rfl⟩ | ⟨hstate, -, hp, -⟩ | ⟨-, rfl⟩
    · exact moves_failed
    · exact .applyConnectedState (.inr hstate) hp
    · exact .refl s
  rcases handleEvents_cases hs with ⟨-, hs, hrecvs, -⟩ | ⟨hp, hrecvs, -⟩ |
    ⟨v, w, -, hp, hinput, houtput⟩
  · rw [hrecvs]
    rcases handleHangUp_cases hs with ⟨hstate, -, hs⟩ | ⟨-, rfl⟩
    · exact .applyConnectedState (.inr hstate) hs
    · exact moves_applyDisconnectedState
  · rw [hrecvs]
    exact hcomplete hp
  · have hv := hcomplete hp
    have hw : Moves s w (receivedBytes answers.recvs) := by
      rcases handleInput_cases hinput with ⟨hstate, hinput⟩ | ⟨hnil, rfl⟩
      · have hread : v.read = s.read := by
          refine (hv.read.resolve_right fun hd => ?_).trans (List.append_nil _)
          exact hd.1 (.inl hstate)
        exact hv.next hread (.handleReadable hstate hinput)
      · rw [hnil]
        exact hv
    rcases handleOutput_cases houtput with ⟨hstate, houtput⟩ | ⟨-, rfl⟩
    · have hread : w.read = s.read ++ receivedBytes answers.recvs :=
        hw.read.resolve_right fun hd => hd.1 (.inl hstate)
      have hall := hw.trans hread (.handleWritable houtput)
      rwa [List.append_nil] at hall
    · exact hw

/-- The calls that belong to a connection. -/
def StaysConnected : SocketCall → Prop
  | .connectToHost _ _ _ => False
  | _ => True

/-- What `recv` answers in a call. -/
def recvsOf : SocketCall → List RecvResult
  | .handleEvents _ answers => answers.recvs
  | _ => []

/-- **What a call does to the streams.** -/
theorem Moves.step {c : SocketCall} (hc : StaysConnected c) (hs : TcpSocket.Step s c s') :
    Moves s s' (receivedBytes (recvsOf c)) := by
  rw [TcpSocket.Step] at hs
  cases c with
  | connectToHost host resolution sends => exact hc.elim
  | close =>
      obtain rfl := Option.some.inj hs
      exact moves_applyDisconnectedState
  | write data sends =>
      obtain ⟨p, hp, rfl⟩ := Option.map_eq_some_iff.mp hs
      rcases write_cases hp with ⟨-, rfl⟩ | ⟨-, -, hp, -⟩
      · exact .refl s
      · have haccept : Moves s (s.accept data) [] :=
          ⟨List.prefix_rfl, .inl (List.append_nil _).symm, fun h => ⟨h, rfl⟩, [],
            (List.append_nil _).symm, .inl⟩
        exact haccept.next rfl (.handleWritable hp)
  | readAll =>
      obtain rfl := Option.some.inj hs
      refine ⟨List.prefix_rfl, .inl ?_, fun h => ⟨h, rfl⟩, [], (List.append_nil _).symm,
        fun hne => absurd rfl hne⟩
      simp [StreamSocket.read, readAll, receivedBytes, recvsOf]
  | setBlocking blocking error =>
      obtain rfl := Option.some.inj hs
      rw [setBlocking_eq]
      split
      · exact ⟨List.prefix_rfl, .inl (List.append_nil _).symm,
          fun _ => ⟨not_isOpen_of_error rfl, rfl⟩, _, rfl, .inl⟩
      · exact .of_eq rfl rfl rfl id
  | handleEvents nativeEvents answers => exact .handleEvents hs

end StreamSocket

open StreamSocket

/-! ### One end -/

/-- A socket, and how many of the signals that it has posted have been emitted. -/
structure TcpEnd where
  socket : StreamSocket
  emitted : ℕ := 0

/-- A call inside the owner, or the task that emits the next signal. -/
inductive TcpEndEvent
  | call (c : SocketCall)
  | runPosted

namespace TcpEnd

/-- What `recv` answers. -/
def recvs : TcpEndEvent → List RecvResult
  | .call c => recvsOf c
  | .runPosted => []

/-- A step of one end. -/
inductive Takes : TcpEnd → TcpEndEvent → TcpEnd → Prop
  | call {e : TcpEnd} {c : SocketCall} {socket : StreamSocket} :
      StaysConnected c → TcpSocket.Step e.socket c socket →
      Takes e (.call c) { e with socket := socket }
  | runPosted {e : TcpEnd} {signal : SocketSignal} :
      e.socket.connection.signals[e.emitted]? = some signal →
      Takes e .runPosted { socket := e.socket.runSlots signal, emitted := e.emitted + 1 }

/-- The kernel has bytes of the other end for `recv`. It tells the end of the stream when there are
no more of them, and the other end is disconnected. -/
def party : Party TcpEnd TcpEndEvent UInt8 where
  takes := Takes
  got e := receivedBytes (recvs e)
  sent e := e.socket.connection.sent
  sees e peer rest :=
    .received [] ∈ recvs e → peer.socket.state = .disconnected ∧ rest = []

/-- **What holds of one end** that has received these bytes. -/
structure Sound (e : TcpEnd) (received : Bytes) : Prop where
  writes : e.socket.WritesInOrder
  read : e.socket.read = received ∨ ¬e.socket.IsOpen ∧ e.socket.read <+: received
  announced : e.socket.readBuffer ≠ [] → .readyRead ∈ e.socket.connection.signals.drop e.emitted
  emitted : e.emitted ≤ e.socket.connection.signals.length

variable {e next : TcpEnd} {received : Bytes} {event : TcpEndEvent}

/-- A call keeps it. -/
theorem Sound.call (h : Sound e received) {c : SocketCall} {socket : StreamSocket}
    (hc : StaysConnected c) (hs : TcpSocket.Step e.socket c socket) :
    Sound { e with socket := socket } (received ++ receivedBytes (recvsOf c)) := by
  have hmoves := Moves.step hc hs
  obtain ⟨more, hsignals, hannounced⟩ := hmoves.posts
  refine ⟨h.writes.step hs, ?_, fun hne => ?_, ?_⟩
  · rcases h.read with heq | ⟨hclosed, hprefix⟩
    · exact heq ▸ hmoves.read
    · obtain ⟨hstill, hnil⟩ := hmoves.closed hclosed
      rw [hnil, List.append_nil]
      refine .inr ⟨hstill, ?_⟩
      rcases hmoves.read with heq | ⟨-, hless⟩
      · exact heq ▸ by rwa [hnil, List.append_nil]
      · rw [hnil, List.append_nil] at hless
        exact hless.trans hprefix
  · change .readyRead ∈ socket.connection.signals.drop e.emitted
    rw [hsignals, List.drop_append_of_le_length h.emitted]
    rcases hannounced hne with hbefore | hmem
    · exact List.mem_append_left _ (h.announced hbefore)
    · exact List.mem_append_right _ hmem
  · change e.emitted ≤ socket.connection.signals.length
    rw [hsignals, List.length_append]
    exact h.emitted.trans (Nat.le_add_right _ _)

/-- The task of a signal keeps it. -/
theorem Sound.runPosted (h : Sound e received) {signal : SocketSignal}
    (hsignal : e.socket.connection.signals[e.emitted]? = some signal) :
    Sound { socket := e.socket.runSlots signal, emitted := e.emitted + 1 } received := by
  obtain ⟨hlt, heq⟩ := List.getElem?_eq_some_iff.mp hsignal
  by_cases hready : signal = .readyRead
  · subst hready
    have hread : e.socket.readAll.read = e.socket.read := List.append_nil _
    exact ⟨h.writes.step (l := .readAll) rfl, hread ▸ h.read, fun hne => absurd rfl hne, hlt⟩
  · have hslots : e.socket.runSlots signal = e.socket := by
      cases signal with
      | readyRead => exact absurd rfl hready
      | _ => rfl
    rw [hslots]
    refine ⟨h.writes, h.read, fun hne => ?_, hlt⟩
    have hmem := h.announced hne
    rw [List.drop_eq_getElem_cons hlt, heq] at hmem
    exact (List.mem_cons.mp hmem).resolve_left fun heq => hready heq.symm

/-- **A step keeps it.** -/
theorem Sound.step (h : Sound e received) (hstep : Takes e event next) :
    Sound next (received ++ receivedBytes (recvs event)) := by
  cases hstep with
  | call hc hs => exact h.call hc hs
  | runPosted hsignal =>
      have hnext := h.runPosted hsignal
      rwa [← List.append_nil received] at hnext

/-- A socket that nothing has come to yet. -/
structure Fresh (e : TcpEnd) : Prop where
  writes : e.socket.WritesInOrder
  read : e.socket.read = []
  sent : e.socket.connection.sent = []
  emitted : e.emitted = 0

theorem Fresh.sound (h : Fresh e) : Sound e [] where
  writes := h.writes
  read := .inl h.read
  announced hne := absurd (List.append_eq_nil_iff.mp h.read).2 hne
  emitted := h.emitted ▸ Nat.zero_le _

/-- The socket of a server. -/
theorem fresh_adopt (fd : FileDescriptor) (blocking : Bool) (error : Option Errno) :
    Fresh { socket := TcpSocket.adopt fd blocking error } := by
  have hwrites := WritesInOrder.constructed (.adopt fd blocking error)
  cases error with
  | _ =>
      refine ⟨hwrites, ?_, ?_, rfl⟩
      · change StreamSocket.read (TcpSocket.adopt fd blocking _) = []
        rw [TcpSocket.adopt]
        split <;> rfl
      · change (TcpSocket.adopt fd blocking _).connection.sent = []
        rw [TcpSocket.adopt]
        split <;> rfl

/-- The socket of a client. -/
theorem fresh_connectToHost {blocking : Bool} {host : String}
    {resolution : Except String (List ConnectAttempt)} {s : StreamSocket}
    (hs : TcpSocket.Step (TcpSocket.create blocking) (.connectToHost host resolution []) s) :
    Fresh { socket := s } := by
  have hwrites := (WritesInOrder.constructed (.create blocking)).step hs
  rw [TcpSocket.Step] at hs
  cases resolution with
  | error resolveError =>
      obtain rfl := Option.some.inj hs
      exact ⟨hwrites, rfl, rfl, rfl⟩
  | ok attempts =>
      rcases TcpSocket.connectLoop_cases hs with ⟨fd, hs⟩ | ⟨-, fd, rfl⟩ | ⟨-, fd, errno, rfl⟩
      · have hread := (Moves.handleWritable hs).read
        have hsent := length_sent_handleWritable hs
        refine ⟨hwrites, ?_, List.length_eq_zero_iff.mp hsent, rfl⟩
        rcases hread with heq | ⟨-, hprefix⟩
        · exact heq
        · exact List.prefix_nil.mp hprefix
      · exact ⟨hwrites, rfl, rfl, rfl⟩
      · exact ⟨hwrites, rfl, rfl, rfl⟩

end TcpEnd

/-! ### The pair -/

/-- The two ends of a connection, and the kernel between them. -/
abbrev TcpPair := Duplex TcpEnd UInt8

namespace TcpPair

open TcpEnd

/-- A step of the one end or the other. -/
abbrev Step : TcpPair → Side × TcpEndEvent → TcpPair → Prop := Duplex.Step TcpEnd.party

/-- One socket connects, and the other one is adopted. -/
structure Opening (p : TcpPair) : Prop where
  client : ∃ blocking host resolution, TcpSocket.Step (TcpSocket.create blocking)
    (.connectToHost host resolution []) (p.party .client).socket
  server : ∃ fd blocking error, (p.party .server).socket = TcpSocket.adopt fd blocking error
  emitted : ∀ side, (p.party side).emitted = 0
  received : ∀ side, p.received side = []
  coming : ∀ side, p.coming side = []

variable {p p₀ : TcpPair}

theorem Opening.fresh (h : Opening p) (side : Side) : Fresh (p.party side) := by
  have hend : p.party side = { socket := (p.party side).socket } := by
    rw [← h.emitted side]
  rw [hend]
  cases side with
  | client =>
      obtain ⟨blocking, host, resolution, hs⟩ := h.client
      exact fresh_connectToHost hs
  | server =>
      obtain ⟨fd, blocking, error, heq⟩ := h.server
      rw [heq]
      exact fresh_adopt fd blocking error

theorem Opening.conserves (h : Opening p) : Duplex.Conserves TcpEnd.party p := fun side => by
  rw [h.received, h.coming]
  exact (h.fresh side.other).sent.symm

/-- Both sockets are connected, or about to be. -/
def BothOpen (p : TcpPair) : Prop := ∀ side, (p.party side).socket.IsOpen

/-- **What comes to one end.** What `readAll()` has returned are the first bytes that calls of
`write` have accepted at the other end. While both sockets are connected, the others are still in
one of the two queues or on the way; and where nothing is, everything has been returned. -/
structure Delivers (p : TcpPair) (side : Side) : Prop where
  inOrder : (p.party side).socket.obtained <+: (p.party side.other).socket.connection.accepted
  conserved : BothOpen p → (p.party side).socket.obtained ++ (p.party side).socket.readBuffer ++
    p.coming side ++ (p.party side.other).socket.queued =
      (p.party side.other).socket.connection.accepted
  complete : BothOpen p → p.coming side = [] → (p.party side.other).socket.writeQueue = [] →
    (p.party side).emitted = (p.party side).socket.connection.signals.length →
    (p.party side).socket.obtained = (p.party side.other).socket.connection.accepted

/-- **The bytes come to the other end in order**, in every run of the two sockets. -/
theorem delivers {es : List (Side × TcpEndEvent)} (h₀ : Opening p₀) (h : Reaches Step p₀ es p)
    (side : Side) : Delivers p side := by
  obtain ⟨hsound, hconserves⟩ := Duplex.invariant (I := fun _ => TcpEnd.Sound)
    (fun _ _ _ _ _ hsound hstep => hsound.step hstep)
    (fun side => (h₀.received side).symm ▸ (h₀.fresh side).sound) h₀.conserves h
  have hsent : p.received side ++ p.coming side = (p.party side.other).socket.connection.sent :=
    hconserves side
  have hstream := (hsound side.other).writes.stream
  have hread : (p.party side).socket.read <+: p.received side := by
    rcases (hsound side).read with heq | ⟨-, hprefix⟩
    · rw [heq]
    · exact hprefix
  have hconserved : BothOpen p → (p.party side).socket.obtained ++
      (p.party side).socket.readBuffer ++ p.coming side ++ (p.party side.other).socket.queued =
        (p.party side.other).socket.connection.accepted := by
    intro hopen
    have heq : (p.party side).socket.read = p.received side :=
      (hsound side).read.resolve_right fun hclosed => hclosed.1 (hopen side)
    rw [← hstream.queued (hopen side.other), ← hsent, ← heq, StreamSocket.read]
  refine ⟨?_, hconserved, fun hopen hcoming hqueue hemitted => ?_⟩
  · have hobtained : (p.party side).socket.obtained <+: (p.party side).socket.read :=
      List.prefix_append _ _
    refine (hobtained.trans hread).trans (List.IsPrefix.trans ?_ hstream.sent)
    exact hsent ▸ List.prefix_append _ _
  · have hbuffer : (p.party side).socket.readBuffer = [] := by
      by_contra hne
      have hmem := (hsound side).announced hne
      rw [hemitted, List.drop_length] at hmem
      cases hmem
    have hnothing := hconserved hopen
    rwa [hbuffer, hcoming, hstream.queued_eq_nil.mpr hqueue, List.append_nil, List.append_nil,
      List.append_nil] at hnothing

/-- A client that is connecting, and the socket that its server has for it. -/
def exampleOpening : TcpPair where
  party
    | .client => { socket := (TcpSocket.call (TcpSocket.create false) (.connectToHost "::1"
        (.ok [.connect 5 (some einprogress)]) [])).getD {} }
    | .server => { socket := TcpSocket.adopt 6 false none }
  received _ := []
  coming _ := []

theorem opening_example : Opening exampleOpening where
  client := ⟨false, "::1", .ok [.connect 5 (some einprogress)], rfl⟩
  server := ⟨6, false, none, rfl⟩
  emitted side := by cases side <;> rfl
  received _ := rfl
  coming _ := rfl

/-- Three bytes that are written before the client is connected, and come in two pieces. -/
theorem delivers_example : ∃ es p, Reaches Step exampleOpening es p ∧
    (p.party .server).socket.obtained = [1, 2, 3] ∧ Delivers p .server := by
  have hsees {e : TcpEndEvent} (he : decide (.received [] ∈ recvs e) = false) (peer : TcpEnd)
      (rest : Bytes) : party.sees e peer rest := fun hmem => absurd hmem (of_decide_eq_false he)
  have hrun : Reaches Step exampleOpening
      [(.client, .call (.write (.ofBytes [1, 2, 3]) [{ written := -1, errno := eagain }])),
        (.client, .call (.handleEvents epollOut { connectSends := [{ written := 3 }] })),
        (.server, .call (.handleEvents epollIn { recvs := [.received [1, 2], .failed eagain] })),
        (.server, .runPosted),
        (.server, .call (.handleEvents epollIn { recvs := [.received [3], .failed eagain] })),
        (.server, .runPosted)] _ :=
    .cons trivial (Duplex.step_advance [] [] (.call trivial rfl) rfl (hsees rfl _ _) rfl) <|
    .cons trivial (Duplex.step_advance [] [1, 2, 3] (.call trivial rfl) rfl (hsees rfl _ _) rfl) <|
    .cons trivial (Duplex.step_advance [3] [] (.call trivial rfl) rfl (hsees rfl _ _) rfl) <|
    .cons trivial (Duplex.step_advance [3] [] (.runPosted rfl) rfl (hsees rfl _ _) rfl) <|
    .cons trivial (Duplex.step_advance [] [] (.call trivial rfl) rfl (hsees rfl _ _) rfl) <|
    .cons trivial (Duplex.step_advance [] [] (.runPosted rfl) rfl (hsees rfl _ _) rfl) <| .nil _
  exact ⟨_, _, hrun, rfl, delivers opening_example hrun .server⟩

end TcpPair

end SimplyNode
