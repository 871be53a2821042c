import SimplyNode.HttpConnection

/-!
# Responses Are Flushed Before the End

The counters of a connection wait for as many reported bytes as the last response has. If all
earlier bytes have been reported when it is written, this is when all bytes are flushed. Otherwise
the notifications that are still to come for earlier responses count for this one, and the
connection is closed when a part of it is still queued.

## Main results

* `Safe`: the invariant of a connection.
* `closes_flushed`: in a run whose responses are written apart, the server closes the connection
  because of `pendingClose` when everything is flushed.
* `response_cut_off`: a run that cuts the second response off.
-/

open Transition

namespace SimplyNode

open Text StreamSocket

/-- A response has bytes. -/
theorem HttpResponse.serialize_ne_nil (r : HttpResponse) : r.serialize ≠ [] := by
  rw [serialize]
  simp [bytes]

namespace HttpConnection

variable {c c' : HttpConnection} {l : HttpConnectionStep}

/-- The stream of the socket is that of the responses. -/
structure Sound (c : HttpConnection) : Prop where
  stream : c.socket.WritesInOrder
  accepted : c.socket.connection.accepted = c.responses.flatten
  buffered : c.socket.Buffered
  emitted : c.emitted ≤ c.socket.connection.signals.length

/-- What the counters wait for: with `before` bytes reported when the response was written, that
everything is reported; otherwise everything is flushed, or it will never come to that. -/
def Awaits (c : HttpConnection) (state : HttpServer.SocketState) : Prop :=
  state.pendingClose = true → ∃ before, c.reported = before + state.totalSent ∧
    (before + state.totalToSend = c.written ∨ c.flushed = c.written ∨
      c.socket.state = .disconnected ∧ c.flushed < before + state.totalToSend)

/-- **The invariant.** -/
structure Safe (c : HttpConnection) : Prop where
  sound : c.Sound
  awaits : ∀ state, c.state = some state → c.Awaits state
  closings : ∀ k ∈ c.closings, k.flushed = k.written

/-! ### The sizes -/

/-- No more is flushed than has been written. -/
theorem Sound.flushed_le_written (h : c.Sound) : c.flushed ≤ c.written := by
  rw [written, ← h.accepted]
  exact h.stream.stream.sent.length_le

/-- The bytes of signals behind signals. -/
theorem sum_written_append (a b : List SocketSignal) :
    (StreamSocket.written (a ++ b)).sum =
      (StreamSocket.written a).sum + (StreamSocket.written b).sum := by
  rw [StreamSocket.written, List.filterMap_append, List.sum_append]
  rfl

/-- No more is reported than has been flushed. -/
theorem Sound.reported_le_flushed (h : c.Sound) : c.reported ≤ c.flushed := by
  have hnotified := h.stream.stream.notified
  rw [← List.take_append_drop c.emitted c.socket.connection.signals, sum_written_append]
    at hnotified
  rw [flushed, ← hnotified]
  exact Nat.le_add_right _ _

/-- The notification at the front counts when its slot runs. -/
theorem reported_emitted {signal : SocketSignal}
    (hsignal : c.socket.connection.signals[c.emitted]? = some signal) :
    c.emitNext.reported = c.reported + (StreamSocket.written [signal]).sum := by
  rw [emitNext, reported, List.take_add_one, hsignal, sum_written_append]
  rfl

/-- A signal that is emitted keeps the counts. -/
theorem Sound.emit (h : c.Sound) {signal : SocketSignal}
    (hsignal : c.socket.connection.signals[c.emitted]? = some signal) :
    c.emitNext.Sound where
  stream := h.stream
  accepted := h.accepted
  buffered := h.buffered
  emitted := (List.getElem?_eq_some_iff.mp hsignal).1

/-- What has been reported does not depend on what is posted behind it. -/
theorem reported_continues {s : StreamSocket} (h : c.emitted ≤ c.socket.connection.signals.length)
    (hs : c.socket.connection.signals <+: s.connection.signals) :
    reported { c with socket := s } = c.reported := by
  obtain ⟨extra, heq⟩ := hs
  rw [reported, reported]
  dsimp only
  rw [← heq, List.take_append_of_le_length h]

/-- A socket that goes on flushes more. -/
theorem Sound.flushed_le_continues {s : StreamSocket} (h : c.Sound) (hs : Continues c.socket s)
    (hstream : s.WriteStream) : c.flushed ≤ flushed { c with socket := s } := by
  obtain ⟨extra, heq⟩ := hs.signals
  have hnotified := hstream.notified
  rw [← heq, sum_written_append, h.stream.stream.notified] at hnotified
  exact (Nat.le_add_right _ _).trans hnotified.le

/-! ### Events of the socket -/

/-- An event of the socket keeps the counts. -/
theorem Sound.handleEvents (h : c.Sound) {nativeEvents : EventMask} {answers : EventAnswers}
    {s : StreamSocket} (hs : c.socket.handleEvents .tcpSocket nativeEvents answers = some s) :
    Sound { c with socket := s } where
  stream := h.stream.handleEvents hs
  accepted := (Continues.handleEvents hs).accepted.trans h.accepted
  buffered := h.buffered.handleEvents hs
  emitted := h.emitted.trans (Continues.handleEvents hs).signals.length_le

/-- An event of the socket closes nothing. -/
theorem Safe.handleEvents (h : c.Safe) {nativeEvents : EventMask} {answers : EventAnswers}
    {s : StreamSocket} (hs : c.socket.handleEvents .tcpSocket nativeEvents answers = some s) :
    Safe { c with socket := s } := by
  have hsound := h.sound.handleEvents hs
  have hsignals := (Continues.handleEvents hs).signals
  refine ⟨hsound, ?_, h.closings⟩
  intro state hstate hpending
  obtain ⟨before, hreported, hawaits⟩ := h.awaits state hstate hpending
  refine ⟨before, (reported_continues h.sound.emitted hsignals).trans hreported, ?_⟩
  rcases hawaits with hall | hall | ⟨hclosed, hless⟩
  · exact Or.inl hall
  · have hle := hsound.flushed_le_written
    have hge := h.sound.flushed_le_continues (.handleEvents hs) hsound.stream.stream
    exact Or.inr (Or.inl (Nat.le_antisymm hle (hall.symm.le.trans hge)))
  · obtain ⟨hstill, hsent⟩ := handleEvents_disconnected hclosed hs
    refine Or.inr (Or.inr ⟨hstill, ?_⟩)
    rw [flushed, hsent]
    exact hless

/-! ### Slots -/

/-- Closing keeps the counts. -/
theorem Sound.closeSocket (h : c.Sound) : c.closeSocket.Sound where
  stream := .applyDisconnectedState h.stream.stream
  accepted := continues_applyDisconnectedState.accepted.trans h.accepted
  buffered := buffered_applyDisconnectedState
  emitted := h.emitted.trans continues_applyDisconnectedState.signals.length_le

/-- A connection that is closed where all is flushed. -/
theorem Safe.closeSocket (h : c.Sound) (hclosings : ∀ k ∈ c.closings, k.flushed = k.written) :
    c.closeSocket.Safe := by
  refine ⟨h.closeSocket, ?_, hclosings⟩
  intro state hstate
  cases hstate

/-- Bytes of a socket that is not known are not counted. -/
theorem onBytesWritten_none {n : ℕ} (h : c.state = none) : c.onBytesWritten n = c := by
  rw [onBytesWritten, h]

/-- Bytes of a known socket, which may be the last ones. -/
theorem onBytesWritten_some {n : ℕ} {state : HttpServer.SocketState} (h : c.state = some state) :
    c.onBytesWritten n =
      if state.pendingClose = true ∧ state.totalToSend ≤ state.totalSent + n then
        { c.closeSocket with closings := c.closings ++ [⟨c.flushed, c.written⟩] }
      else { c with state := some { state with totalSent := state.totalSent + n } } := by
  rw [onBytesWritten, h]

/-- A notification runs into a counter that waits, or ends the connection in time. -/
theorem Safe.onBytesWritten (h : c.Safe) {n : ℕ}
    (hsignal : c.socket.connection.signals[c.emitted]? = some (.bytesWritten n)) :
    (c.emitNext.onBytesWritten n).Safe := by
  have hsound := h.sound.emit hsignal
  have hreported : c.emitNext.reported = c.reported + n :=
    reported_emitted hsignal
  cases hstate : c.emitNext.state with
  | none =>
      rw [onBytesWritten_none hstate]
      exact ⟨hsound, fun state hsome => absurd (hstate.symm.trans hsome) (by simp), h.closings⟩
  | some state =>
      have hawaits := h.awaits state hstate
      rw [onBytesWritten_some hstate]
      split
      · rename_i hclose
        refine ⟨⟨hsound.closeSocket.stream, hsound.closeSocket.accepted,
          hsound.closeSocket.buffered, hsound.closeSocket.emitted⟩, ?_, ?_⟩
        · intro state hnone
          cases hnone
        · intro k hk
          rcases List.mem_append.mp hk with hk | hk
          · exact h.closings k hk
          · obtain rfl := List.mem_singleton.mp hk
            obtain ⟨before, hbefore, hcases⟩ := hawaits hclose.1
            have htotal := hclose.2
            have hle := hsound.reported_le_flushed
            have hmost := h.sound.flushed_le_written
            change _ ≤ c.flushed at hle
            change c.flushed = c.written
            rcases hcases with hall | hall | ⟨-, hless⟩
            · omega
            · exact hall
            · omega
      · refine ⟨⟨hsound.stream, hsound.accepted, hsound.buffered, hsound.emitted⟩, ?_, h.closings⟩
        intro state' hstate' hpending
        obtain rfl := Option.some.inj hstate'
        obtain ⟨before, hbefore, hcases⟩ := hawaits hpending
        refine ⟨before, ?_, hcases⟩
        change c.emitNext.reported = before + (state.totalSent + n)
        omega

/-- The response to a parser that has been fed is not empty. -/
theorem answer_ne_nil {server : HttpServer} {fs : FileSystem} {parser : HttpRequestParser}
    {response : Bytes} (h : (answer server fs parser).2 = some response) : response ≠ [] := by
  rw [answer] at h
  split at h
  · obtain rfl := Option.some.inj h
    exact HttpResponse.serialize_ne_nil _
  · split at h
    · obtain rfl := Option.some.inj h
      exact HttpResponse.serialize_ne_nil _
    · cases h

/-- A response is written into a connected socket: the counters wait from now on. -/
theorem Safe.send (h : c.Sound) (hclosings : ∀ k ∈ c.closings, k.flushed = k.written)
    (hopen : c.socket.state = .connected) {state : HttpServer.SocketState} {response : Bytes}
    (hresponse : response ≠ []) {sends : List SendResult}
    (hapart : c.reported = c.written ∨ c.flushed + taken sends = c.written + response.length ∨
      (∃ r ∈ sends, SendFatal r) ∧ c.flushed + taken sends < c.reported + response.length)
    (hs : c.send state response sends = some c') : c'.Safe := by
  have hdata : (ByteArray.ofBytes response).remainingView ≠ [] := hresponse
  have hbuffered : (c.socket.accept (.ofBytes response)).Buffered := h.buffered
  obtain ⟨p, hp, rfl⟩ := Option.map_eq_some_iff.mp hs
  have hstream := h.stream.write hp
  rw [write_connected hopen hdata] at hp
  obtain ⟨v, hv, rfl⟩ := Option.map_eq_some_iff.mp hp
  have hcontinues := Continues.handleWritable hv
  have haccepted : v.connection.accepted = c.responses.flatten ++ response :=
    hcontinues.accepted.trans (congrArg (· ++ response) h.accepted)
  have hflatten : (c.responses ++ [response]).flatten = c.responses.flatten ++ response := by
    simp
  have hreported : reported { c with socket := v } = c.reported :=
    reported_continues h.emitted hcontinues.signals
  have hflushed := length_sent_handleWritable hv
  change v.connection.sent.length = c.flushed + taken sends at hflushed
  have hwritten : (c.responses ++ [response]).flatten.length = c.written + response.length := by
    rw [hflatten, List.length_append]
    rfl
  refine ⟨⟨hstream, haccepted.trans hflatten.symm, hbuffered.handleWritable hv,
    h.emitted.trans hcontinues.signals.length_le⟩, ?_, hclosings⟩
  intro state' hstate' _
  obtain rfl := Option.some.inj hstate'
  refine ⟨c.reported, hreported, ?_⟩
  change c.reported + response.length = (c.responses ++ [response]).flatten.length ∨
    v.connection.sent.length = (c.responses ++ [response]).flatten.length ∨
    v.state = .disconnected ∧ v.connection.sent.length < c.reported + response.length
  rw [hwritten, hflushed]
  rcases hapart with hall | hall | ⟨hfatal, hless⟩
  · exact Or.inl (congrArg (· + response.length) hall)
  · exact Or.inr (Or.inl hall)
  · exact Or.inr (Or.inr ⟨disconnected_of_sendFatal hv hfatal, hless⟩)

/-- The slot of `readyRead`. -/
theorem Safe.onSocketReadyRead (h : c.Safe) {server : HttpServer} {fs : FileSystem}
    {sends : List SendResult}
    (hsignal : c.socket.connection.signals[c.emitted]? = some .readyRead)
    (hapart : c.WritesApart (.emitPosted server fs sends))
    (hs : c.emitNext.onSocketReadyRead server fs sends = some c') : c'.Safe := by
  have hemit := h.sound.emit hsignal
  have hreported : c.emitNext.reported = c.reported := reported_emitted hsignal
  -- the socket has been read, and all else is as it was
  have hsound : Sound { c.emitNext with socket := c.socket.readAll } :=
    ⟨⟨⟨hemit.stream.stream.sent, hemit.stream.stream.queued, hemit.stream.stream.unconsumed,
      hemit.stream.stream.notified⟩, hemit.stream.attentive⟩, hemit.accepted,
      fun hne => absurd rfl hne, hemit.emitted⟩
  have hawaits {state : HttpServer.SocketState} (hstate : c.state = some state)
      (hpending : state.pendingClose = true) : ∃ before, c.emitNext.reported =
        before + state.totalSent ∧ (before + state.totalToSend = c.written ∨
          c.flushed = c.written ∨
          c.socket.state = .disconnected ∧ c.flushed < before + state.totalToSend) := by
    rw [hreported]
    exact h.awaits state hstate hpending
  have hread : Safe { c.emitNext with socket := c.socket.readAll } :=
    ⟨hsound, fun _ hstate => hawaits hstate, h.closings⟩
  rw [HttpConnection.onSocketReadyRead] at hs
  dsimp only at hs
  split at hs
  · obtain ⟨-, rfl⟩ := finish_eq_some.mp hs
    exact hread
  · rename_i hdata
    split at hs
    · obtain ⟨-, rfl⟩ := finish_eq_some.mp hs
      exact hread
    · rename_i state hstate
      split at hs
      · obtain ⟨-, rfl⟩ := finish_eq_some.mp hs
        refine ⟨⟨hsound.stream, hsound.accepted, hsound.buffered, hsound.emitted⟩, ?_, h.closings⟩
        intro state' hstate' hpending
        obtain rfl := Option.some.inj hstate'
        have hbefore := hawaits hstate hpending
        exact hbefore
      · rename_i response hresponse
        have hnext : c.nextResponse server fs = some response := by
          rw [nextResponse, if_pos ⟨hsignal, hdata⟩, show c.state = some state from hstate]
          exact hresponse
        refine Safe.send hsound h.closings (h.sound.buffered hdata) (answer_ne_nil hresponse) ?_ hs
        have hcondition := hapart server fs sends response rfl hnext
        rw [← hreported] at hcondition
        exact hcondition

/-- The step lemma. -/
theorem Safe.step (h : c.Safe) (hapart : c.WritesApart l) (hst : Step c l c') : c'.Safe := by
  rw [Step] at hst
  cases l with
  | handleEvents nativeEvents answers =>
      obtain ⟨s, hs, rfl⟩ := Option.map_eq_some_iff.mp hst
      exact h.handleEvents hs
  | emitPosted server fs sends =>
      rw [call] at hst
      split at hst
      · cases hst
      · rename_i signal hsignal
        have hsound := h.sound.emit hsignal
        cases signal with
        | readyRead => exact h.onSocketReadyRead hsignal hapart hst
        | bytesWritten n =>
            obtain ⟨-, rfl⟩ := finish_eq_some.mp hst
            exact h.onBytesWritten hsignal
        | disconnected =>
            obtain ⟨-, rfl⟩ := finish_eq_some.mp hst
            exact .closeSocket hsound h.closings
        | errorOccurred message =>
            obtain ⟨-, rfl⟩ := finish_eq_some.mp hst
            exact .closeSocket hsound h.closings
        | connected =>
            obtain ⟨-, rfl⟩ := finish_eq_some.mp hst
            have hreported : c.emitNext.reported = c.reported := reported_emitted hsignal
            refine ⟨hsound, ?_, h.closings⟩
            intro state hstate hpending
            rw [hreported]
            exact h.awaits state hstate hpending

/-- The server gets a socket that has written nothing. -/
theorem Opened.safe (h : c.Opened) : c.Safe := by
  obtain ⟨fd, blocking, error, ls, hrun⟩ := h.socket
  have hadopted : (TcpSocket.adopt fd blocking error).Buffered ∧
      (TcpSocket.adopt fd blocking error).connection.accepted = [] := by
    cases error with
    | none =>
        rw [TcpSocket.adopt]
        split
        · exact ⟨fun hne => absurd rfl hne, rfl⟩
        · exact ⟨fun hne => absurd rfl hne, rfl⟩
    | some errno =>
        rw [TcpSocket.adopt]
        split
        · exact ⟨fun hne => absurd rfl hne, rfl⟩
        · exact ⟨fun hne => absurd rfl hne, rfl⟩
  have hsocket : c.socket.WritesInOrder ∧ c.socket.Buffered ∧
      c.socket.connection.accepted = [] := by
    refine hrun.invariant (I := fun s => s.WritesInOrder ∧ s.Buffered ∧
      s.connection.accepted = []) ?_ ⟨.constructed (.adopt fd blocking error), hadopted⟩
    rintro s l s' ⟨hstream, hbuffered, haccepted⟩ ⟨nativeEvents, answers, rfl⟩ hst
    exact ⟨hstream.step hst, hbuffered.handleEvents hst,
      (Continues.handleEvents hst).accepted.trans haccepted⟩
  obtain ⟨hstream, hbuffered, haccepted⟩ := hsocket
  refine ⟨⟨hstream, by rw [haccepted, h.responses]; rfl, hbuffered, h.emitted⟩, ?_, ?_⟩
  · intro state hstate hpending
    obtain rfl := Option.some.inj (h.state.symm.trans hstate)
    cases hpending
  · rw [h.closings]
    exact fun k hk => absurd hk List.not_mem_nil

/-- **When a connection is closed.** In a run of a connection that writes each response when all
bytes of the earlier ones have been reported, or lets the kernel take everything at once, the server
closes the connection because of `pendingClose` only when the kernel has taken all responses. -/
theorem closes_flushed {c₀ c : HttpConnection} {ls : List HttpConnectionStep} (h₀ : c₀.Opened)
    (hrun : Run Step WritesApart c₀ ls c) : ∀ k ∈ c.closings, k.flushed = k.written := by
  have h : c.Safe := by
    refine hrun.invariant (I := Safe) ?_ h₀.safe
    exact fun _ _ _ h hapart hst => h.step hapart hst
  exact h.closings

/-- A signal that is not `readyRead` writes nothing. -/
theorem writesApart_of_ne {signal : SocketSignal}
    (hsignal : c.socket.connection.signals[c.emitted]? = some signal)
    (hne : signal ≠ .readyRead) : c.WritesApart l := by
  intro server fs sends response _ hnext
  have hother : ¬ (c.socket.connection.signals[c.emitted]? = some .readyRead ∧
      c.socket.readBuffer ≠ []) :=
    fun h => hne (Option.some.inj (hsignal.symm.trans h.1))
  rw [nextResponse, if_neg hother] at hnext
  cases hnext

/-- A file system without files. -/
def noFiles : FileSystem where
  tree := { entry := fun _ => none }
  currentPath := []
  maxLinks := 40
  isName _ _ h _ := absurd rfl h
  isDirectory := FileTree.isDirectory_nil

/-- A connection that is accepted. -/
def fresh : HttpConnection := { socket := TcpSocket.adopt 5 false none }

/-- A new connection is open. -/
theorem opened_fresh : fresh.Opened where
  socket := ⟨5, false, none, [], .nil _⟩
  emitted := Nat.le_refl 0
  state := rfl
  responses := rfl
  closings := rfl

/-- The response to an empty line. -/
def errorResponse : Bytes :=
  (HttpResponse.badRequest (bytes "Invalid request line format")).serialize

/-- The kernel takes so many bytes. -/
def takes (n : ℕ) : SendResult := { written := n }

/-- The send buffer is full. -/
def full : SendResult := { written := -1, errno := eagain }

/-- The peer sends two lines that are empty. The kernel takes ten bytes of the first response, and
all that is left when the second one is written. -/
def flushes : List HttpConnectionStep :=
  [.handleEvents epollIn { recvs := [.received [13, 10], .failed eagain] },
    .emitPosted {} noFiles [takes 10, full],
    .handleEvents epollIn { recvs := [.received [13, 10], .failed eagain] },
    .emitPosted {} noFiles [],
    .emitPosted {} noFiles [takes (errorResponse.length - 10), takes errorResponse.length],
    .emitPosted {} noFiles [], .emitPosted {} noFiles []]

/-- Two responses, the first one flushed in two parts. -/
theorem responses_flushed : ∃ c, Run Step WritesApart fresh flushes c ∧
    c.closings = [⟨2 * errorResponse.length, 2 * errorResponse.length⟩] ∧
    ∀ k ∈ c.closings, k.flushed = k.written := by
  have hevent : ∀ {c : HttpConnection} {nativeEvents : EventMask} {answers : EventAnswers},
      c.WritesApart (.handleEvents nativeEvents answers) := by
    intro c nativeEvents answers server fs sends response heq
    cases heq
  have hrun : Run Step WritesApart fresh flushes _ :=
    .cons hevent rfl <|
    .cons (fun _ _ _ _ _ _ => Or.inl rfl) rfl <|
    .cons hevent rfl <|
    .cons (writesApart_of_ne rfl SocketSignal.noConfusion) rfl <|
    .cons (fun server fs sends response heq hnext => by
      cases heq
      obtain rfl : errorResponse = response := Option.some.inj hnext
      -- all that is queued is taken
      exact Or.inr (Or.inl (by decide +kernel))) rfl <|
    .cons (writesApart_of_ne rfl SocketSignal.noConfusion) rfl <|
    .cons (writesApart_of_ne rfl SocketSignal.noConfusion) rfl <| .nil _
  exact ⟨_, hrun, by decide +kernel, closes_flushed opened_fresh hrun⟩

/-- **A response is written before the one in front of it is reported.** The kernel takes nothing of
the first response, then all of it when the next bytes have arrived, and nothing of the second one.
The notification of the first response ends the connection, and the second one is cut off. -/
theorem response_cut_off : ∃ ls c, Reaches Step fresh ls c ∧
    c.closings = [⟨errorResponse.length, 2 * errorResponse.length⟩] ∧
    errorResponse.length ≠ 2 * errorResponse.length := by
  have hrun : Reaches Step fresh
      [.handleEvents epollIn { recvs := [.received [13, 10], .failed eagain] },
        .emitPosted {} noFiles [full],
        .handleEvents (epollIn ||| epollOut)
          { recvs := [.received [13, 10], .failed eagain], sends := [takes errorResponse.length] },
        .emitPosted {} noFiles [full], .emitPosted {} noFiles []] _ :=
    .cons trivial rfl <| .cons trivial rfl <| .cons trivial rfl <| .cons trivial rfl <|
      .cons trivial rfl <| .nil _
  exact ⟨_, _, hrun, by decide +kernel, by decide +kernel⟩

end HttpConnection

end SimplyNode
