import SimplyNode.HttpServer
import SimplyNode.HttpRequestParser
import SimplyNode.TcpWrites

/-!
# Responses and the End of a Connection

The server gives each connection a parser and two counters: how many bytes the response has, and
how many of them notifications have reported. Every response sets the counters anew, and every
notification counts for the response that was written last, also one for bytes of an earlier
response. When the reported bytes reach the size of the response, the server closes the connection.

The slots of the signals run as tasks of the owner, in the order in which the socket has posted
them. A call of the kernel may come between any two of them.

## Main results

* `HttpConnection.Step`: the events of the socket, and the slots of the server.
* `Continues.handleEvents`: an event of the socket posts signals, and writes nothing.
* `length_sent_handleWritable`: what the kernel takes in a flush.
-/

open Transition

namespace SimplyNode

open Text StreamSocket

/-- `HttpServer::SocketState`. -/
structure HttpServer.SocketState where
  parser : HttpRequestParser := {}
  pendingClose : Bool := false
  totalToSend : ℕ := 0
  totalSent : ℕ := 0

/-- The server closes a connection because of `pendingClose`: what the kernel has taken, and the
size of all responses. -/
structure Closing where
  flushed : ℕ
  written : ℕ
  deriving DecidableEq

/-- A connection of the server: its socket, and its entry in `_socketStates`. -/
structure HttpConnection where
  socket : StreamSocket
  /-- How many of the signals that were posted have been emitted. -/
  emitted : ℕ := 0
  state : Option HttpServer.SocketState := some {}
  responses : List Bytes := []
  closings : List Closing := []

/-- An event of the socket, or a task that emits the next signal, with the routes and files of that
time and what the kernel answers to a write. -/
inductive HttpConnectionStep
  | handleEvents (nativeEvents : EventMask) (answers : EventAnswers)
  | emitPosted (server : HttpServer) (fs : FileSystem) (sends : List SendResult)

namespace HttpConnection

variable (c : HttpConnection)

/-- The size of all responses. -/
def written : ℕ := c.responses.flatten.length

/-- How many bytes the kernel has taken. -/
def flushed : ℕ := c.socket.connection.sent.length

/-- How many bytes the slot of `bytesWritten` has been told of. -/
def reported : ℕ := (StreamSocket.written (c.socket.connection.signals.take c.emitted)).sum

/-- `HttpServer::_closeSocket`. The socket lives until the owner deletes it. -/
def closeSocket : HttpConnection :=
  { c with socket := c.socket.close .tcpSocket, state := none }

/-- The slot of `bytesWritten`. -/
def onBytesWritten (n : ℕ) : HttpConnection :=
  match c.state with
  | none => c
  | some state =>
      let state := { state with totalSent := state.totalSent + n }
      if state.pendingClose ∧ state.totalToSend ≤ state.totalSent then
        { c.closeSocket with closings := c.closings ++ [⟨c.flushed, c.written⟩] }
      else { c with state := some state }

/-- What `_onSocketReadyRead` answers when the parser has been fed, and the parser it leaves. -/
def answer (server : HttpServer) (fs : FileSystem) (parser : HttpRequestParser) :
    HttpRequestParser × Option Bytes :=
  if parser.isComplete then
    let (request, parser) := parser.parse
    (parser, some (server.respond fs request).serialize)
  else if parser.hasError then
    (parser, some (HttpResponse.badRequest (bytes parser.error)).serialize)
  else (parser, none)

/-- The counters are set, and the response is written. -/
def send (state : HttpServer.SocketState) (serialized : Bytes) (sends : List SendResult) :
    Option HttpConnection :=
  let state :=
    { state with pendingClose := true, totalToSend := serialized.length, totalSent := 0 }
  (write .tcpSocket c.socket (.ofBytes serialized) sends).map fun p =>
    { c with socket := p.1, state := some state, responses := c.responses ++ [serialized] }

/-- `HttpServer::_onSocketReadyRead`. -/
def onSocketReadyRead (server : HttpServer) (fs : FileSystem) (sends : List SendResult) :
    Option HttpConnection :=
  let data := c.socket.readBuffer
  let next := { c with socket := c.socket.readAll }
  if data = [] then finish sends next
  else
    match c.state with
    | none => finish sends next
    | some state =>
        let (parser, response) := answer server fs (state.parser.feed data)
        let state := { state with parser := parser }
        match response with
        | none => finish sends { next with state := some state }
        | some serialized => next.send state serialized sends

/-- The slots that `_onNewConnection` connects. `_onSocketError` closes the connection like the slot
of `disconnected`. -/
def runSlot (server : HttpServer) (fs : FileSystem) (sends : List SendResult) :
    SocketSignal → Option HttpConnection
  | .readyRead => c.onSocketReadyRead server fs sends
  | .disconnected => finish sends c.closeSocket
  | .errorOccurred _ => finish sends c.closeSocket
  | .bytesWritten n => finish sends (c.onBytesWritten n)
  | .connected => finish sends c

/-- The next signal is emitted. -/
def emitNext : HttpConnection := { c with emitted := c.emitted + 1 }

/-- One event, or the task of one signal. -/
def call : HttpConnectionStep → Option HttpConnection
  | .handleEvents nativeEvents answers =>
      (c.socket.handleEvents .tcpSocket nativeEvents answers).map fun s => { c with socket := s }
  | .emitPosted server fs sends =>
      match c.socket.connection.signals[c.emitted]? with
      | none => none
      | some signal => c.emitNext.runSlot server fs sends signal

/-- The kernel can have answered so. -/
def Step (c : HttpConnection) (l : HttpConnectionStep) (c' : HttpConnection) : Prop :=
  c.call l = some c'

/-- `_onNewConnection`: the server gets a socket that has been adopted, and perhaps has had events
since. -/
structure Opened : Prop where
  socket : ∃ fd blocking error ls,
    Run TcpSocket.Step (fun _ l => ∃ nativeEvents answers, l = .handleEvents nativeEvents answers)
      (TcpSocket.adopt fd blocking error) ls c.socket
  emitted : c.emitted ≤ c.socket.connection.signals.length
  state : c.state = some {}
  responses : c.responses = []
  closings : c.closings = []

/-! ### The condition -/

/-- What the kernel takes in the calls of a flush. -/
def taken (sends : List SendResult) : ℕ := (sends.map fun r => r.written.toNat).sum

/-- The response that the task of the next signal writes. -/
def nextResponse (server : HttpServer) (fs : FileSystem) : Option Bytes :=
  if c.socket.connection.signals[c.emitted]? = some .readyRead ∧ c.socket.readBuffer ≠ [] then
    c.state.bind fun state => (answer server fs (state.parser.feed c.socket.readBuffer)).2
  else none

/-- The condition on a step: when it writes a response, all bytes of the earlier ones have been
reported; or the kernel takes all that is queued; or it fails the connection before it has taken as
much as the counters wait for. -/
def WritesApart (l : HttpConnectionStep) : Prop :=
  ∀ server fs sends response, l = .emitPosted server fs sends →
    c.nextResponse server fs = some response →
    c.reported = c.written ∨ c.flushed + taken sends = c.written + response.length ∨
      (∃ r ∈ sends, SendFatal r) ∧ c.flushed + taken sends < c.reported + response.length

end HttpConnection

/-! ### What an event does to a stream -/

namespace StreamSocket

variable {s s' s'' : StreamSocket}

/-- Signals are posted, and nothing is written. -/
structure Continues (s s' : StreamSocket) : Prop where
  signals : s.connection.signals <+: s'.connection.signals
  accepted : s'.connection.accepted = s.connection.accepted

/-- Only a connected socket has bytes to be read. -/
def Buffered (s : StreamSocket) : Prop := s.readBuffer ≠ [] → s.state = .connected

/-- A socket goes on from itself. -/
theorem Continues.refl (s : StreamSocket) : Continues s s := ⟨List.prefix_rfl, rfl⟩

/-- It goes on step by step. -/
theorem Continues.trans (h : Continues s s') (h' : Continues s' s'') : Continues s s'' :=
  ⟨h.signals.trans h'.signals, h'.accepted.trans h.accepted⟩

/-- Emitting a signal writes nothing. -/
theorem continues_emit (signal : SocketSignal) : Continues s (emit .tcpSocket s signal) :=
  ⟨List.prefix_append _ _, rfl⟩

/-- Disconnecting writes nothing. -/
theorem continues_applyDisconnectedState :
    Continues s (applyDisconnectedState .tcpSocket s true) := by
  obtain ⟨signals, heq, -⟩ := applyDisconnectedState_eq .tcpSocket s true
  rw [heq]
  exact ⟨List.prefix_append _ _, rfl⟩

/-- A socket that is disconnected holds no bytes. -/
theorem buffered_applyDisconnectedState :
    (applyDisconnectedState .tcpSocket s true).Buffered := by
  obtain ⟨signals, heq, -⟩ := applyDisconnectedState_eq .tcpSocket s true
  rw [heq]
  exact fun h => absurd rfl h

/-- A failure writes nothing. -/
theorem continues_failed {text : String} {errno : Errno} :
    Continues s
      (applyDisconnectedState .tcpSocket (failWithErrno .tcpSocket s text errno) true) := by
  have hfailed : Continues s (failWithErrno .tcpSocket s text errno) :=
    ⟨List.prefix_append _ _, rfl⟩
  exact hfailed.trans continues_applyDisconnectedState

/-- A flush of the queue adds nothing to it. -/
theorem Continues.handleWritable {sends : List SendResult}
    (hs : handleWritable .tcpSocket s sends = some s') : Continues s s' := by
  refine handleWritable_rule (I := Continues s) ?_ ?_ ?_ ?_ (.refl s) hs
  · exact fun v hv => ⟨hv.signals, hv.accepted⟩
  · intro v front rest n hv _ _ _
    exact ⟨hv.signals.trans (List.prefix_append _ _), hv.accepted⟩
  · exact fun _ v hv => ⟨hv.signals, hv.accepted⟩
  · intro v r _ _ hv
    have hfailed : Continues s (sendFailed .tcpSocket v r.errno) := hv.trans continues_failed
    exact ⟨hfailed.signals, hfailed.accepted⟩

/-- Behind a write only a connected socket holds bytes. -/
theorem Buffered.handleWritable (h : s.Buffered) {sends : List SendResult}
    (hs : handleWritable .tcpSocket s sends = some s') : s'.Buffered := by
  refine handleWritable_rule (I := Buffered) ?_ ?_ ?_ ?_ h hs
  · exact fun _ hv => hv
  · exact fun _ _ _ _ hv _ _ _ => hv
  · exact fun _ _ hv => hv
  · intro v r _ _ _
    exact buffered_applyDisconnectedState
      (s := failWithErrno .tcpSocket v "send() failed" r.errno)

/-- Reading writes nothing. -/
theorem Continues.handleReadable {recvs : List RecvResult}
    (hs : handleReadable .tcpSocket s recvs = some s') : Continues s s' := by
  refine handleReadable_rule (I := Continues s) ?_ ?_ ?_ ?_ (.refl s) hs
  · exact fun v bytes hv => ⟨hv.signals, hv.accepted⟩
  · exact fun _ v hv => hv.trans continues_applyDisconnectedState
  · exact fun _ v hv => ⟨hv, hv.trans (continues_emit _)⟩
  · exact fun v r _ _ hv errno => hv.trans continues_failed

/-- Behind a read only a connected socket holds bytes. -/
theorem buffered_handleReadable (h : s.state = .connected) {recvs : List RecvResult}
    (hs : handleReadable .tcpSocket s recvs = some s') : s'.Buffered := by
  refine handleReadable_rule (I := fun v => v.state = .connected) ?_ ?_ ?_ ?_ h hs
  · exact fun _ _ hv => hv
  · exact fun _ v _ => buffered_applyDisconnectedState
  · exact fun _ v hv => ⟨fun _ => hv, fun _ => hv⟩
  · exact fun v r _ _ _ errno => buffered_applyDisconnectedState

/-- Connecting adds nothing to the queue. -/
theorem Continues.applyConnectedState {sends : List SendResult}
    (hs : applyConnectedState .tcpSocket s sends = some s') : Continues s s' := by
  have hconnected : Continues s (emit .tcpSocket (updateInterestForState .tcpSocket
      { s with state := .connected, connection.established := true }).start .connected) :=
    ⟨List.prefix_append _ _, rfl⟩
  exact hconnected.trans (.handleWritable hs)

/-- A socket that has just been connected may hold bytes. -/
theorem buffered_applyConnectedState {sends : List SendResult}
    (hs : applyConnectedState .tcpSocket s sends = some s') : s'.Buffered :=
  Buffered.handleWritable (fun _ => rfl) hs

/-- An event of the socket posts signals, and writes nothing. -/
theorem Continues.handleEvents {nativeEvents : EventMask} {answers : EventAnswers}
    (hs : s.handleEvents .tcpSocket nativeEvents answers = some s') : Continues s s' := by
  have hcomplete {p : StreamSocket × Bool}
      (hp : completeConnect .tcpSocket s nativeEvents answers = some p) : Continues s p.1 := by
    rcases completeConnect_cases hp with ⟨-, -, text, errno, rfl⟩ | ⟨-, -, hp, -⟩ | ⟨-, rfl⟩
    · exact continues_failed
    · exact .applyConnectedState hp
    · exact .refl s
  rcases handleEvents_cases hs with ⟨-, hs, -, -⟩ | ⟨hp, -, -⟩ | ⟨v, w, -, hp, hinput, houtput⟩
  · rcases handleHangUp_cases hs with ⟨-, -, hs⟩ | ⟨-, rfl⟩
    · exact .applyConnectedState hs
    · exact continues_applyDisconnectedState
  · exact hcomplete hp
  · have hw : Continues s w := by
      rcases handleInput_cases hinput with ⟨-, hinput⟩ | ⟨-, rfl⟩
      · exact (hcomplete hp).trans (.handleReadable hinput)
      · exact hcomplete hp
    rcases handleOutput_cases houtput with ⟨-, houtput⟩ | ⟨-, rfl⟩
    · exact hw.trans (.handleWritable houtput)
    · exact hw

/-- Behind any events only a connected socket holds bytes. -/
theorem Buffered.handleEvents (h : s.Buffered) {nativeEvents : EventMask} {answers : EventAnswers}
    (hs : s.handleEvents .tcpSocket nativeEvents answers = some s') : s'.Buffered := by
  have hcomplete {p : StreamSocket × Bool}
      (hp : completeConnect .tcpSocket s nativeEvents answers = some p) : p.1.Buffered := by
    rcases completeConnect_cases hp with ⟨-, -, text, errno, rfl⟩ | ⟨-, -, hp, -⟩ | ⟨-, rfl⟩
    · exact buffered_applyDisconnectedState
    · exact buffered_applyConnectedState hp
    · exact h
  rcases handleEvents_cases hs with ⟨-, hs, -, -⟩ | ⟨hp, -, -⟩ | ⟨v, w, -, hp, hinput, houtput⟩
  · rcases handleHangUp_cases hs with ⟨-, -, hs⟩ | ⟨-, rfl⟩
    · exact buffered_applyConnectedState hs
    · exact buffered_applyDisconnectedState
  · exact hcomplete hp
  · have hw : w.Buffered := by
      rcases handleInput_cases hinput with ⟨hstate, hinput⟩ | ⟨-, rfl⟩
      · exact buffered_handleReadable hstate hinput
      · exact hcomplete hp
    rcases handleOutput_cases houtput with ⟨-, houtput⟩ | ⟨-, rfl⟩
    · exact hw.handleWritable houtput
    · exact hw

/-- A socket that is disconnected stays so, and sends nothing. -/
theorem handleEvents_disconnected (h : s.state = .disconnected) {nativeEvents : EventMask}
    {answers : EventAnswers} (hs : s.handleEvents .tcpSocket nativeEvents answers = some s') :
    s'.state = .disconnected ∧ s'.connection.sent = s.connection.sent := by
  have hclosed : (applyDisconnectedState .tcpSocket s true).connection.sent =
      s.connection.sent := by
    obtain ⟨signals, heq, -⟩ := applyDisconnectedState_eq .tcpSocket s true
    rw [heq]
  have hconnecting : s.state ≠ .connecting := by simp [h]
  have hcomplete {p : StreamSocket × Bool}
      (hp : completeConnect .tcpSocket s nativeEvents answers = some p) : p = (s, true) := by
    rcases completeConnect_cases hp with ⟨hstate, -⟩ | ⟨hstate, -⟩ | ⟨-, heq⟩
    · exact absurd hstate hconnecting
    · exact absurd hstate hconnecting
    · exact heq
  rcases handleEvents_cases hs with ⟨-, hs, -, -⟩ | ⟨hp, -, -⟩ | ⟨v, w, -, hp, hinput, houtput⟩
  · rcases handleHangUp_cases hs with ⟨hstate, -⟩ | ⟨-, rfl⟩
    · exact absurd hstate hconnecting
    · exact ⟨state_applyDisconnectedState _ _ _, hclosed⟩
  · cases hcomplete hp
  · obtain ⟨rfl, -⟩ := Prod.mk.inj (hcomplete hp)
    rcases handleInput_cases hinput with ⟨hstate, -⟩ | ⟨-, rfl⟩
    · exact absurd (h.symm.trans hstate) (by simp)
    · rcases handleOutput_cases houtput with ⟨hstate, -⟩ | ⟨-, rfl⟩
      · exact absurd (h.symm.trans hstate) (by simp)
      · exact ⟨h, rfl⟩

/-! ### What a flush takes -/

/-- What a flush has sent is what the kernel has taken. -/
theorem length_sent_flushLoop {sends : List SendResult}
    (hs : flushLoop .tcpSocket sends s = some s') :
    s'.connection.sent.length = s.connection.sent.length + HttpConnection.taken sends := by
  induction sends generalizing s with
  | nil =>
      rw [flushLoop] at hs
      split at hs
      · obtain rfl := Option.some.inj hs
        rfl
      · cases hs
  | cons r sends ih =>
      have htaken : HttpConnection.taken (r :: sends) =
          r.written.toNat + HttpConnection.taken sends := List.sum_cons
      rw [flushLoop] at hs
      split at hs
      · cases hs
      · rename_i front rest hqueue
        split at hs
        · split at hs
          · rename_i hle
            have hlength : (front.remainingView.take r.written.toNat).length = r.written.toNat :=
              List.length_take_of_le (Int.toNat_le.mpr hle)
            have hnext := ih hs
            change _ = (s.connection.sent ++ front.remainingView.take r.written.toNat).length + _
              at hnext
            rw [hnext, List.length_append, hlength, htaken, Nat.add_assoc]
          · cases hs
        · rename_i hneg
          have hzero : r.written.toNat = 0 := Int.toNat_eq_zero.mpr (Int.not_lt.mp hneg)
          rw [htaken, hzero, Nat.zero_add]
          split at hs
          · obtain ⟨rfl, rfl⟩ := finish_eq_some.mp hs
            rfl
          · split at hs
            · have hnext := ih hs
              exact hnext
            · obtain ⟨rfl, rfl⟩ := finish_eq_some.mp hs
              obtain ⟨signals, heq, -⟩ := applyDisconnectedState_eq .tcpSocket
                (failWithErrno .tcpSocket s.popConsumed "send() failed" r.errno) true
              rw [sendFailed, heq]
              rfl

/-- **What the kernel takes in a flush.** -/
theorem length_sent_handleWritable {sends : List SendResult}
    (hs : handleWritable .tcpSocket s sends = some s') :
    s'.connection.sent.length = s.connection.sent.length + HttpConnection.taken sends := by
  obtain ⟨v, hv, rfl⟩ := Option.map_eq_some_iff.mp hs
  change v.connection.sent.length = _
  rw [flushPendingWrites] at hv
  split at hv
  · obtain ⟨rfl, rfl⟩ := finish_eq_some.mp hv
    rfl
  · exact length_sent_flushLoop hv

/-- A flush in which `send` fails for good disconnects the socket. -/
theorem disconnected_of_sendFatal {sends : List SendResult}
    (hs : handleWritable .tcpSocket s sends = some s') (hfatal : ∃ r ∈ sends, SendFatal r) :
    s'.state = .disconnected := by
  refine handleWritable_rule (I := fun _ => True) (J := fun v => v.state = .disconnected)
    (fun _ _ => trivial) (fun _ _ _ _ _ _ _ _ => trivial) ?_ ?_ trivial hs
  · intro hnone
    obtain ⟨r, hr, hfatal⟩ := hfatal
    exact absurd hfatal (hnone r hr)
  · intro v r _ _ _
    exact state_applyDisconnectedState .tcpSocket _ true

/-- A connected socket accepts what is written, and flushes it. -/
theorem write_connected (h : s.state = .connected) {data : ByteArray}
    (hdata : data.remainingView ≠ []) {sends : List SendResult} :
    write .tcpSocket s data sends =
      (handleWritable .tcpSocket (s.accept data) sends).map fun v => (v, data.remainingSize) := by
  have hsize : data.remainingSize ≠ 0 := fun h => hdata (List.length_eq_zero_iff.mp h)
  rw [write, if_neg hsize, if_neg (by simp [h])]

end StreamSocket

end SimplyNode
