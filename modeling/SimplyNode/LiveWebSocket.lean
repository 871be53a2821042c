import SimplyNode.StreamSocket
import SimplyNode.WebSocketConnection
import SimplyNode.WebSocketHandshake

/-!
# A WebSocket in its Event Loop

`WebSocketImplNative` from a connect request to the next one, with its `TcpSocket` and with slots
that call back. The signals of the socket are posted: they come later, one at a time, when no
handler is running. The signals of the `WebSocket` are emitted on the spot, and while the slots run
the handler that has emitted waits. It may be in the loop over the frames of a read, it may have the
bytes behind the handshake still to process, and any number of calls of `fail` may be about to close
the socket.

## Main results

* `LiveWebSocket.processFrame_cases`: what a frame does.
* `LiveWebSocket.closes_of_reaches`: at most one Close frame is written.
-/

open Transition

namespace SimplyNode

open Text WebSocketHandshake

/-- The signals of the `TcpSocket` that are posted, as far as the `WebSocket` is connected to
them. -/
inductive TcpNotification
  | connected
  | readyRead
  | disconnected
  | errorOccurred (message : String)
  deriving DecidableEq

/-- The handler that waits below the calls of `fail`. -/
inductive Waiting
  /-- The loop of `processFrameBytes`, behind a frame. -/
  | draining
  /-- `processHandshakeBytes`, behind `connected`. -/
  | resuming (remaining : Bytes)
  deriving DecidableEq

/-- A `WebSocketImplNative` with its `TcpSocket`, the signals it has emitted and the frames it has
written. Without a socket it is as with one that is disconnected. -/
structure LiveWebSocket where
  clientMode : Bool
  state : WebSocketState
  handshakeComplete : Bool
  closeFrameSent : Bool := false
  handshakeBuffer : Bytes := []
  clientKey : Bytes := []
  fragmentOpcode : OpCode := .continuation
  fragmentPayload : Bytes := []
  frameParser : WebSocketFrameParser := {}
  tcpState : SocketState
  readBuffer : Bytes := []
  posted : List TcpNotification := []
  waiting : Option Waiting := none
  /-- How many calls of `fail` wait for the slots of `errorOccurred`. -/
  failing : ℕ := 0
  emitted : List WebSocketSignal := []
  written : List WebSocketFrame := []
  /-- What had been emitted when the first Close frame was processed. -/
  atClose : Option (List WebSocketSignal) := none
  /-- What had been emitted when `fail` was called first, and the signal of it. -/
  atFailure : Option (List WebSocketSignal) := none
  deriving DecidableEq

namespace LiveWebSocket

/-- A connect request has been made, and the socket is connecting. -/
def connectRequested (clientKey : Bytes) : LiveWebSocket :=
  { clientMode := true, state := .connecting, handshakeComplete := false, clientKey := clientKey,
    tcpState := .connecting }

/-- `beginServerConnection`. -/
def beginServerConnection : LiveWebSocket :=
  { clientMode := false, state := .opened, handshakeComplete := true, tcpState := .connected }

variable (ws : LiveWebSocket)

/-- `WebSocketImplNative::isValid`. -/
def isValid : Bool := ws.state ≠ .error

/-- What has been handed to the application. -/
def delivered : List WebSocketSignal := ws.emitted.filter WebSocketSignal.isNotification

/-- A signal of the owner. -/
def emit (signal : WebSocketSignal) : LiveWebSocket := { ws with emitted := ws.emitted ++ [signal] }

/-! ### The socket -/

/-- The socket is connected, or on its way. -/
def socketActive : Bool := ws.tcpState = .connected || ws.tcpState = .connecting

/-- `TcpSocket::close`, or the end of the connection. -/
def socketClose : LiveWebSocket :=
  { ws with
    tcpState := .disconnected
    readBuffer := []
    posted := if ws.socketActive then ws.posted ++ [.disconnected] else ws.posted }

/-- `failWithErrno` of the socket, which is disconnected then. -/
def socketFails (message : String) : LiveWebSocket :=
  { ws with
    tcpState := .disconnected
    readBuffer := []
    posted := ws.posted ++ [.errorOccurred message] }

/-! ### The calls -/

/-- `WebSocketImplNative::fail`, up to the slots of `errorOccurred`. -/
def fail (errorMessage : String) : LiveWebSocket :=
  { ws with
    state := .error
    emitted := ws.emitted ++ [.errorOccurred errorMessage]
    failing := ws.failing + 1
    atFailure := ws.atFailure <|> some (ws.emitted ++ [.errorOccurred errorMessage]) }

/-- `WebSocketImplNative::sendFrame`. A socket that is not active takes nothing. -/
def sendFrame (opcode : OpCode) (payload : Bytes) (requireOpen : Bool) : LiveWebSocket :=
  if requireOpen ∧ ws.state ≠ .opened then ws
  else if ws.socketActive then
    { ws with
      written := ws.written ++ [{ opcode := opcode, masked := ws.clientMode, payload := payload }] }
  else ws

/-- `WebSocketImplNative::ping`. -/
def ping (payload : Bytes) : LiveWebSocket :=
  if 125 < payload.length then ws.fail "WebSocket ping payload is too large"
  else ws.sendFrame .ping payload true

/-- `WebSocketImplNative::close`. -/
def close : LiveWebSocket :=
  if ws.state = .opened ∧ ws.closeFrameSent = false then
    { ws.sendFrame .close [] false with closeFrameSent := true, state := .closing }
  else ws.socketClose

/-- `WebSocketImplNative::connectToHost`, when no handler waits. A wildcard address is refused, and
the socket before stays. Otherwise a new one takes its place, and what the one before has posted
comes to nothing. The records begin anew. -/
def connectToHost (wildcard : Option String) (clientKey : Bytes) : LiveWebSocket :=
  match wildcard with
  | some address =>
      { ws.close with atClose := none, atFailure := none }.fail
        ("WebSocket client cannot connect to wildcard address '" ++ address ++
          "'. Use a concrete peer address such as 127.0.0.1.")
  | none => connectRequested clientKey

/-! ### The frames -/

/-- `WebSocketImplNative::processFrame`. -/
def processFrame (frame : WebSocketFrame) : LiveWebSocket :=
  if ws.clientMode = false ∧ frame.masked = false then
    ws.fail "WebSocket client frames must be masked"
  else if ws.clientMode ∧ frame.masked then
    ws.fail "WebSocket server frames must not be masked"
  else
    match frame.opcode with
    | .text | .binary =>
        if frame.fin then ws.emit (WebSocketSession.message frame.opcode frame.payload)
        else { ws with fragmentOpcode := frame.opcode, fragmentPayload := frame.payload }
    | .continuation =>
        if ws.fragmentOpcode = .continuation then ws.fail "Unexpected WebSocket continuation frame"
        else if frame.fin then
          { ws.emit (WebSocketSession.message ws.fragmentOpcode
              (ws.fragmentPayload ++ frame.payload)) with
            fragmentOpcode := .continuation, fragmentPayload := [] }
        else { ws with fragmentPayload := ws.fragmentPayload ++ frame.payload }
    | .ping => ws.sendFrame .pong frame.payload true
    | .pong => ws.emit (.pongReceived frame.payload)
    | .close =>
        let answered :=
          if ws.closeFrameSent then ws
          else { ws.sendFrame .close frame.payload false with closeFrameSent := true }
        { answered with
          state := .closing
          atClose := ws.atClose <|> some ws.delivered }.socketClose

/-- The loop of `processFrameBytes` processes the next frame. -/
def nextFrame : LiveWebSocket :=
  match ws.frameParser.frames with
  | [] => ws
  | frame :: frames =>
      { ws with
        frameParser := { ws.frameParser with frames := frames }
        waiting := some .draining }.processFrame frame

/-- The loop of `processFrameBytes` goes on behind a frame. -/
def goesOn : LiveWebSocket :=
  if ws.state = .error ∨ ws.state = .closed then ws else ws.nextFrame

/-- `WebSocketImplNative::processFrameBytes`, up to the slots of the first frame. -/
def processFrameBytes (data : Bytes) : LiveWebSocket :=
  let fed := { ws with frameParser := ws.frameParser.feed data }
  if fed.frameParser.hasError then fed.fail fed.frameParser.error else fed.nextFrame

/-! ### The handlers -/

/-- `WebSocketImplNative::processHandshakeBytes`, up to the slots of `connected`. -/
def processHandshakeBytes (data : Bytes) : LiveWebSocket :=
  let buffer := ws.handshakeBuffer ++ data
  match cutBlank buffer with
  | none => { ws with handshakeBuffer := buffer }
  | some (head, remaining) =>
      match validateServerHandshakeResponse (head ++ [13, 10, 13, 10]) ws.clientKey with
      | .error errorMessage => { ws with handshakeBuffer := [] }.fail errorMessage
      | .ok () =>
          { ws with
            handshakeBuffer := []
            handshakeComplete := true
            state := .opened
            waiting := some (.resuming remaining) }

/-- `WebSocketImplNative::handleTcpReadyRead`. -/
def handleTcpReadyRead : LiveWebSocket :=
  let rest := { ws with readBuffer := [] }
  if ws.readBuffer = [] then rest
  else if ws.handshakeComplete = false then rest.processHandshakeBytes ws.readBuffer
  else rest.processFrameBytes ws.readBuffer

/-- `WebSocketImplNative::handleTcpDisconnected`. -/
def handleTcpDisconnected : LiveWebSocket :=
  if ws.state = .connecting ∧ ws.handshakeComplete = false then
    { ws with state := .error }.emit
      (.errorOccurred "WebSocket connection closed before the handshake completed")
  else if ws.state = .connecting ∨ ws.state = .opened ∨ ws.state = .closing then
    { ws with state := .closed }.emit .disconnected
  else { ws with state := .closed }

/-- A signal of the socket is emitted. `handleTcpConnected` writes the request of a client, which is
no frame. -/
def handle : TcpNotification → LiveWebSocket
  | .connected => ws
  | .readyRead => ws.handleTcpReadyRead
  | .disconnected => ws.handleTcpDisconnected
  | .errorOccurred message => ws.fail message

/-- The slots return to the handler that waits. -/
def slotsReturn : LiveWebSocket :=
  if 0 < ws.failing then { ws with failing := ws.failing - 1 }.socketClose
  else
    match ws.waiting with
    | none => ws
    | some .draining => { ws with waiting := none }.goesOn
    | some (.resuming remaining) =>
        if remaining = [] then { ws with waiting := none }
        else { ws with waiting := none }.processFrameBytes remaining

/-- No handler waits. -/
def idle : Bool := ws.waiting = none && ws.failing = 0

end LiveWebSocket

/-- What happens between two connect requests. -/
inductive WebSocketEvent
  /-- A call of `close`, from anywhere. -/
  | close
  /-- A call of `sendTextMessage` or `sendBinaryMessage`. -/
  | send (opcode : OpCode) (payload : Bytes)
  | ping (payload : Bytes)
  | slotsReturn
  /-- One of the posted signals of the socket is emitted. -/
  | runs (notification : TcpNotification)
  /-- The socket has connected. -/
  | tcpConnects
  /-- The socket has received some bytes. -/
  | tcpReceives (data : Bytes)
  /-- The peer has ended the connection. -/
  | tcpEnds
  /-- A system call of the socket has failed. -/
  | tcpFails (message : String)
  deriving DecidableEq

namespace LiveWebSocket

variable (ws : LiveWebSocket)

/-- What an event does, if it can happen. -/
def step : WebSocketEvent → Option LiveWebSocket
  | .close => some ws.close
  | .send opcode payload =>
      if opcode = .text ∨ opcode = .binary then some (ws.sendFrame opcode payload true) else none
  | .ping payload => some (ws.ping payload)
  | .slotsReturn => if ws.idle then none else some ws.slotsReturn
  | .runs notification =>
      if ws.idle ∧ notification ∈ ws.posted then
        some ({ ws with posted := ws.posted.erase notification }.handle notification)
      else none
  | .tcpConnects =>
      if ws.tcpState = .connecting then
        some { ws with tcpState := .connected, posted := ws.posted ++ [.connected] }
      else none
  | .tcpReceives data =>
      if ws.tcpState = .connected then
        some { ws with
          readBuffer := ws.readBuffer ++ data, posted := ws.posted ++ [.readyRead] }
      else none
  | .tcpEnds => if ws.socketActive then some ws.socketClose else none
  | .tcpFails message => if ws.socketActive then some (ws.socketFails message) else none

/-- The steps between two connect requests. -/
def Step (ws : LiveWebSocket) (e : WebSocketEvent) (next : LiveWebSocket) : Prop :=
  ws.step e = some next

/-! ### What a frame does -/

variable {ws : LiveWebSocket} {frame : WebSocketFrame}

/-- What is sent are frames of one kind. -/
theorem sendFrame_eq (opcode : OpCode) (payload : Bytes) (requireOpen : Bool) :
    ∃ sent : List WebSocketFrame, ws.sendFrame opcode payload requireOpen =
        { ws with written := ws.written ++ sent } ∧
      sent.length ≤ 1 ∧ ∀ g ∈ sent, g.opcode = opcode := by
  have hnone : ws = { ws with written := ws.written ++ [] } := by rw [List.append_nil]
  rw [sendFrame]
  split
  · exact ⟨[], hnone, Nat.zero_le 1, fun g hg => by cases hg⟩
  · split
    · refine ⟨_, rfl, Nat.le_refl 1, fun g hg => ?_⟩
      rw [List.mem_singleton.mp hg]
    · exact ⟨[], hnone, Nat.zero_le 1, fun g hg => by cases hg⟩

/-- A frame that is not accepted fails the connection. -/
theorem processFrame_rejected (h : frame.accepted ws.clientMode ws.fragmentOpcode = false) :
    ∃ errorMessage, ws.processFrame frame = ws.fail errorMessage := by
  rw [processFrame]
  split
  · exact ⟨_, rfl⟩
  · split
    · exact ⟨_, rfl⟩
    · have hmask : frame.masked = !ws.clientMode := by
        revert ‹¬(ws.clientMode = false ∧ frame.masked = false)›
          ‹¬(ws.clientMode = true ∧ frame.masked = true)›
        cases ws.clientMode <;> cases frame.masked <;> decide
      have hcontinues := mt (And.intro hmask) (of_decide_eq_false h)
      obtain ⟨hopcode, hfragment⟩ := Classical.not_imp.mp hcontinues
      rw [hopcode, if_pos (not_not.mp hfragment)]
      exact ⟨_, rfl⟩

/-- What a frame that is accepted does, if it is no Close. -/
structure Processed (ws : LiveWebSocket) (frame : WebSocketFrame) (next : LiveWebSocket) :
    Prop where
  eq : ∃ signals sent fragmentPayload, next =
      { ws with
        emitted := ws.emitted ++ signals
        written := ws.written ++ sent
        fragmentOpcode := frame.fragmentAfter ws.fragmentOpcode
        fragmentPayload := fragmentPayload } ∧
    (∀ signal ∈ signals, signal.isNotification = true ∧ frame.notifies = true) ∧
    ∀ g ∈ sent, g.opcode ≠ .close

/-- What a Close frame does. -/
structure Closes (ws : LiveWebSocket) (next : LiveWebSocket) : Prop where
  eq : ∃ sent, next =
      { ws with
        written := ws.written ++ sent
        closeFrameSent := true
        state := .closing
        atClose := ws.atClose <|> some ws.delivered }.socketClose ∧
    sent.length ≤ 1 ∧ (ws.closeFrameSent = true → sent = [])

theorem processed_emit {signal : WebSocketSignal} (hsignal : signal.isNotification = true)
    (hframe : frame.notifies = true) (payload : Bytes) :
    Processed ws frame
      { ws.emit signal with
        fragmentOpcode := frame.fragmentAfter ws.fragmentOpcode, fragmentPayload := payload } where
  eq := ⟨[signal], [], payload, by rw [List.append_nil]; rfl, fun s hs => by
    rw [List.mem_singleton.mp hs]
    exact ⟨hsignal, hframe⟩, fun g hg => absurd hg List.not_mem_nil⟩

theorem processed_quiet (payload : Bytes) :
    Processed ws frame
      { ws with
        fragmentOpcode := frame.fragmentAfter ws.fragmentOpcode, fragmentPayload := payload } where
  eq := ⟨[], [], payload, by rw [List.append_nil, List.append_nil],
    fun s hs => absurd hs List.not_mem_nil, fun g hg => absurd hg List.not_mem_nil⟩

/-- What a frame does that is accepted. -/
theorem processFrame_accepted (h : frame.accepted ws.clientMode ws.fragmentOpcode = true) :
    if frame.opcode = .close then Closes ws (ws.processFrame frame)
    else Processed ws frame (ws.processFrame frame) := by
  obtain ⟨hmask, hcontinues⟩ := of_decide_eq_true h
  have hclient : ¬(ws.clientMode = false ∧ frame.masked = false) := by
    rintro ⟨hmode, hmasked⟩
    simp [hmode, hmasked] at hmask
  have hserver : ¬(ws.clientMode = true ∧ frame.masked = true) := by
    rintro ⟨hmode, hmasked⟩
    simp [hmode, hmasked] at hmask
  obtain ⟨fin, opcode, masked, payload⟩ := frame
  rw [processFrame, if_neg hclient, if_neg hserver]
  cases opcode with
  | text | binary =>
      cases fin with
      | true => exact processed_emit (WebSocketSession.isNotification_message _ _) rfl _
      | false => exact processed_quiet _
  | continuation =>
      rw [if_neg (hcontinues rfl)]
      cases fin with
      | true => exact processed_emit (WebSocketSession.isNotification_message _ _) rfl _
      | false => exact processed_quiet _
  | ping =>
      obtain ⟨sent, hsent, -, hopcode⟩ := @sendFrame_eq ws .pong payload true
      refine ⟨[], sent, ws.fragmentPayload, ?_, fun s hs => (by cases hs), fun g hg hclose => ?_⟩
      · rw [List.append_nil]
        exact hsent
      · rw [hopcode g hg] at hclose
        cases hclose
  | pong => exact processed_emit rfl rfl _
  | close =>
      cases hclose : ws.closeFrameSent with
      | true =>
          refine ⟨[], ?_, Nat.zero_le 1, fun _ => rfl⟩
          rw [List.append_nil]
          simp [hclose]
      | false =>
          obtain ⟨sent, hsent, hlength, -⟩ := @sendFrame_eq ws .close payload false
          refine ⟨sent, ?_, hlength, fun htrue => ?_⟩
          · simp [hclose, hsent, delivered]
          · rw [hclose] at htrue
            cases htrue

/-- **What a frame does.** -/
theorem processFrame_cases (ws : LiveWebSocket) (frame : WebSocketFrame) :
    (frame.accepted ws.clientMode ws.fragmentOpcode = false ∧
        ∃ errorMessage, ws.processFrame frame = ws.fail errorMessage) ∨
      (frame.accepted ws.clientMode ws.fragmentOpcode = true ∧ frame.opcode = .close ∧
        Closes ws (ws.processFrame frame)) ∨
      (frame.accepted ws.clientMode ws.fragmentOpcode = true ∧ frame.opcode ≠ .close ∧
        Processed ws frame (ws.processFrame frame)) := by
  cases haccepted : frame.accepted ws.clientMode ws.fragmentOpcode with
  | false => exact .inl ⟨rfl, processFrame_rejected haccepted⟩
  | true =>
      have hframe := processFrame_accepted haccepted
      by_cases hopcode : frame.opcode = .close
      · rw [if_pos hopcode] at hframe
        exact .inr (.inl ⟨rfl, hopcode, hframe⟩)
      · rw [if_neg hopcode] at hframe
        exact .inr (.inr ⟨rfl, hopcode, hframe⟩)

/-! ### Close frames -/

/-- How many Close frames have been written. -/
def closes (ws : LiveWebSocket) : ℕ := ws.written.countP (·.opcode = .close)

/-- A Close frame is written only when it is noted. -/
def ClosesOnce (ws : LiveWebSocket) : Prop := ws.closes ≤ if ws.closeFrameSent then 1 else 0

theorem closesOnce_congr {next : LiveWebSocket} (h : ClosesOnce ws)
    (hwritten : next.written = ws.written) (hsent : next.closeFrameSent = ws.closeFrameSent) :
    ClosesOnce next := by
  rw [ClosesOnce, closes, hwritten, hsent]
  exact h

theorem closesOnce_append {sent : List WebSocketFrame} (h : ClosesOnce ws)
    (hsent : ∀ g ∈ sent, g.opcode ≠ .close) :
    ClosesOnce { ws with written := ws.written ++ sent } := by
  have hcount : sent.countP (·.opcode = .close) = 0 :=
    List.countP_eq_zero.mpr fun g hg => by simpa using hsent g hg
  change (ws.written ++ sent).countP _ ≤ _
  rw [List.countP_append, hcount]
  exact h

theorem closesOnce_sendFrame (h : ClosesOnce ws) {opcode : OpCode} (hopcode : opcode ≠ .close)
    (payload : Bytes) (requireOpen : Bool) :
    ClosesOnce (ws.sendFrame opcode payload requireOpen) := by
  obtain ⟨sent, hsent, -, hkind⟩ := @sendFrame_eq ws opcode payload requireOpen
  rw [hsent]
  exact closesOnce_append h fun g hg => hkind g hg ▸ hopcode

/-- The first Close frame. -/
theorem closes_first {sent : List WebSocketFrame} (h : ClosesOnce ws)
    (hsent : ws.closeFrameSent = true → sent = []) (hlength : sent.length ≤ 1) :
    (ws.written ++ sent).countP (·.opcode = .close) ≤ 1 := by
  rw [List.countP_append]
  have hclosed : ws.written.countP (·.opcode = .close) ≤ if ws.closeFrameSent then 1 else 0 := h
  have hle : sent.countP (·.opcode = .close) ≤ sent.length := List.countP_le_length
  cases hnoted : ws.closeFrameSent with
  | true =>
      rw [hnoted, if_pos rfl] at hclosed
      rw [hsent hnoted, List.countP_nil]
      exact hclosed
  | false =>
      rw [hnoted, if_neg Bool.false_ne_true] at hclosed
      omega

theorem closesOnce_close (h : ClosesOnce ws) : ClosesOnce ws.close := by
  rw [close]
  split
  · rename_i hopen
    obtain ⟨sent, hsent, hlength, -⟩ := @sendFrame_eq ws .close [] false
    rw [hsent]
    refine closes_first h (fun hnoted => ?_) hlength
    rw [hopen.2] at hnoted
    cases hnoted
  · exact closesOnce_congr h rfl rfl

theorem closesOnce_processFrame (h : ClosesOnce ws) (frame : WebSocketFrame) :
    ClosesOnce (ws.processFrame frame) := by
  rcases ws.processFrame_cases frame with ⟨-, errorMessage, hfail⟩ | ⟨-, -, hframe⟩ | ⟨-, -, hframe⟩
  · rw [hfail]
    exact closesOnce_congr h rfl rfl
  · obtain ⟨sent, heq, hlength, hnoted⟩ := hframe.eq
    rw [heq]
    exact closes_first h hnoted hlength
  · obtain ⟨signals, sent, fragmentPayload, heq, -, hsent⟩ := hframe.eq
    rw [heq]
    exact closesOnce_congr (closesOnce_append h hsent) rfl rfl

theorem closesOnce_nextFrame (h : ClosesOnce ws) : ClosesOnce ws.nextFrame := by
  rw [nextFrame]
  split
  · exact h
  · refine closesOnce_processFrame ?_ _
    exact closesOnce_congr h rfl rfl

theorem closesOnce_processFrameBytes (h : ClosesOnce ws) (data : Bytes) :
    ClosesOnce (ws.processFrameBytes data) := by
  rw [processFrameBytes]
  split
  · exact closesOnce_congr h rfl rfl
  · refine closesOnce_nextFrame ?_
    exact closesOnce_congr h rfl rfl

theorem closesOnce_handle (h : ClosesOnce ws) (notification : TcpNotification) :
    ClosesOnce (ws.handle notification) := by
  cases notification with
  | connected => exact h
  | errorOccurred message => exact closesOnce_congr h rfl rfl
  | disconnected =>
      rw [handle, handleTcpDisconnected]
      split_ifs <;> exact closesOnce_congr h rfl rfl
  | readyRead =>
      rw [handle, handleTcpReadyRead]
      split_ifs
      · exact closesOnce_congr h rfl rfl
      · rw [processHandshakeBytes]
        split
        · exact closesOnce_congr h rfl rfl
        · split <;> exact closesOnce_congr h rfl rfl
      · refine closesOnce_processFrameBytes ?_ _
        exact closesOnce_congr h rfl rfl

theorem closesOnce_slotsReturn (h : ClosesOnce ws) : ClosesOnce ws.slotsReturn := by
  have hwaiting : ClosesOnce { ws with waiting := none } := closesOnce_congr h rfl rfl
  rw [slotsReturn]
  split
  · exact closesOnce_congr h rfl rfl
  · split
    · exact h
    · rw [goesOn]
      split
      · exact hwaiting
      · exact closesOnce_nextFrame hwaiting
    · split
      · exact hwaiting
      · exact closesOnce_processFrameBytes hwaiting _

theorem closesOnce_step {e : WebSocketEvent} {next : LiveWebSocket} (h : ClosesOnce ws)
    (hstep : Step ws e next) : ClosesOnce next := by
  cases e with
  | close =>
      cases hstep
      exact closesOnce_close h
  | send opcode payload =>
      obtain ⟨hopcode, heq⟩ := Option.ite_none_right_eq_some.mp hstep
      cases heq
      refine closesOnce_sendFrame h (fun hclose => ?_) payload true
      rcases hopcode with hopcode | hopcode <;> rw [hclose] at hopcode <;> cases hopcode
  | ping payload =>
      cases hstep
      rw [ping]
      split
      · exact closesOnce_congr h rfl rfl
      · exact closesOnce_sendFrame h (fun hping => by cases hping) payload true
  | slotsReturn =>
      obtain ⟨-, heq⟩ := Option.ite_none_left_eq_some.mp hstep
      cases heq
      exact closesOnce_slotsReturn h
  | runs notification =>
      obtain ⟨-, heq⟩ := Option.ite_none_right_eq_some.mp hstep
      cases heq
      refine closesOnce_handle ?_ notification
      exact closesOnce_congr h rfl rfl
  | tcpConnects | tcpReceives _ | tcpEnds | tcpFails _ =>
      obtain ⟨-, heq⟩ := Option.ite_none_right_eq_some.mp hstep
      cases heq
      exact closesOnce_congr h rfl rfl

/-- **At most one Close frame is written**, in any run. -/
theorem closes_of_reaches {es : List WebSocketEvent} {next : LiveWebSocket} (h : ClosesOnce ws)
    (hrun : Reaches Step ws es next) : next.closes ≤ 1 := by
  have hnext : ClosesOnce next :=
    hrun.invariant (fun _ _ _ hinv _ hstep => closesOnce_step hinv hstep) h
  exact hnext.trans (by split <;> decide)

end LiveWebSocket

end SimplyNode
