import SimplyNode.WebSocketFrame

/-!
# WebSocket Connections

`WebSocketImplNative` once its handshake is complete. The socket hands over what it has received,
the parser makes frames of it, and `processFrame` goes through them: it puts the fragments of a
message together, emits the signals of the owner, and answers. The socket belongs to an event loop.
When it is closed it forgets what it has received, and its `disconnected` comes after the handler
that has closed it.

The sends go through, and the slots of the owner do not call back. A frame that is written is
recorded as it is given to `encodeFrame`.

## Main results

* `processFrame_rejected`: a frame that is not accepted fails the connection.
* `processFrame_accepted`: what any other frame does.
-/

namespace SimplyNode

open Text Incremental

/-- `WebSocketState`. -/
inductive WebSocketState
  | closed
  | connecting
  | opened
  | closing
  | error
  deriving DecidableEq

/-- The signals of a `WebSocket`, with what they are emitted with. -/
inductive WebSocketSignal
  | disconnected
  | textMessageReceived (message : Bytes)
  | binaryMessageReceived (data : Bytes)
  | pongReceived (payload : Bytes)
  | errorOccurred (errorMessage : String)
  deriving DecidableEq

/-- The signals that hand something of the peer to the application. -/
def WebSocketSignal.isNotification : WebSocketSignal → Bool
  | .textMessageReceived _ => true
  | .binaryMessageReceived _ => true
  | .pongReceived _ => true
  | _ => false

/-- A `WebSocketImplNative` without its parser, with the signals it has emitted and the frames it
has written. There is no open fragment as long as its opcode is `Continuation`. -/
structure WebSocketSession where
  clientMode : Bool
  state : WebSocketState := .opened
  closeFrameSent : Bool := false
  fragmentOpcode : OpCode := .continuation
  fragmentPayload : Bytes := []
  socketOpen : Bool := true
  emitted : List WebSocketSignal := []
  written : List WebSocketFrame := []
  deriving DecidableEq

namespace WebSocketSession

variable (s : WebSocketSession)

/-- A signal of the owner. -/
def emit (signal : WebSocketSignal) : WebSocketSession :=
  { s with emitted := s.emitted ++ [signal] }

/-- What has been handed to the application. -/
def delivered : List WebSocketSignal := s.emitted.filter WebSocketSignal.isNotification

/-- `WebSocketImplNative::fail`. -/
def fail (errorMessage : String) : WebSocketSession :=
  { s.emit (.errorOccurred errorMessage) with state := .error, socketOpen := false }

/-- `WebSocketImplNative::sendFrame`. -/
def sendFrame (opcode : OpCode) (payload : Bytes) (requireOpen : Bool) : WebSocketSession :=
  if requireOpen ∧ s.state ≠ .opened then s
  else if s.socketOpen then
    { s with
      written := s.written ++ [{ opcode := opcode, masked := s.clientMode, payload := payload }] }
  else s

/-- The signal of a whole message. -/
def message (opcode : OpCode) (payload : Bytes) : WebSocketSignal :=
  if opcode = .text then .textMessageReceived payload else .binaryMessageReceived payload

/-- `WebSocketImplNative::processFrame`. -/
def processFrame (frame : WebSocketFrame) : WebSocketSession :=
  if s.clientMode = false ∧ frame.masked = false then
    s.fail "WebSocket client frames must be masked"
  else if s.clientMode ∧ frame.masked then
    s.fail "WebSocket server frames must not be masked"
  else
    match frame.opcode with
    | .text | .binary =>
        if frame.fin then s.emit (message frame.opcode frame.payload)
        else { s with fragmentOpcode := frame.opcode, fragmentPayload := frame.payload }
    | .continuation =>
        if s.fragmentOpcode = .continuation then s.fail "Unexpected WebSocket continuation frame"
        else if frame.fin then
          { s.emit (message s.fragmentOpcode (s.fragmentPayload ++ frame.payload)) with
            fragmentOpcode := .continuation, fragmentPayload := [] }
        else { s with fragmentPayload := s.fragmentPayload ++ frame.payload }
    | .ping => s.sendFrame .pong frame.payload true
    | .pong => s.emit (.pongReceived frame.payload)
    | .close =>
        let answered :=
          if s.closeFrameSent then s
          else { s.sendFrame .close frame.payload false with closeFrameSent := true }
        { answered with state := .closing, socketOpen := false }

/-- `WebSocketImplNative::handleTcpDisconnected`, after the handshake. -/
def handleTcpDisconnected : WebSocketSession :=
  if s.state = .connecting ∨ s.state = .opened ∨ s.state = .closing then
    { s with state := .closed }.emit .disconnected
  else { s with state := .closed }

end WebSocketSession

/-- The loop of `processFrameBytes`, with the frames that it leaves behind. -/
def processFrames : List WebSocketFrame → WebSocketSession → WebSocketSession × List WebSocketFrame
  | [], s => (s, [])
  | frame :: frames, s =>
      let s := s.processFrame frame
      if s.state = .error ∨ s.state = .closed then (s, frames) else processFrames frames s

/-- `WebSocketImplNative`. -/
structure WebSocketImplNative where
  session : WebSocketSession
  frameParser : WebSocketFrameParser := {}
  deriving DecidableEq

namespace WebSocketImplNative

/-- A connection right after its handshake. What has come with the response of the server is the
first read. -/
def afterHandshake (clientMode : Bool) : WebSocketImplNative :=
  { session := { clientMode := clientMode } }

variable (ws : WebSocketImplNative)

/-- What has been handed to the application. -/
def delivered : List WebSocketSignal := ws.session.delivered

/-- `WebSocketImplNative::processFrameBytes`. -/
def processFrameBytes (data : Bytes) : WebSocketImplNative :=
  let frameParser := ws.frameParser.feed data
  if frameParser.hasError then
    { session := ws.session.fail frameParser.error, frameParser := frameParser }
  else
    let drained := processFrames frameParser.frames ws.session
    { session := drained.1, frameParser := { frameParser with frames := drained.2 } }

/-- `WebSocketImplNative::handleTcpReadyRead`, after the handshake. A closed socket has nothing. -/
def handleTcpReadyRead (data : Bytes) : WebSocketImplNative :=
  if ws.session.socketOpen = false ∨ data = [] then ws else processFrameBytes ws data

/-- A read, and the `disconnected` of the socket, if it has been closed in the meantime. -/
def read (data : Bytes) : WebSocketImplNative :=
  let next := handleTcpReadyRead ws data
  if ws.session.socketOpen ∧ next.session.socketOpen = false then
    { next with session := next.session.handleTcpDisconnected }
  else next

/-- The reads of a connection. -/
def receive (pieces : List Bytes) : WebSocketImplNative := pieces.foldl read ws

end WebSocketImplNative

/-! ### What a frame does -/

namespace WebSocketFrame

/-- A session accepts the frame: it has a mask just if the peer is a client, and it continues
something. -/
def accepted (clientMode : Bool) (fragmentOpcode : OpCode) (frame : WebSocketFrame) : Bool :=
  frame.masked = !clientMode ∧ (frame.opcode = .continuation → fragmentOpcode ≠ .continuation)

/-- The opcode of the open fragment behind the frame. -/
def fragmentAfter (fragmentOpcode : OpCode) (frame : WebSocketFrame) : OpCode :=
  match frame.opcode with
  | .text | .binary => if frame.fin then fragmentOpcode else frame.opcode
  | .continuation => if frame.fin then .continuation else fragmentOpcode
  | _ => fragmentOpcode

/-- The frame completes something for the application. -/
def notifies (frame : WebSocketFrame) : Bool :=
  match frame.opcode with
  | .text | .binary | .continuation => frame.fin
  | .pong => true
  | _ => false

end WebSocketFrame

namespace WebSocketSession

variable {s : WebSocketSession} {frame : WebSocketFrame}

theorem delivered_emit {signal : WebSocketSignal} (h : signal.isNotification = true) :
    (s.emit signal).delivered = s.delivered ++ [signal] := by
  rw [delivered, emit, List.filter_append, List.filter_cons_of_pos h]
  rfl

theorem delivered_emit_of_not {signal : WebSocketSignal} (h : signal.isNotification = false) :
    (s.emit signal).delivered = s.delivered := by
  rw [delivered, emit, List.filter_append, List.filter_cons_of_neg (Bool.eq_false_iff.mp h)]
  exact List.append_nil _

theorem delivered_fail (errorMessage : String) : (s.fail errorMessage).delivered = s.delivered :=
  delivered_emit_of_not rfl

theorem isNotification_message (opcode : OpCode) (payload : Bytes) :
    (message opcode payload).isNotification = true := by
  rw [message]
  split
  · rfl
  · rfl

theorem delivered_handleTcpDisconnected : s.handleTcpDisconnected.delivered = s.delivered := by
  rw [handleTcpDisconnected]
  split
  · exact delivered_emit_of_not (s := { s with state := .closed }) rfl
  · rfl

theorem socketOpen_handleTcpDisconnected : s.handleTcpDisconnected.socketOpen = s.socketOpen := by
  rw [handleTcpDisconnected]
  split
  · rfl
  · rfl

/-- A frame that is sent changes nothing else. -/
theorem sendFrame_eq (opcode : OpCode) (payload : Bytes) (requireOpen : Bool) :
    ∃ written, s.sendFrame opcode payload requireOpen = { s with written := written } := by
  rw [sendFrame]
  split
  · exact ⟨s.written, rfl⟩
  · split
    · exact ⟨_, rfl⟩
    · exact ⟨s.written, rfl⟩

/-- What a frame that is accepted makes of a session. -/
structure Processed (s : WebSocketSession) (frame : WebSocketFrame) (s' : WebSocketSession) :
    Prop where
  clientMode : s'.clientMode = s.clientMode
  fragment : s'.fragmentOpcode = frame.fragmentAfter s.fragmentOpcode
  state : s'.state = if frame.opcode = .close then .closing else s.state
  socketOpen : s'.socketOpen = if frame.opcode = .close then false else s.socketOpen
  delivered : ∃ l, s'.delivered = s.delivered ++ l ∧ l.length = if frame.notifies then 1 else 0

/-- What has to do with the mask is settled first. -/
theorem mask_iff : frame.masked = (!s.clientMode) ↔
    ¬(s.clientMode = false ∧ frame.masked = false) ∧
      ¬(s.clientMode = true ∧ frame.masked = true) := by
  cases s.clientMode <;> cases frame.masked <;> decide

/-- **A frame that is not accepted fails the connection.** -/
theorem processFrame_rejected (h : frame.accepted s.clientMode s.fragmentOpcode = false) :
    ∃ errorMessage, s.processFrame frame = s.fail errorMessage := by
  rw [processFrame]
  split
  · exact ⟨_, rfl⟩
  · split
    · exact ⟨_, rfl⟩
    · have hmask := mask_iff.mpr ⟨‹_›, ‹_›⟩
      have hcontinues := mt (And.intro hmask) (of_decide_eq_false h)
      obtain ⟨hopcode, hfragment⟩ := Classical.not_imp.mp hcontinues
      rw [hopcode, if_pos (not_not.mp hfragment)]
      exact ⟨_, rfl⟩

/-- **What any other frame does.** -/
theorem processFrame_accepted (h : frame.accepted s.clientMode s.fragmentOpcode = true) :
    Processed s frame (s.processFrame frame) := by
  obtain ⟨hmask, hcontinues⟩ := of_decide_eq_true h
  obtain ⟨hclient, hserver⟩ := mask_iff.mp hmask
  obtain ⟨fin, opcode, masked, payload⟩ := frame
  rw [processFrame, if_neg hclient, if_neg hserver]
  cases opcode with
  | text | binary =>
      cases fin with
      | true => exact ⟨rfl, rfl, rfl, rfl, [_], delivered_emit (isNotification_message _ _), rfl⟩
      | false => exact ⟨rfl, rfl, rfl, rfl, [], (List.append_nil _).symm, rfl⟩
  | continuation =>
      rw [if_neg (hcontinues rfl)]
      cases fin with
      | true => exact ⟨rfl, rfl, rfl, rfl, [_], delivered_emit (isNotification_message _ _), rfl⟩
      | false => exact ⟨rfl, rfl, rfl, rfl, [], (List.append_nil _).symm, rfl⟩
  | ping =>
      obtain ⟨written, hsent⟩ := sendFrame_eq (s := s) .pong payload true
      rw [hsent]
      exact ⟨rfl, rfl, rfl, rfl, [], (List.append_nil _).symm, rfl⟩
  | pong => exact ⟨rfl, rfl, rfl, rfl, [_], delivered_emit rfl, rfl⟩
  | close =>
      obtain ⟨written, hsent⟩ := sendFrame_eq (s := s) .close payload false
      dsimp only
      rw [hsent]
      split
      · exact ⟨rfl, rfl, rfl, rfl, [], (List.append_nil _).symm, rfl⟩
      · exact ⟨rfl, rfl, rfl, rfl, [], (List.append_nil _).symm, rfl⟩

end WebSocketSession

end SimplyNode
