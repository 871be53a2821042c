import SimplyNode.WebSocketClosing
import SimplyNode.WebSocketEncoding
import SimplyNode.WebSocketServer

/-!
# What a WebSocket Hears

One direction of a connection between two ends that are both a `WebSocketImplNative`. What one of
them writes arrives at the other one in pieces of any size, and a client finds the response of the
server in front of the first frame. `Hearing` says how far a `WebSocket` is with what the other side
has written: which bytes its parser has seen, which frames it has processed, and what is still to
come.

## Main results

* `Encoded.decodes`: what `sendFrame` writes is read as the frames that it was written from.
* `cutBlank_response`: the response of a server ends with its first blank line.
* `Hearing.nextFrame`: what the loop over the frames does with the next frame.
-/

open Transition

namespace SimplyNode

open Text Incremental WebSocketHandshake

/-! ### The frames on the wire -/

/-- A frame as `sendFrame` makes it. -/
structure WebSocketFrame.Outgoing (clientMode : Bool) (frame : WebSocketFrame) : Prop where
  fin : frame.fin = true
  masked : frame.masked = clientMode
  continues : frame.opcode ≠ .continuation
  length_lt : frame.payload.length < 2 ^ 63
  control_le : isControlOpcode frame.opcode = true → frame.payload.length ≤ 125

/-- The bytes of some frames one behind the other, each with a mask that `randomMask` has drawn. -/
inductive Encoded : List WebSocketFrame → Bytes → Prop
  | nil : Encoded [] []
  | cons {frame : WebSocketFrame} {frames : List WebSocketFrame} {text : Bytes} (mask : MaskKey)
      (h : Encoded frames text) :
      Encoded (frame :: frames) (encodeFrame frame.opcode frame.payload frame.masked mask ++ text)

/-- What a whole frame hands to the application. -/
def WebSocketFrame.notification (frame : WebSocketFrame) : Option WebSocketSignal :=
  match frame.opcode with
  | .text | .binary => some (WebSocketSession.message frame.opcode frame.payload)
  | .pong => some (.pongReceived frame.payload)
  | _ => none

/-- What the other side is handed of some frames. -/
def signalsOf (frames : List WebSocketFrame) : List WebSocketSignal :=
  frames.filterMap WebSocketFrame.notification

/-- The payloads of the frames with an opcode. -/
def payloadsOf (opcode : OpCode) (frames : List WebSocketFrame) : List Bytes :=
  frames.filterMap fun frame => if frame.opcode = opcode then some frame.payload else none

theorem payloadsOf_append (opcode : OpCode) (frames later : List WebSocketFrame) :
    payloadsOf opcode (frames ++ later) = payloadsOf opcode frames ++ payloadsOf opcode later :=
  List.filterMap_append

theorem payloadsOf_nil_of {opcode : OpCode} {frames : List WebSocketFrame}
    (h : ∀ frame ∈ frames, frame.opcode ≠ opcode) : payloadsOf opcode frames = [] := by
  rw [payloadsOf, List.filterMap_eq_nil_iff]
  intro frame hframe
  rw [if_neg (h frame hframe)]

/-- A frame that `sendFrame` makes is read again. -/
theorem WebSocketFrame.Outgoing.isFrame {clientMode : Bool} {frame : WebSocketFrame}
    (h : frame.Outgoing clientMode) (mask : MaskKey) :
    IsFrame (encodeFrame frame.opcode frame.payload frame.masked mask) frame := by
  let outgoing : OutgoingFrame := ⟨frame.opcode, frame.payload, frame.masked, mask, h.length_lt,
    h.control_le⟩
  have hsent : outgoing.sent = frame := by
    obtain ⟨fin, opcode, masked, payload⟩ := frame
    obtain rfl : fin = true := h.fin
    rfl
  exact hsent ▸ outgoing.isFrame_encode

/-- **What is written is read** as the frames that it was written from. -/
theorem Encoded.decodes {clientMode : Bool} {frames : List WebSocketFrame} {text : Bytes}
    (h : Encoded frames text) (hframes : ∀ frame ∈ frames, frame.Outgoing clientMode) :
    Decodes text frames [] := by
  induction h with
  | nil => exact ⟨[], rfl, .nil⟩
  | @cons frame frames text mask _ ih =>
      obtain ⟨hframe, hframes⟩ := List.forall_mem_cons.mp hframes
      obtain ⟨parts, htext, hparts⟩ := ih hframes
      refine ⟨_ :: parts, ?_, .cons (hframe.isFrame mask) hparts⟩
      rw [htext, List.flatten_cons, List.append_assoc]

/-- Some frames, and some more behind them. -/
theorem Decodes.append {stream text : Bytes} {written sent : List WebSocketFrame}
    (h : Decodes stream written []) (hsent : Decodes text sent []) :
    Decodes (stream ++ text) (written ++ sent) [] := by
  obtain ⟨parts, rfl, hparts⟩ := h
  obtain ⟨later, rfl, hlater⟩ := hsent
  refine ⟨parts ++ later, ?_, List.rel_append hparts hlater⟩
  rw [List.append_nil, List.append_nil, List.append_nil, List.flatten_append]

/-- All that is found in whole frames. -/
theorem Decodes.found {stream : Bytes} {written : List WebSocketFrame}
    (h : Decodes stream written []) : drain (tryParseOne 64) stream = ⟨written, [], none⟩ := by
  have hfound := drain_of_decodes h
  have hempty : drain (tryParseOne 64) ([] : Bytes) = ⟨[], [], none⟩ := rfl
  rwa [hempty, List.append_nil] at hfound

/-- **In a front of whole frames** the first ones of them are found, and no error. -/
theorem Decodes.front {stream consumed : Bytes} {written : List WebSocketFrame}
    (h : Decodes stream written []) (hfront : consumed <+: stream) :
    (drain (tryParseOne 64) consumed).error = none ∧
      (drain (tryParseOne 64) consumed).items <+: written := by
  obtain ⟨later, rfl⟩ := hfront
  have hdrain := h.found
  cases herror : (drain (tryParseOne 64) consumed).error with
  | some e =>
      have hlater := (drain_append_of_error isIncremental_tryParseOne consumes_tryParseOne herror
        later).2
      rw [hdrain] at hlater
      cases hlater
  | none =>
      have happend := drain_append isIncremental_tryParseOne consumes_tryParseOne herror later
      rw [hdrain] at happend
      exact ⟨rfl, ⟨_, (congrArg Drained.items happend).symm⟩⟩

/-! ### The response of a server -/

/-- The response without its last lines. -/
def responseHead (clientKey : Bytes) : Bytes :=
  bytes "HTTP/1.1 101 Switching Protocols\r\n" ++
    bytes "Upgrade: websocket\r\n" ++
    bytes "Connection: Upgrade\r\n" ++
    bytes "Sec-WebSocket-Accept: " ++ computeAcceptKey clientKey

theorem responseHead_append (clientKey : Bytes) :
    responseHead clientKey ++ 13 :: 10 :: 13 :: 10 :: [] =
      buildServerHandshakeResponse clientKey := by
  have hend : bytes "\r\n" = [13, 10] := by decide
  simp only [responseHead, buildServerHandshakeResponse, hend, List.append_assoc, List.cons_append,
    List.nil_append]

/-- **The response of a server ends with its first blank line.** -/
theorem cutBlank_response (clientKey : Bytes) :
    cutBlank (buildServerHandshakeResponse clientKey) = some (responseHead clientKey, []) := by
  rw [← responseHead_append, cutBlank_iff]
  have hstatus : bytes "HTTP/1.1 101 Switching Protocols\r\n" =
      bytes "HTTP/1.1 101 Switching Protocols" ++ [13, 10] := by decide
  have hupgrade : bytes "Upgrade: websocket\r\n" = bytes "Upgrade: websocket" ++ [13, 10] := by
    decide
  have hconnection : bytes "Connection: Upgrade\r\n" = bytes "Connection: Upgrade" ++ [13, 10] := by
    decide
  have haccept : nextLine (bytes "Sec-WebSocket-Accept: " ++ computeAcceptKey clientKey) =
      none := by
    refine nextLine_of_notMem fun hmem => ?_
    rcases List.mem_append.mp hmem with hname | hkey
    · revert hname
      decide
    · have hspace := (solid_computeAcceptKey clientKey).2 13 hkey
      revert hspace
      decide
  rw [responseHead, hstatus, hupgrade, hconnection]
  simp only [List.append_assoc, List.cons_append, List.nil_append]
  rw [lines_append, lines_append, lines_append, lines_line haccept,
    lines_line (nextLine_of_notMem (by decide)), lines_line (nextLine_of_notMem (by decide)),
    lines_line (nextLine_of_notMem (by decide))]
  simp only [List.cons_append, List.nil_append, List.tail_cons, List.mem_cons, List.not_mem_nil,
    or_false, not_or]
  refine ⟨by decide, by decide, fun hnil => ?_⟩
  have hname := (List.append_eq_nil_iff.mp hnil.symm).1
  revert hname
  decide

/-- **What a client finds** in a front of the response and the frames behind it. -/
theorem cutBlank_front {clientKey buffer later stream head remaining : Bytes}
    (hbuffer : buffer ++ later = buildServerHandshakeResponse clientKey ++ stream)
    (hcut : cutBlank buffer = some (head, remaining)) :
    head ++ [13, 10, 13, 10] = buildServerHandshakeResponse clientKey ∧
      remaining ++ later = stream := by
  have hfound := Upgrade.cutBlank_append hcut later
  have hresponse := Upgrade.cutBlank_append (cutBlank_response clientKey) stream
  rw [hbuffer, hresponse, List.nil_append, Option.some.injEq, Prod.mk.injEq] at hfound
  obtain ⟨rfl, rfl⟩ := hfound
  exact ⟨responseHead_append clientKey, rfl⟩

namespace LiveWebSocket

/-! ### What has been heard -/

/-- What the handler that waits has still to process of a read. -/
def ahead (ws : LiveWebSocket) : Bytes :=
  match ws.waiting with
  | some (.resuming remaining) => remaining
  | _ => []

/-- **How far a `WebSocket` is** with the frames of the other side, which are this stream. Its
parser has seen what is `consumed`, and some frames of it have been `processed`. -/
structure Hearing (stream coming consumed : Bytes) (processed : List WebSocketFrame)
    (ws : LiveWebSocket) : Prop where
  parser : { ws.frameParser with frames := processed ++ ws.frameParser.frames }.Follows consumed
  begun : consumed ++ ws.ahead <+: stream
  arrived : ws.tcpState = .connected → ws.handshakeComplete = true →
    consumed ++ ws.ahead ++ ws.readBuffer ++ coming = stream
  /-- A client in front of the end of the response. -/
  pending : ws.handshakeComplete = false →
    consumed = [] ∧ processed = [] ∧ ws.waiting = none ∧ ws.frameParser.frames = [] ∧
      ws.state ≠ .opened ∧ cutBlank ws.handshakeBuffer = none ∧
      (ws.tcpState = .connected → ws.handshakeBuffer ++ ws.readBuffer ++ coming =
        buildServerHandshakeResponse ws.clientKey ++ stream)
  offline : ws.tcpState ≠ .connected → ws.tcpState = .disconnected ∧ ws.readBuffer = []
  fragmentOpcode : ws.fragmentOpcode = .continuation
  delivered : ws.delivered = signalsOf processed
  pongs : payloadsOf .pong ws.written <+: payloadsOf .ping processed
  answered : ws.state = .opened → ws.tcpState = .connected →
    payloadsOf .pong ws.written = payloadsOf .ping processed
  atClose : ws.atClose.isSome = true ↔ ∃ frame ∈ processed, frame.opcode = .close
  /-- A loop that has not been stopped has processed what there was. -/
  drained : ws.waiting ≠ some .draining → ws.state ≠ .error → ws.state ≠ .closed →
    ws.frameParser.frames = []

/-- What a step does that reads nothing. -/
structure Unread (ws next : LiveWebSocket) : Prop where
  handshakeComplete : next.handshakeComplete = ws.handshakeComplete
  handshakeBuffer : next.handshakeBuffer = ws.handshakeBuffer
  clientKey : next.clientKey = ws.clientKey
  frameParser : next.frameParser = ws.frameParser
  fragmentOpcode : next.fragmentOpcode = ws.fragmentOpcode
  waiting : next.waiting = ws.waiting
  delivered : next.delivered = ws.delivered
  atClose : next.atClose = ws.atClose
  pongs : payloadsOf .pong next.written = payloadsOf .pong ws.written
  socket : next.tcpState = ws.tcpState ∧ next.readBuffer = ws.readBuffer ∨
    next.tcpState = .disconnected ∧ next.readBuffer = []
  state : next.state = ws.state ∨ next.state = .error ∨ next.state = .closed ∨
    ws.state = .opened ∧ next.state = .closing

variable {ws next : LiveWebSocket} {stream coming consumed : Bytes}
  {processed written : List WebSocketFrame}

theorem Unread.refl (ws : LiveWebSocket) : Unread ws ws where
  handshakeComplete := rfl
  handshakeBuffer := rfl
  clientKey := rfl
  frameParser := rfl
  fragmentOpcode := rfl
  waiting := rfl
  delivered := rfl
  atClose := rfl
  pongs := rfl
  socket := .inl ⟨rfl, rfl⟩
  state := .inl rfl

/-- **A step that reads nothing** keeps what has been heard. -/
theorem Hearing.unread (h : Hearing stream coming consumed processed ws)
    (hunread : Unread ws next) : Hearing stream coming consumed processed next := by
  have hahead : next.ahead = ws.ahead := by rw [ahead, ahead, hunread.waiting]
  have hconnected : next.tcpState = .connected →
      ws.tcpState = .connected ∧ next.readBuffer = ws.readBuffer := by
    intro htcp
    rcases hunread.socket with ⟨hsame, hbuffer⟩ | ⟨hgone, -⟩
    · exact ⟨hsame ▸ htcp, hbuffer⟩
    · rw [hgone] at htcp
      cases htcp
  have hopened : next.state = .opened → ws.state = .opened := by
    intro hopen
    rcases hunread.state with hstate | hstate | hstate | ⟨-, hstate⟩
    · exact hstate ▸ hopen
    all_goals rw [hstate] at hopen; cases hopen
  refine ⟨?_, ?_, ?_, ?_, ?_, ?_, ?_, ?_, ?_, ?_, ?_⟩
  · rw [hunread.frameParser]
    exact h.parser
  · rw [hahead]
    exact h.begun
  · intro htcp hcomplete
    obtain ⟨htcp, hbuffer⟩ := hconnected htcp
    rw [hahead, hbuffer]
    exact h.arrived htcp (hunread.handshakeComplete ▸ hcomplete)
  · intro hcomplete
    obtain ⟨hconsumed, hprocessed, hwaiting, hframes, hstate, hblank, harrived⟩ :=
      h.pending (hunread.handshakeComplete ▸ hcomplete)
    refine ⟨hconsumed, hprocessed, hunread.waiting.trans hwaiting, ?_, mt hopened hstate, ?_, ?_⟩
    · rw [hunread.frameParser]
      exact hframes
    · rw [hunread.handshakeBuffer]
      exact hblank
    · intro htcp
      obtain ⟨htcp, hbuffer⟩ := hconnected htcp
      rw [hunread.handshakeBuffer, hbuffer, hunread.clientKey]
      exact harrived htcp
  · intro htcp
    rcases hunread.socket with ⟨hsame, hbuffer⟩ | hgone
    · rw [hsame, hbuffer]
      exact h.offline (hsame ▸ htcp)
    · exact hgone
  · exact hunread.fragmentOpcode.trans h.fragmentOpcode
  · exact hunread.delivered.trans h.delivered
  · exact hunread.pongs ▸ h.pongs
  · intro hopen htcp
    rw [hunread.pongs]
    exact h.answered (hopened hopen) (hconnected htcp).1
  · exact hunread.atClose ▸ h.atClose
  · intro hwaiting herror hclosed
    rw [hunread.frameParser]
    rcases hunread.state with hstate | hstate | hstate | ⟨hopen, -⟩
    · exact h.drained (hunread.waiting ▸ hwaiting) (hstate ▸ herror) (hstate ▸ hclosed)
    · exact absurd hstate herror
    · exact absurd hstate hclosed
    · refine h.drained (hunread.waiting ▸ hwaiting) ?_ ?_ <;> rw [hopen] <;> decide

/-- The other side has written more. -/
theorem Hearing.extend (h : Hearing stream coming consumed processed ws) (text : Bytes) :
    Hearing (stream ++ text) (coming ++ text) consumed processed ws :=
  { h with
    begun := h.begun.trans (List.prefix_append _ _)
    arrived := fun htcp hcomplete => by
      rw [← List.append_assoc, h.arrived htcp hcomplete]
    pending := fun hcomplete => by
      obtain ⟨hconsumed, hprocessed, hwaiting, hframes, hstate, hblank, harrived⟩ :=
        h.pending hcomplete
      refine ⟨hconsumed, hprocessed, hwaiting, hframes, hstate, hblank, fun htcp => ?_⟩
      rw [← List.append_assoc, harrived htcp, List.append_assoc] }

/-- Some bytes arrive. -/
theorem Hearing.tcpReceives {data rest : Bytes}
    (h : Hearing stream (data ++ rest) consumed processed ws) (htcp : ws.tcpState = .connected)
    (posted : List TcpNotification) :
    Hearing stream rest consumed processed
      { ws with readBuffer := ws.readBuffer ++ data, posted := posted } :=
  { h with
    arrived := fun htcp hcomplete => by
      have harrived := h.arrived htcp hcomplete
      simp only [List.append_assoc] at harrived ⊢
      exact harrived
    pending := fun hcomplete => by
      obtain ⟨hconsumed, hprocessed, hwaiting, hframes, hstate, hblank, harrived⟩ :=
        h.pending hcomplete
      refine ⟨hconsumed, hprocessed, hwaiting, hframes, hstate, hblank, fun htcp => ?_⟩
      have harrived := harrived htcp
      simp only [List.append_assoc] at harrived ⊢
      exact harrived
    offline := fun hoff => absurd htcp hoff }

/-! ### The next frame -/

/-- What has been processed, and what waits in the parser, is in front of what was written. -/
theorem Hearing.items_prefix (h : Hearing stream coming consumed processed ws)
    (hwritten : Decodes stream written []) : processed ++ ws.frameParser.frames <+: written := by
  have hfront := (hwritten.front ((List.prefix_append _ _).trans h.begun)).2
  rwa [← h.parser.frames] at hfront

/-- The frame is one that `sendFrame` of the other side has made, so it is accepted. -/
theorem processFrame_of_outgoing {frame : WebSocketFrame}
    (h : frame.Outgoing (!ws.clientMode)) :
    ws.processFrame frame =
      match frame.opcode with
      | .ping => ws.sendFrame .pong frame.payload true
      | .pong => ws.emit (.pongReceived frame.payload)
      | .close =>
          { (if ws.closeFrameSent then ws
              else { ws.sendFrame .close frame.payload false with closeFrameSent := true }) with
            state := .closing
            atClose := ws.atClose <|> some ws.delivered }.socketClose
      | _ => ws.emit (WebSocketSession.message frame.opcode frame.payload) := by
  have hclient : ¬(ws.clientMode = false ∧ frame.masked = false) := by
    rw [h.masked]
    cases ws.clientMode <;> decide
  have hserver : ¬(ws.clientMode = true ∧ frame.masked = true) := by
    rw [h.masked]
    cases ws.clientMode <;> decide
  rw [processFrame, if_neg hclient, if_neg hserver]
  cases hopcode : frame.opcode with
  | continuation => exact absurd hopcode h.continues
  | text | binary => exact if_pos h.fin
  | ping | pong | close => rfl

theorem signalsOf_snoc (processed : List WebSocketFrame) (frame : WebSocketFrame) :
    signalsOf (processed ++ [frame]) =
      signalsOf processed ++ frame.notification.toList := by
  rw [signalsOf, signalsOf, List.filterMap_append]
  cases h : frame.notification with
  | none => rw [List.filterMap_cons_none h]; rfl
  | some signal => rw [List.filterMap_cons_some h]; rfl

theorem payloadsOf_snoc_of_ne {opcode : OpCode} {frame : WebSocketFrame}
    (h : frame.opcode ≠ opcode) (frames : List WebSocketFrame) :
    payloadsOf opcode (frames ++ [frame]) = payloadsOf opcode frames := by
  have hnil : payloadsOf opcode [frame] = [] :=
    payloadsOf_nil_of fun g hg => List.mem_singleton.mp hg ▸ h
  rw [payloadsOf_append, hnil, List.append_nil]

theorem payloadsOf_snoc {opcode : OpCode} {frame : WebSocketFrame} (h : frame.opcode = opcode)
    (frames : List WebSocketFrame) :
    payloadsOf opcode (frames ++ [frame]) = payloadsOf opcode frames ++ [frame.payload] := by
  have hone : payloadsOf opcode [frame] = [frame.payload] := by simp [payloadsOf, h]
  rw [payloadsOf_append, hone]

/-- What becomes of the frame that is processed. -/
structure Takes (ws : LiveWebSocket) (frame : WebSocketFrame) (frames : List WebSocketFrame)
    (next : LiveWebSocket) : Prop where
  handshakeComplete : next.handshakeComplete = true
  frameParser : next.frameParser = { ws.frameParser with frames := frames }
  waiting : next.waiting = some .draining
  fragmentOpcode : next.fragmentOpcode = ws.fragmentOpcode
  socket : next.tcpState = ws.tcpState ∧ next.readBuffer = ws.readBuffer ∨
    next.tcpState = .disconnected ∧ next.readBuffer = []
  state : next.state = .opened → ws.state = .opened
  delivered : next.delivered = ws.delivered ++ frame.notification.toList
  /-- A ping is answered just if the connection is open. -/
  pongs :
    (frame.opcode = .ping ∧ ws.state = .opened ∧ ws.tcpState ≠ .disconnected ∧
      payloadsOf .pong next.written = payloadsOf .pong ws.written ++ [frame.payload]) ∨
    (payloadsOf .pong next.written = payloadsOf .pong ws.written ∧
      (frame.opcode = .ping → next.state = .opened → next.tcpState ≠ .connected))
  atClose : next.atClose.isSome = true ↔ ws.atClose.isSome = true ∨ frame.opcode = .close

/-- **The next frame is taken.** -/
theorem Hearing.takes {frame : WebSocketFrame} {frames : List WebSocketFrame}
    (h : Hearing stream coming consumed processed { ws with waiting := some .draining })
    (hframes : ws.frameParser.frames = frame :: frames) (ht : Takes ws frame frames next) :
    Hearing stream coming consumed (processed ++ [frame]) next := by
  have hahead : next.ahead = [] := by rw [ahead, ht.waiting]
  have hconnected : next.tcpState = .connected →
      ws.tcpState = .connected ∧ next.readBuffer = ws.readBuffer := by
    intro htcp
    rcases ht.socket with ⟨hsame, hbuffer⟩ | ⟨hgone, -⟩
    · exact ⟨hsame ▸ htcp, hbuffer⟩
    · rw [hgone] at htcp
      cases htcp
  have hdelivered : ws.delivered = signalsOf processed := h.delivered
  have hpongs : payloadsOf .pong ws.written <+: payloadsOf .ping processed := h.pongs
  have hanswered : ws.state = .opened → ws.tcpState = .connected →
      payloadsOf .pong ws.written = payloadsOf .ping processed := h.answered
  have hoffline : ws.tcpState ≠ .connected → ws.tcpState = .disconnected ∧ ws.readBuffer = [] :=
    h.offline
  refine ⟨?_, ?_, ?_, ?_, ?_, ?_, ?_, ?_, ?_, ?_, ?_⟩
  · have hparser := h.parser
    simp only [hframes] at hparser
    simp only [ht.frameParser, List.append_assoc, List.singleton_append]
    exact hparser
  · rw [hahead]
    exact h.begun
  · intro htcp _
    obtain ⟨htcp, hbuffer⟩ := hconnected htcp
    rw [hahead, hbuffer]
    refine h.arrived htcp ?_
    cases hcomplete : ws.handshakeComplete with
    | true => rfl
    | false => exact absurd (h.pending hcomplete).2.2.1 (fun hnone => by cases hnone)
  · intro hpending
    rw [ht.handshakeComplete] at hpending
    cases hpending
  · intro htcp
    rcases ht.socket with ⟨hsame, hbuffer⟩ | hgone
    · rw [hsame, hbuffer]
      exact hoffline (hsame ▸ htcp)
    · exact hgone
  · exact ht.fragmentOpcode.trans h.fragmentOpcode
  · rw [ht.delivered, signalsOf_snoc, hdelivered]
  · rcases ht.pongs with ⟨hping, hopen, hactive, heq⟩ | ⟨heq, -⟩
    · have htcp : ws.tcpState = .connected := by_contra fun hoff => hactive (hoffline hoff).1
      rw [heq, payloadsOf_snoc hping, hanswered hopen htcp]
    · rw [heq, payloadsOf_append]
      exact hpongs.trans (List.prefix_append _ _)
  · intro hopen htcp
    rcases ht.pongs with ⟨hping, -, -, heq⟩ | ⟨heq, hping⟩
    · rw [heq, payloadsOf_snoc hping, hanswered (ht.state hopen) (hconnected htcp).1]
    · rw [heq, payloadsOf_snoc_of_ne fun hopcode => hping hopcode hopen htcp]
      exact hanswered (ht.state hopen) (hconnected htcp).1
  · have hbefore : ws.atClose.isSome = true ↔ ∃ g ∈ processed, g.opcode = .close := h.atClose
    rw [ht.atClose, hbefore]
    simp only [List.mem_append, List.mem_singleton, or_and_right, exists_or, exists_eq_left]
  · exact fun hwaiting => absurd ht.waiting hwaiting

/-- A frame that is handed over. -/
theorem takes_emit {frame : WebSocketFrame} {frames : List WebSocketFrame}
    {signal : WebSocketSignal} (hcomplete : ws.handshakeComplete = true)
    (hping : frame.opcode ≠ .ping) (hclose : frame.opcode ≠ .close)
    (hnotification : frame.notification = some signal) (hsignal : signal.isNotification = true) :
    Takes ws frame frames
      ({ ws with
        frameParser := { ws.frameParser with frames := frames }
        waiting := some .draining }.emit signal) where
  handshakeComplete := hcomplete
  frameParser := rfl
  waiting := rfl
  fragmentOpcode := rfl
  socket := .inl ⟨rfl, rfl⟩
  state := id
  delivered := by
    rw [hnotification]
    change (ws.emitted ++ [signal]).filter _ = _
    rw [List.filter_append, List.filter_cons_of_pos hsignal]
    rfl
  pongs := .inr ⟨rfl, fun hopcode => absurd hopcode hping⟩
  atClose := (or_iff_left hclose).symm

/-- A ping, which is answered if the connection is open. -/
theorem takes_ping {frame : WebSocketFrame} {frames : List WebSocketFrame}
    (hcomplete : ws.handshakeComplete = true) (hping : frame.opcode = .ping) :
    Takes ws frame frames
      ({ ws with
        frameParser := { ws.frameParser with frames := frames }
        waiting := some .draining }.sendFrame .pong frame.payload true) := by
  have hnone : frame.notification = none := by rw [WebSocketFrame.notification, hping]
  have hclose : frame.opcode ≠ .close := by
    rw [hping]
    decide
  have hdelivered : ws.delivered = ws.delivered ++ frame.notification.toList := by
    rw [hnone]
    exact (List.append_nil _).symm
  rw [sendFrame]
  split
  · rename_i hopen
    exact ⟨hcomplete, rfl, rfl, rfl, .inl ⟨rfl, rfl⟩, id, hdelivered,
      .inr ⟨rfl, fun _ hstate => absurd hstate hopen.2⟩, (or_iff_left hclose).symm⟩
  · rename_i hopen
    have hstate : ws.state = .opened := by_contra fun hstate => hopen ⟨rfl, hstate⟩
    split
    · rename_i hactive
      have hpongs := @payloadsOf_snoc .pong ⟨true, .pong, ws.clientMode, frame.payload⟩ rfl
        ws.written
      refine ⟨hcomplete, rfl, rfl, rfl, .inl ⟨rfl, rfl⟩, id, hdelivered,
        .inl ⟨hping, hstate, fun hgone => ?_, hpongs⟩, (or_iff_left hclose).symm⟩
      simp [socketActive, hgone] at hactive
    · rename_i hactive
      refine ⟨hcomplete, rfl, rfl, rfl, .inl ⟨rfl, rfl⟩, id, hdelivered,
        .inr ⟨rfl, fun _ _ htcp => hactive ?_⟩, (or_iff_left hclose).symm⟩
      have hconnected : ws.tcpState = .connected := htcp
      simp [socketActive, hconnected]

/-- A Close frame, which closes the socket. -/
theorem takes_close {frame : WebSocketFrame} {frames : List WebSocketFrame} {base : LiveWebSocket}
    (hcomplete : ws.handshakeComplete = true) (hclose : frame.opcode = .close)
    (hbase : base = { ws with
      frameParser := { ws.frameParser with frames := frames }
      waiting := some .draining }) :
    Takes ws frame frames
      { (if base.closeFrameSent then base
          else { base.sendFrame .close frame.payload false with closeFrameSent := true }) with
        state := .closing
        atClose := base.atClose <|> some base.delivered }.socketClose := by
  have hnone : frame.notification = none := by rw [WebSocketFrame.notification, hclose]
  have hdelivered : ws.delivered = ws.delivered ++ frame.notification.toList := by
    rw [hnone]
    exact (List.append_nil _).symm
  have hping : ∀ tcpState : SocketState, frame.opcode = .ping →
      WebSocketState.closing = .opened → tcpState ≠ .connected := fun _ _ hopen => by cases hopen
  have htake : ∀ sent : List WebSocketFrame, (∀ g ∈ sent, g.opcode = .close) → ∀ noted,
      Takes ws frame frames
        { base with
          written := base.written ++ sent
          closeFrameSent := noted
          state := .closing
          atClose := base.atClose <|> some base.delivered }.socketClose := by
    intro sent hsent noted
    subst hbase
    have hpongs : payloadsOf .pong (ws.written ++ sent) = payloadsOf .pong ws.written := by
      have hnil : payloadsOf .pong sent = [] :=
        payloadsOf_nil_of fun g hg => by simp [hsent g hg]
      rw [payloadsOf_append, hnil, List.append_nil]
    refine ⟨hcomplete, rfl, rfl, rfl, .inr ⟨rfl, rfl⟩, (fun hopen => by cases hopen), hdelivered,
      .inr ⟨hpongs, hping _⟩, iff_of_true ?_ (.inr hclose)⟩
    cases ws.atClose <;> rfl
  cases hnoted : base.closeFrameSent with
  | true =>
      have htaken := htake [] (fun g hg => by cases hg) base.closeFrameSent
      rw [List.append_nil] at htaken
      exact htaken
  | false =>
      obtain ⟨sent, hsent, -, hkind⟩ := @sendFrame_eq base .close frame.payload false
      rw [if_neg Bool.false_ne_true, hsent]
      exact htake sent hkind true

/-- **The loop over the frames** processes the next one of them, if there is one. -/
theorem Hearing.nextFrame (h : Hearing stream coming consumed processed
      { ws with waiting := some .draining })
    (hcomplete : ws.handshakeComplete = true) (hwaiting : ws.waiting = none)
    (hwritten : Decodes stream written [])
    (hsent : ∀ frame ∈ written, frame.Outgoing (!ws.clientMode)) :
    ∃ processed', Hearing stream coming consumed processed' ws.nextFrame := by
  rw [LiveWebSocket.nextFrame]
  cases hframes : ws.frameParser.frames with
  | nil =>
      have hahead : ws.ahead = [] := by rw [ahead, hwaiting]
      refine ⟨processed, { h with begun := ?_, arrived := ?_, pending := ?_, drained := ?_ }⟩
      · rw [hahead]
        exact h.begun
      · rw [hahead]
        exact h.arrived
      · intro hpending
        rw [hcomplete] at hpending
        cases hpending
      · intro _ _ _
        exact hframes
  | cons frame frames =>
      have hmem : frame ∈ written := by
        refine (h.items_prefix hwritten).subset (List.mem_append_right _ ?_)
        change frame ∈ ws.frameParser.frames
        rw [hframes]
        exact List.mem_cons_self
      have hframe := hsent frame hmem
      have hprocess := @processFrame_of_outgoing { ws with
        frameParser := { ws.frameParser with frames := frames }
        waiting := some .draining } frame hframe
      refine ⟨processed ++ [frame], h.takes hframes ?_⟩
      dsimp only
      rw [hprocess]
      cases hopcode : frame.opcode with
      | continuation => exact absurd hopcode hframe.continues
      | text | binary =>
          exact takes_emit hcomplete (by rw [hopcode]; decide) (by rw [hopcode]; decide)
            (by rw [WebSocketFrame.notification, hopcode])
            (WebSocketSession.isNotification_message _ _)
      | pong =>
          exact takes_emit hcomplete (by rw [hopcode]; decide) (by rw [hopcode]; decide)
            (by rw [WebSocketFrame.notification, hopcode]) rfl
      | ping => exact takes_ping hcomplete hopcode
      | close => exact takes_close hcomplete hopcode rfl

/-! ### A read -/

/-- A parser that is fed does not look at the frames in front. -/
theorem feed_prepend {p : WebSocketFrameParser} (herror : p.error = "")
    (front : List WebSocketFrame) (data : Bytes) :
    { p with frames := front ++ p.frames }.feed data =
      { p.feed data with frames := front ++ (p.feed data).frames } := by
  by_cases hdata : data = []
  · rw [hdata, WebSocketFrameParser.feed_nil, WebSocketFrameParser.feed_nil]
  · rw [WebSocketFrameParser.feed_eq herror hdata,
      @WebSocketFrameParser.feed_eq { p with frames := front ++ p.frames } herror _ hdata,
      List.append_assoc]

/-- A front of the frames has no error. -/
theorem Hearing.error (h : Hearing stream coming consumed processed ws)
    (hwritten : Decodes stream written []) : ws.frameParser.error = "" := by
  have hfront := (hwritten.front ((List.prefix_append _ _).trans h.begun)).1
  exact h.parser.error_iff.mpr hfront

/-- **The bytes of a read** go through the parser. -/
theorem Hearing.processFrameBytes {base : LiveWebSocket} {data buffer : Bytes}
    {posted : List TcpNotification} (h : Hearing stream coming consumed processed ws)
    (hbase : base =
      { ws with posted := posted, readBuffer := buffer, waiting := none })
    (hcomplete : ws.handshakeComplete = true) (hbegun : consumed ++ data <+: stream)
    (harrived : ws.tcpState = .connected → consumed ++ data ++ buffer ++ coming = stream)
    (hoffline : ws.tcpState ≠ .connected → buffer = [])
    (hwritten : Decodes stream written [])
    (hsent : ∀ frame ∈ written, frame.Outgoing (!ws.clientMode)) :
    ∃ processed', Hearing stream coming (consumed ++ data) processed'
      (base.processFrameBytes data) := by
  subst hbase
  have herror := h.error hwritten
  have hparser := h.parser.feed data
  rw [feed_prepend herror] at hparser
  have hfed : (ws.frameParser.feed data).error = "" :=
    hparser.error_iff.mpr (hwritten.front hbegun).1
  have hgood : ¬(ws.frameParser.feed data).hasError = true := by
    rw [WebSocketFrameParser.hasError, hfed]
    decide
  rw [LiveWebSocket.processFrameBytes]
  simp only
  rw [if_neg hgood]
  refine @Hearing.nextFrame { ws with
    frameParser := ws.frameParser.feed data
    posted := posted
    readBuffer := buffer
    waiting := none } stream coming (consumed ++ data) processed written ?_ hcomplete rfl hwritten
    hsent
  refine { h with parser := hparser, begun := ?_, arrived := ?_, pending := ?_, offline := ?_,
                  drained := fun hnone => absurd rfl hnone }
  · change consumed ++ data ++ [] <+: stream
    rw [List.append_nil]
    exact hbegun
  · intro htcp _
    change consumed ++ data ++ [] ++ buffer ++ coming = stream
    rw [List.append_nil]
    exact harrived htcp
  · intro hpending
    rw [hcomplete] at hpending
    cases hpending
  · exact fun hoff => ⟨(h.offline hoff).1, hoffline hoff⟩

/-- What has come of the response is not its end yet, or it is accepted. -/
theorem Hearing.response {posted : List TcpNotification}
    (h : Hearing stream coming consumed processed ws) (hpending : ws.handshakeComplete = false)
    (htcp : ws.tcpState = .connected) :
    (cutBlank (ws.handshakeBuffer ++ ws.readBuffer) = none ∧
      { ws with posted := posted, readBuffer := [] }.processHandshakeBytes ws.readBuffer =
        { ws with
          posted := posted
          readBuffer := []
          handshakeBuffer := ws.handshakeBuffer ++ ws.readBuffer }) ∨
    ∃ remaining, remaining ++ coming = stream ∧
      { ws with posted := posted, readBuffer := [] }.processHandshakeBytes ws.readBuffer =
        { ws with
          posted := posted
          readBuffer := []
          handshakeBuffer := []
          handshakeComplete := true
          state := .opened
          waiting := some (.resuming remaining) } := by
  obtain ⟨-, -, -, -, -, -, harrived⟩ := h.pending hpending
  rw [processHandshakeBytes]
  simp only
  cases hcut : cutBlank (ws.handshakeBuffer ++ ws.readBuffer) with
  | none => exact .inl ⟨rfl, rfl⟩
  | some found =>
      obtain ⟨head, remaining⟩ := found
      obtain ⟨hhead, hremaining⟩ := cutBlank_front (harrived htcp) hcut
      have hvalid : validateServerHandshakeResponse (head ++ [13, 10, 13, 10]) ws.clientKey =
          .ok () := by
        rw [hhead, validateServerHandshakeResponse_build, if_neg (not_not.mpr rfl)]
      simp only [hvalid]
      exact .inr ⟨remaining, hremaining, rfl⟩

/-- **A client reads its response.** -/
theorem Hearing.processHandshakeBytes {posted : List TcpNotification}
    (h : Hearing stream coming consumed processed ws) (hpending : ws.handshakeComplete = false)
    (htcp : ws.tcpState = .connected) :
    Hearing stream coming consumed processed
      ({ ws with posted := posted, readBuffer := [] }.processHandshakeBytes ws.readBuffer) := by
  obtain ⟨hconsumed, hprocessed, hwaiting, hframes, hstate, -, harrived⟩ := h.pending hpending
  subst hconsumed hprocessed
  have hpongs : payloadsOf .pong ws.written = [] := List.prefix_nil.mp h.pongs
  rcases @Hearing.response _ _ _ _ _ posted h hpending htcp with
    ⟨hcut, heq⟩ | ⟨remaining, hremaining, heq⟩
  · rw [heq]
    refine { h with arrived := ?_, pending := ?_, offline := fun hoff => absurd htcp hoff }
    · intro _ hcomplete
      rw [hpending] at hcomplete
      cases hcomplete
    · refine fun _ => ⟨rfl, rfl, hwaiting, hframes, hstate, hcut, fun _ => ?_⟩
      rw [List.append_nil]
      exact harrived htcp
  · rw [heq]
    refine { h with begun := ⟨coming, hremaining⟩, arrived := ?_, pending := fun hcomplete => ?_,
                    offline := fun hoff => absurd htcp hoff, answered := fun _ _ => hpongs,
                    drained := fun _ _ _ => hframes }
    · intro _ _
      change [] ++ remaining ++ [] ++ coming = stream
      rw [List.nil_append, List.append_nil]
      exact hremaining
    · cases hcomplete

end LiveWebSocket

end SimplyNode
