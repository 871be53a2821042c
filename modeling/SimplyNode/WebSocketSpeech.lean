import SimplyNode.WebSocketWire

/-!
# What a WebSocket Writes

The other direction of a connection: what a `WebSocketImplNative` writes, and the errors that it
reports, while what it hears are frames that another `WebSocketImplNative` has written. The steps
are those of `LiveWebSocket`, with what arrives in them.

## Main results

* `LiveWebSocket.Hearing.step`: what has been heard, after a step.
* `LiveWebSocket.Speaking.step`: what has been written and reported, after a step.
-/

open Transition

namespace SimplyNode

open Text WebSocketHandshake

namespace LiveWebSocket

variable {ws next : LiveWebSocket} {stream coming rest consumed : Bytes}
  {processed written : List WebSocketFrame} {P : String → Prop}

/-! ### What reads nothing -/

/-- `sendFrame` reads nothing. -/
theorem Unread.sendFrame (h : Unread ws next) (opcode : OpCode) (hopcode : opcode ≠ .pong)
    (payload : Bytes) (requireOpen : Bool) :
    Unread ws (next.sendFrame opcode payload requireOpen) := by
  obtain ⟨sent, hsent, -, hkind⟩ := @sendFrame_eq next opcode payload requireOpen
  have hnil : payloadsOf .pong sent = [] :=
    payloadsOf_nil_of fun g hg => hkind g hg ▸ hopcode
  rw [hsent]
  exact { h with pongs := by rw [payloadsOf_append, hnil, List.append_nil, h.pongs] }

/-- The socket is closed, which reads nothing. -/
theorem Unread.socketClose (h : Unread ws next) : Unread ws next.socketClose :=
  { h with socket := .inr ⟨rfl, rfl⟩ }

/-- The socket fails, which reads nothing. -/
theorem Unread.socketFails (h : Unread ws next) (message : String) :
    Unread ws (next.socketFails message) :=
  { h with socket := .inr ⟨rfl, rfl⟩ }

/-- A signal that hands nothing over. -/
theorem Unread.emit (h : Unread ws next) (signal : WebSocketSignal)
    (hsignal : signal.isNotification = false) : Unread ws (next.emit signal) :=
  { h with
    delivered := by
      change (next.emitted ++ [signal]).filter _ = _
      rw [List.filter_append, List.filter_cons_of_neg (Bool.eq_false_iff.mp hsignal)]
      exact (List.append_nil _).trans h.delivered }

/-- The connection fails, which reads nothing. -/
theorem Unread.fail (h : Unread ws next) (errorMessage : String) :
    Unread ws (next.fail errorMessage) :=
  { h.emit (.errorOccurred errorMessage) rfl with state := .inr (.inl rfl) }

/-- `close` reads nothing. -/
theorem unread_close (ws : LiveWebSocket) : Unread ws ws.close := by
  rw [close]
  split
  · rename_i hopen
    have hsent := (Unread.refl ws).sendFrame .close (by decide) [] false
    exact { hsent with state := .inr (.inr (.inr ⟨hopen.1, rfl⟩)) }
  · exact (Unread.refl ws).socketClose

/-- The end of the connection reads nothing. -/
theorem unread_handleTcpDisconnected (posted : List TcpNotification) :
    Unread ws { ws with posted := posted }.handleTcpDisconnected := by
  have herror : Unread ws { ws with posted := posted, state := .error } :=
    { Unread.refl ws with state := .inr (.inl rfl) }
  have hclosed : Unread ws { ws with posted := posted, state := .closed } :=
    { Unread.refl ws with state := .inr (.inr (.inl rfl)) }
  rw [handleTcpDisconnected]
  split_ifs
  · exact herror.emit _ rfl
  · exact hclosed.emit _ rfl
  · exact hclosed

/-! ### A step of the side that hears -/

/-- What an event takes from the bytes on their way. -/
def Arrives (coming : Bytes) : WebSocketEvent → Bytes → Prop
  | .tcpReceives data, rest => data ≠ [] ∧ coming = data ++ rest
  | _, rest => rest = coming

/-- The socket of a side that hears is not connecting any more. -/
theorem Hearing.not_connecting (h : Hearing stream coming consumed processed ws) :
    ws.tcpState ≠ .connecting := by
  intro hconnecting
  have hoff := (h.offline (by rw [hconnecting]; decide)).1
  rw [hconnecting] at hoff
  cases hoff

/-- The slots return, and the next frame comes. -/
theorem Hearing.slotsReturn (h : Hearing stream coming consumed processed ws)
    (hwritten : Decodes stream written [])
    (hsent : ∀ frame ∈ written, frame.Outgoing (!ws.clientMode)) :
    ∃ consumed' processed', Hearing stream coming consumed' processed' ws.slotsReturn := by
  rw [LiveWebSocket.slotsReturn]
  split
  · have hless : Unread ws { ws with failing := ws.failing - 1 } := { Unread.refl ws with }
    exact ⟨consumed, processed, h.unread hless.socketClose⟩
  · cases hwaiting : ws.waiting with
    | none => exact ⟨consumed, processed, h⟩
    | some waiting =>
        have hcomplete : ws.handshakeComplete = true := by
          cases hcomplete : ws.handshakeComplete with
          | true => rfl
          | false =>
              have hnone := (h.pending hcomplete).2.2.1
              rw [hwaiting] at hnone
              cases hnone
        cases waiting with
        | draining =>
            have hahead : ws.ahead = [] := by rw [ahead, hwaiting]
            simp only [goesOn]
            split
            · rename_i hstop
              refine ⟨consumed, processed,
                { h with begun := ?_, arrived := ?_, pending := ?_, drained := ?_ }⟩
              · have hbegun := h.begun
                rwa [hahead] at hbegun
              · have harrived := h.arrived
                rwa [hahead] at harrived
              · intro hpending
                rw [hcomplete] at hpending
                cases hpending
              · intro _ herror hclosed
                exact absurd hstop (not_or.mpr ⟨herror, hclosed⟩)
            · have hsame : { ws with waiting := some .draining } = ws := by rw [← hwaiting]
              have hnext : Hearing stream coming consumed processed
                  { ws with waiting := some .draining } := hsame.symm ▸ h
              exact ⟨consumed, @Hearing.nextFrame { ws with waiting := none } stream coming
                consumed processed written hnext hcomplete rfl hwritten hsent⟩
        | resuming remaining =>
            have hahead : ws.ahead = remaining := by rw [ahead, hwaiting]
            simp only
            split
            · rename_i hnil
              rw [hnil] at hahead
              refine ⟨consumed, processed,
                { h with begun := ?_, arrived := ?_, pending := ?_, drained := ?_ }⟩
              · have hbegun := h.begun
                rwa [hahead] at hbegun
              · have harrived := h.arrived
                rwa [hahead] at harrived
              · intro hpending
                rw [hcomplete] at hpending
                cases hpending
              · exact fun _ => h.drained (by simp [hwaiting])
            · refine ⟨consumed ++ remaining, h.processFrameBytes rfl hcomplete ?_ ?_ ?_
                hwritten hsent⟩
              · exact hahead ▸ h.begun
              · intro htcp
                exact hahead ▸ h.arrived htcp hcomplete
              · exact fun hoff => (h.offline hoff).2

/-- What has arrived is read. -/
theorem Hearing.handleTcpReadyRead (h : Hearing stream coming consumed processed ws)
    (hidle : ws.idle = true) (posted : List TcpNotification) (hwritten : Decodes stream written [])
    (hsent : ∀ frame ∈ written, frame.Outgoing (!ws.clientMode)) :
    ∃ consumed' processed', Hearing stream coming consumed' processed'
      { ws with posted := posted }.handleTcpReadyRead := by
  have hwaiting : ws.waiting = none := by
    simp only [idle, Bool.and_eq_true, decide_eq_true_eq] at hidle
    exact hidle.1
  have hahead : ws.ahead = [] := by rw [ahead, hwaiting]
  rw [LiveWebSocket.handleTcpReadyRead]
  simp only
  split_ifs with hempty hpending
  · have hposted : Unread ws { ws with posted := posted, readBuffer := [] } :=
      { Unread.refl ws with socket := .inl ⟨rfl, hempty.symm⟩ }
    exact ⟨consumed, processed, h.unread hposted⟩
  · have htcp : ws.tcpState = .connected := by_contra fun hoff => hempty (h.offline hoff).2
    exact ⟨consumed, processed, h.processHandshakeBytes hpending htcp⟩
  · have htcp : ws.tcpState = .connected := by_contra fun hoff => hempty (h.offline hoff).2
    have hcomplete : ws.handshakeComplete = true := Bool.eq_true_of_not_eq_false hpending
    have harrived := h.arrived htcp hcomplete
    rw [hahead, List.append_nil] at harrived
    have hbase : { ws with posted := posted, readBuffer := [] } =
        { ws with posted := posted, readBuffer := [], waiting := none } := by rw [← hwaiting]
    refine ⟨consumed ++ ws.readBuffer, h.processFrameBytes hbase hcomplete ⟨coming, harrived⟩ ?_ ?_
      hwritten hsent⟩
    · intro _
      rw [List.append_nil]
      exact harrived
    · exact fun _ => rfl

/-- **A step of the side that hears**, with what arrives in it. -/
theorem Hearing.step {e : WebSocketEvent} (h : Hearing stream coming consumed processed ws)
    (hwritten : Decodes stream written [])
    (hsent : ∀ frame ∈ written, frame.Outgoing (!ws.clientMode)) (hstep : Step ws e next)
    (harrives : Arrives coming e rest) :
    ∃ consumed' processed', Hearing stream rest consumed' processed' next := by
  have hunread : Unread ws next → rest = coming →
      ∃ consumed' processed', Hearing stream rest consumed' processed' next := by
    rintro hunread rfl
    exact ⟨consumed, processed, h.unread hunread⟩
  cases e with
  | close =>
      cases hstep
      exact hunread (unread_close ws) harrives
  | send opcode payload =>
      obtain ⟨hopcode, heq⟩ := Option.ite_none_right_eq_some.mp hstep
      cases heq
      have hpong : opcode ≠ .pong := by
        rintro rfl
        revert hopcode
        decide
      exact hunread ((Unread.refl ws).sendFrame opcode hpong payload true) harrives
  | ping payload =>
      cases hstep
      refine hunread ?_ harrives
      rw [ping]
      split
      · exact (Unread.refl ws).fail _
      · exact (Unread.refl ws).sendFrame .ping (by decide) payload true
  | slotsReturn =>
      obtain ⟨-, heq⟩ := Option.ite_none_left_eq_some.mp hstep
      cases heq
      obtain rfl : rest = coming := harrives
      exact h.slotsReturn hwritten hsent
  | runs notification =>
      obtain ⟨hcan, heq⟩ := Option.ite_none_right_eq_some.mp hstep
      cases heq
      have hposted : Unread ws { ws with posted := ws.posted.erase notification } :=
        { Unread.refl ws with }
      cases notification with
      | connected => exact hunread hposted harrives
      | errorOccurred message => exact hunread (hposted.fail message) harrives
      | disconnected => exact hunread (unread_handleTcpDisconnected _) harrives
      | readyRead =>
          obtain rfl : rest = coming := harrives
          exact h.handleTcpReadyRead hcan.1 _ hwritten hsent
  | tcpConnects =>
      obtain ⟨hconnecting, -⟩ := Option.ite_none_right_eq_some.mp hstep
      exact absurd hconnecting h.not_connecting
  | tcpReceives data =>
      obtain ⟨hconnected, heq⟩ := Option.ite_none_right_eq_some.mp hstep
      cases heq
      obtain ⟨-, rfl⟩ : data ≠ [] ∧ coming = data ++ rest := harrives
      exact ⟨consumed, processed, h.tcpReceives hconnected _⟩
  | tcpEnds =>
      obtain ⟨-, heq⟩ := Option.ite_none_right_eq_some.mp hstep
      cases heq
      exact hunread (Unread.refl ws).socketClose harrives
  | tcpFails message =>
      obtain ⟨-, heq⟩ := Option.ite_none_right_eq_some.mp hstep
      cases heq
      exact hunread ((Unread.refl ws).socketFails message) harrives

/-! ### A step of the side that speaks -/

/-- The errors that an event may lead to, all but those in what the other side has written, are in
`P`. -/
structure Excused (P : String → Prop) (ws : LiveWebSocket) (e : WebSocketEvent) : Prop where
  socket : ∀ message, e = .tcpFails message → P message
  ping : ∀ payload, e = .ping payload → 125 < payload.length →
    P "WebSocket ping payload is too large"
  ends : e = .tcpEnds ∨ e = .close → ws.handshakeComplete = false →
    P "WebSocket connection closed before the handshake completed"

/-- **What a `WebSocket` keeps to.** Its errors are in `P`. -/
structure Speaking (P : String → Prop) (ws : LiveWebSocket) : Prop where
  outgoing : ∀ frame ∈ ws.written, frame.Outgoing ws.clientMode
  /-- Nothing is written behind a Close frame. -/
  last : ∀ frame ∈ ws.written.dropLast, frame.opcode ≠ .close
  noted : ws.closeFrameSent = false → ∀ frame ∈ ws.written, frame.opcode ≠ .close
  shut : ws.closeFrameSent = true → ws.state ≠ .opened ∧ ws.handshakeComplete = true
  begun : ws.handshakeComplete = false → ws.written = []
  gone : TcpNotification.disconnected ∈ ws.posted → ws.tcpState = .disconnected
  failed : ws.state = .error ∨ ws.state = .closed → ws.tcpState = .disconnected ∨ 0 < ws.failing
  reported : ∀ message, TcpNotification.errorOccurred message ∈ ws.posted → P message
  errors : ∀ errorMessage, WebSocketSignal.errorOccurred errorMessage ∈ ws.emitted → P errorMessage
  /-- A connection that ends in front of the handshake. -/
  early : ws.handshakeComplete = false → ws.state = .connecting →
    TcpNotification.disconnected ∈ ws.posted →
      P "WebSocket connection closed before the handshake completed"
  failing : 0 < ws.failing → ws.state = .error ∨ ws.handshakeComplete = true

/-- Of some more elements behind a list, one at most, the last one is left out. -/
theorem mem_of_mem_dropLast_append {α : Type*} {xs ys : List α} (h : ys.length ≤ 1) {x : α}
    (hx : x ∈ (xs ++ ys).dropLast) : x ∈ xs := by
  match ys with
  | [] =>
      rw [List.append_nil] at hx
      exact List.dropLast_subset _ hx
  | [y] => rwa [List.dropLast_concat] at hx
  | y :: z :: ys =>
      rw [List.length_cons, List.length_cons] at h
      omega

/-- A frame is written, and no Close frame is. -/
theorem Speaking.write (h : Speaking P ws) {frame : WebSocketFrame}
    (hopen : ws.closeFrameSent = false) (hcomplete : ws.handshakeComplete = true)
    (hframe : frame.Outgoing ws.clientMode) (hclose : frame.opcode ≠ .close) :
    Speaking P { ws with written := ws.written ++ [frame] } :=
  { h with
    outgoing := fun g hg => by
      rcases List.mem_append.mp hg with hg | hg
      · exact h.outgoing g hg
      · exact List.mem_singleton.mp hg ▸ hframe
    last := fun g hg => by
      rw [List.dropLast_concat] at hg
      exact h.noted hopen g hg
    noted := fun _ g hg => by
      rcases List.mem_append.mp hg with hg | hg
      · exact h.noted hopen g hg
      · exact List.mem_singleton.mp hg ▸ hclose
    begun := fun hpending => by
      change ws.handshakeComplete = false at hpending
      rw [hcomplete] at hpending
      cases hpending }

/-- A frame that needs an open connection. -/
theorem Speaking.sendFrame (h : Speaking P ws) {opcode : OpCode} {payload : Bytes}
    (hcontinues : opcode ≠ .continuation) (hclose : opcode ≠ .close)
    (hlength : payload.length < 2 ^ 63)
    (hcontrol : isControlOpcode opcode = true → payload.length ≤ 125)
    (hopened : ws.state = .opened → ws.handshakeComplete = true) :
    Speaking P (ws.sendFrame opcode payload true) := by
  rw [LiveWebSocket.sendFrame]
  split
  · exact h
  · rename_i hopen
    have hstate : ws.state = .opened := by_contra fun hstate => hopen ⟨rfl, hstate⟩
    have hnoted : ws.closeFrameSent = false := by
      cases hsent : ws.closeFrameSent with
      | false => rfl
      | true => exact absurd hstate (h.shut hsent).1
    split
    · exact h.write hnoted (hopened hstate) ⟨rfl, rfl, hcontinues, hlength, hcontrol⟩ hclose
    · exact h

/-- The socket is closed. -/
theorem Speaking.socketClose (h : Speaking P ws)
    (hearly : ws.handshakeComplete = false → ws.state = .connecting →
      P "WebSocket connection closed before the handshake completed") :
    Speaking P ws.socketClose :=
  { h with
    gone := fun _ => rfl
    early := fun hpending hstate _ => hearly hpending hstate
    failed := fun _ => .inl rfl
    reported := fun message hmem => by
      change TcpNotification.errorOccurred message ∈
        (if ws.socketActive then ws.posted ++ [.disconnected] else ws.posted) at hmem
      split at hmem
      · exact h.reported message (by simpa using hmem)
      · exact h.reported message hmem }

/-- The Close frame is written, and noted. -/
theorem Speaking.sendClose (h : Speaking P ws) {payload : Bytes} {state : WebSocketState}
    {atClose : Option (List WebSocketSignal)} (hnoted : ws.closeFrameSent = false)
    (hlength : payload.length ≤ 125) (hstate : state = .closing)
    (hcomplete : ws.handshakeComplete = true) :
    Speaking P { ws.sendFrame .close payload false with
      closeFrameSent := true, state := state, atClose := atClose } := by
  have hsend : ∀ sent : List WebSocketFrame, (∀ frame ∈ sent, frame.Outgoing ws.clientMode) →
      sent.length ≤ 1 → Speaking P { ws with
        written := ws.written ++ sent, closeFrameSent := true, state := state
        atClose := atClose } := by
    intro sent hsent hone
    refine { h with outgoing := fun g hg => ?_, last := fun g hg => ?_, noted := ?_, shut := ?_,
                    begun := ?_, failed := ?_, early := fun hpending => ?_
                    failing := fun _ => .inr hcomplete }
    · rcases List.mem_append.mp hg with hg | hg
      · exact h.outgoing g hg
      · exact hsent g hg
    · exact h.noted hnoted g (mem_of_mem_dropLast_append hone hg)
    · intro hfalse
      cases hfalse
    · exact fun _ => ⟨fun hopen => (by rw [hstate] at hopen; cases hopen), hcomplete⟩
    · intro hpending
      change ws.handshakeComplete = false at hpending
      rw [hcomplete] at hpending
      cases hpending
    · rintro (hbad | hbad) <;> rw [hstate] at hbad <;> cases hbad
    · change ws.handshakeComplete = false at hpending
      rw [hcomplete] at hpending
      cases hpending
  rw [LiveWebSocket.sendFrame, if_neg (fun hopen => Bool.false_ne_true hopen.1)]
  split
  · refine hsend _ (fun g hg => ?_) (Nat.le_refl 1)
    rw [List.mem_singleton.mp hg]
    have hlt : payload.length < 2 ^ 63 := by omega
    exact ⟨rfl, rfl, (fun hopcode => by cases hopcode), hlt, fun _ => hlength⟩
  · have hnone := hsend [] (fun g hg => by cases hg) (Nat.zero_le 1)
    rw [List.append_nil] at hnone
    exact hnone

/-- A signal that is no error, or one in `P`. -/
theorem Speaking.emit (h : Speaking P ws) {signal : WebSocketSignal}
    (hsignal : ∀ errorMessage, signal = .errorOccurred errorMessage → P errorMessage) :
    Speaking P (ws.emit signal) :=
  { h with
    errors := fun errorMessage hmem => by
      rcases List.mem_append.mp hmem with hmem | hmem
      · exact h.errors errorMessage hmem
      · exact hsignal errorMessage (List.mem_singleton.mp hmem).symm }

/-- The connection fails with an error in `P`. -/
theorem Speaking.fail (h : Speaking P ws) {errorMessage : String} (herror : P errorMessage) :
    Speaking P (ws.fail errorMessage) :=
  { @Speaking.emit ws P h (.errorOccurred errorMessage)
      (fun _ heq => by cases heq; exact herror) with
    shut := fun hsent => ⟨(fun hopen => by cases hopen), (h.shut hsent).2⟩
    failed := fun _ => .inr (Nat.succ_pos _)
    early := fun _ hstate => by cases hstate
    failing := fun _ => .inl rfl }

/-- `close`. -/
theorem Speaking.close (h : Speaking P ws)
    (hopened : ws.state = .opened → ws.handshakeComplete = true)
    (hearly : ws.handshakeComplete = false →
      P "WebSocket connection closed before the handshake completed") :
    Speaking P ws.close := by
  rw [LiveWebSocket.close]
  split
  · rename_i hopen
    exact h.sendClose hopen.2 (Nat.zero_le _) rfl (hopened hopen.1)
  · exact h.socketClose fun hpending _ => hearly hpending

/-- A frame that the other side has written. -/
theorem Speaking.processFrame (h : Speaking P ws) {frame : WebSocketFrame}
    (hframe : frame.Outgoing (!ws.clientMode)) (hcomplete : ws.handshakeComplete = true) :
    Speaking P (ws.processFrame frame) := by
  rw [processFrame_of_outgoing hframe]
  cases hopcode : frame.opcode with
  | continuation => exact absurd hopcode hframe.continues
  | text | binary =>
      refine h.emit fun errorMessage heq => ?_
      have hnotification := WebSocketSession.isNotification_message frame.opcode frame.payload
      rw [hopcode, heq] at hnotification
      cases hnotification
  | pong => exact h.emit fun _ heq => by cases heq
  | ping =>
      have hshort := hframe.control_le (by rw [hopcode]; rfl)
      exact h.sendFrame (by decide) (by decide) hframe.length_lt (fun _ => hshort) fun _ =>
        hcomplete
  | close =>
      have hshort := hframe.control_le (by rw [hopcode]; rfl)
      dsimp only
      refine Speaking.socketClose ?_ fun _ hstate => by cases hstate
      cases hnoted : ws.closeFrameSent with
      | true =>
          exact
            { h with
              shut := fun _ => ⟨(fun hopen => by cases hopen), hcomplete⟩
              failed := fun hbad => by rcases hbad with hbad | hbad <;> cases hbad
              early := fun _ hstate => by cases hstate
              failing := fun _ => .inr hcomplete }
      | false => exact h.sendClose hnoted hshort rfl hcomplete

/-- The next frame is processed. -/
theorem Speaking.nextFrame (h : Speaking P ws)
    (hframes : ∀ frame ∈ ws.frameParser.frames, frame.Outgoing (!ws.clientMode))
    (hcomplete : ws.handshakeComplete = true) : Speaking P ws.nextFrame := by
  rw [LiveWebSocket.nextFrame]
  split
  · exact h
  · rename_i frame frames heq
    have hbase : Speaking P { ws with
        frameParser := { ws.frameParser with frames := frames }
        waiting := some .draining } := { h with }
    exact hbase.processFrame (hframes frame (by rw [heq]; exact List.mem_cons_self)) hcomplete

/-- Bytes are cut into frames, and the first one is processed. -/
theorem Speaking.processFrameBytes (h : Speaking P ws) {data : Bytes}
    (herror : (ws.frameParser.feed data).error = "")
    (hframes : ∀ frame ∈ (ws.frameParser.feed data).frames, frame.Outgoing (!ws.clientMode))
    (hcomplete : ws.handshakeComplete = true) : Speaking P (ws.processFrameBytes data) := by
  have hgood : ¬(ws.frameParser.feed data).hasError = true := by
    rw [WebSocketFrameParser.hasError, herror]
    decide
  rw [LiveWebSocket.processFrameBytes]
  simp only
  rw [if_neg hgood]
  have hfed : Speaking P { ws with frameParser := ws.frameParser.feed data } := { h with }
  exact hfed.nextFrame hframes hcomplete

/-- What a read finds is what the other side has written. -/
theorem Hearing.fed {data : Bytes} (h : Hearing stream coming consumed processed ws)
    (hwritten : Decodes stream written []) (hbegun : consumed ++ data <+: stream) :
    (ws.frameParser.feed data).error = "" ∧
      ∀ frame ∈ (ws.frameParser.feed data).frames, frame ∈ written := by
  have hparser := h.parser.feed data
  rw [feed_prepend (h.error hwritten)] at hparser
  obtain ⟨herror, hitems⟩ := hwritten.front hbegun
  rw [← hparser.frames] at hitems
  exact ⟨hparser.error_iff.mpr herror, fun frame hframe =>
    hitems.subset (List.mem_append_right _ hframe)⟩

/-- An open connection has its handshake behind it. -/
theorem Hearing.opened (h : Hearing stream coming consumed processed ws)
    (hopen : ws.state = .opened) : ws.handshakeComplete = true := by
  cases hcomplete : ws.handshakeComplete with
  | true => rfl
  | false => exact absurd hopen (h.pending hcomplete).2.2.2.2.1

/-- A handler waits behind the handshake only. -/
theorem Hearing.waits (h : Hearing stream coming consumed processed ws) {waiting : Waiting}
    (hwaiting : ws.waiting = some waiting) : ws.handshakeComplete = true := by
  cases hcomplete : ws.handshakeComplete with
  | true => rfl
  | false =>
      have hnone := (h.pending hcomplete).2.2.1
      rw [hwaiting] at hnone
      cases hnone

/-- The slots return. -/
theorem Speaking.slotsReturn (h : Speaking P ws)
    (hear : Hearing stream coming consumed processed ws) (hwritten : Decodes stream written [])
    (hsent : ∀ frame ∈ written, frame.Outgoing (!ws.clientMode)) : Speaking P ws.slotsReturn := by
  have hnone : Speaking P { ws with waiting := none } := { h with }
  rw [LiveWebSocket.slotsReturn]
  split
  · rename_i hfailing
    have hearly : ws.handshakeComplete = false → ws.state = .connecting →
        P "WebSocket connection closed before the handshake completed" := by
      intro hpending hstate
      rcases h.failing hfailing with herror | hcomplete
      · rw [hstate] at herror
        cases herror
      · rw [hpending] at hcomplete
        cases hcomplete
    have hless : Speaking P ({ ws with failing := ws.failing - 1 }.socketClose) :=
      { h.socketClose hearly with
        failed := fun _ => .inl rfl
        failing := fun _ => h.failing hfailing }
    exact hless
  · cases hwaiting : ws.waiting with
    | none => exact h
    | some waiting =>
        have hcomplete := hear.waits hwaiting
        cases waiting with
        | draining =>
            simp only [goesOn]
            split
            · exact hnone
            · refine hnone.nextFrame (fun frame hframe => hsent frame ?_) hcomplete
              exact (hear.items_prefix hwritten).subset (List.mem_append_right _ hframe)
        | resuming remaining =>
            have hahead : ws.ahead = remaining := by rw [ahead, hwaiting]
            obtain ⟨herror, hframes⟩ := hear.fed hwritten (hahead ▸ hear.begun)
            simp only
            split
            · exact hnone
            · exact hnone.processFrameBytes herror (fun frame hframe =>
                hsent frame (hframes frame hframe)) hcomplete

/-- What has arrived is read. -/
theorem Speaking.handleTcpReadyRead (h : Speaking P ws)
    (hear : Hearing stream coming consumed processed ws) (hidle : ws.idle = true)
    (hwritten : Decodes stream written [])
    (hsent : ∀ frame ∈ written, frame.Outgoing (!ws.clientMode)) {posted : List TcpNotification}
    (hposted : ∀ notification ∈ posted, notification ∈ ws.posted) :
    Speaking P { ws with posted := posted }.handleTcpReadyRead := by
  have hwaiting : ws.waiting = none := by
    simp only [idle, Bool.and_eq_true, decide_eq_true_eq] at hidle
    exact hidle.1
  have hahead : ws.ahead = [] := by rw [ahead, hwaiting]
  have hbase : Speaking P { ws with posted := posted, readBuffer := [] } :=
    { h with
      gone := fun hmem => h.gone (hposted _ hmem)
      reported := fun message hmem => h.reported message (hposted _ hmem)
      early := fun hpending hstate hmem => h.early hpending hstate (hposted _ hmem) }
  rw [LiveWebSocket.handleTcpReadyRead]
  simp only
  split_ifs with hempty hpending
  · exact hbase
  · have htcp : ws.tcpState = .connected := by_contra fun hoff => hempty (hear.offline hoff).2
    rcases @Hearing.response _ _ _ _ _ posted hear hpending htcp with
      ⟨-, heq⟩ | ⟨remaining, -, heq⟩
    · rw [heq]
      exact { hbase with }
    · have hnoted : ws.closeFrameSent = false := by
        cases hnoted : ws.closeFrameSent with
        | false => rfl
        | true =>
            have hcomplete := (h.shut hnoted).2
            rw [hpending] at hcomplete
            cases hcomplete
      rw [heq]
      exact
        { hbase with
          shut := fun hclosed => by
            change ws.closeFrameSent = true at hclosed
            rw [hnoted] at hclosed
            cases hclosed
          begun := fun hcomplete => by cases hcomplete
          failed := fun hbad => by rcases hbad with hbad | hbad <;> cases hbad
          early := fun hcomplete => by cases hcomplete
          failing := fun _ => .inr rfl }
  · have htcp : ws.tcpState = .connected := by_contra fun hoff => hempty (hear.offline hoff).2
    have hcomplete : ws.handshakeComplete = true := Bool.eq_true_of_not_eq_false hpending
    have harrived := hear.arrived htcp hcomplete
    rw [hahead, List.append_nil] at harrived
    obtain ⟨herror, hframes⟩ := hear.fed hwritten ⟨coming, harrived⟩
    exact hbase.processFrameBytes herror (fun frame hframe => hsent frame (hframes frame hframe))
      hcomplete

/-- What a call can be made with: a vector holds less than `2 ^ 63` bytes. -/
def Fits : WebSocketEvent → Prop
  | .send _ payload => payload.length < 2 ^ 63
  | _ => True

/-- **A step of the side that speaks.** -/
theorem Speaking.step {e : WebSocketEvent} (h : Speaking P ws)
    (hear : Hearing stream coming consumed processed ws) (hwritten : Decodes stream written [])
    (hsent : ∀ frame ∈ written, frame.Outgoing (!ws.clientMode)) (hfits : Fits e)
    (hexcused : Excused P ws e) (hstep : Step ws e next) :
    Speaking P next := by
  cases e with
  | close =>
      cases hstep
      exact h.close hear.opened (hexcused.ends (.inr rfl))
  | send opcode payload =>
      obtain ⟨hopcode, heq⟩ := Option.ite_none_right_eq_some.mp hstep
      cases heq
      have hkind : opcode ≠ .continuation ∧ opcode ≠ .close ∧ isControlOpcode opcode = false := by
        rcases hopcode with rfl | rfl <;> decide
      refine h.sendFrame hkind.1 hkind.2.1 hfits (fun hcontrol => ?_) hear.opened
      rw [hkind.2.2] at hcontrol
      cases hcontrol
  | ping payload =>
      cases hstep
      rw [ping]
      split
      · exact h.fail (hexcused.ping payload rfl ‹_›)
      · rename_i hshort
        exact h.sendFrame (by decide) (by decide) (by omega) (fun _ => by omega) hear.opened
  | slotsReturn =>
      obtain ⟨-, heq⟩ := Option.ite_none_left_eq_some.mp hstep
      cases heq
      exact h.slotsReturn hear hwritten hsent
  | runs notification =>
      obtain ⟨hcan, heq⟩ := Option.ite_none_right_eq_some.mp hstep
      cases heq
      have hposted : Speaking P { ws with posted := ws.posted.erase notification } :=
        { h with
          gone := fun hmem => h.gone (List.mem_of_mem_erase hmem)
          reported := fun message hmem => h.reported message (List.mem_of_mem_erase hmem)
          early := fun hpending hstate hmem =>
            h.early hpending hstate (List.mem_of_mem_erase hmem) }
      cases notification with
      | connected => exact hposted
      | errorOccurred message => exact hposted.fail (h.reported message hcan.2)
      | readyRead =>
          exact h.handleTcpReadyRead hear hcan.1 hwritten hsent fun _ => List.mem_of_mem_erase
      | disconnected =>
          have hgone := h.gone hcan.2
          have hidle : ¬0 < ws.failing := by
            simp only [idle, Bool.and_eq_true, decide_eq_true_eq] at hcan
            omega
          have hstate : ∀ state, state = .error ∨ state = .closed → Speaking P { ws with
              posted := ws.posted.erase .disconnected, state := state } := fun state heq =>
            { hposted with
              shut := fun hnoted => by
                refine ⟨fun hopen => ?_, (h.shut hnoted).2⟩
                rcases heq with rfl | rfl <;> cases hopen
              failed := fun _ => .inl hgone
              early := fun _ hconnecting => by rcases heq with rfl | rfl <;> cases hconnecting
              failing := fun hfailing => absurd hfailing hidle }
          rw [handle, handleTcpDisconnected]
          split_ifs with hpending
          · exact (hstate .error (.inl rfl)).emit fun _ heq => by
              cases heq
              exact h.early hpending.2 hpending.1 hcan.2
          · exact (hstate .closed (.inr rfl)).emit fun _ heq => by cases heq
          · exact hstate .closed (.inr rfl)
  | tcpConnects =>
      obtain ⟨hconnecting, -⟩ := Option.ite_none_right_eq_some.mp hstep
      exact absurd hconnecting hear.not_connecting
  | tcpReceives data =>
      obtain ⟨-, heq⟩ := Option.ite_none_right_eq_some.mp hstep
      cases heq
      exact
        { h with
          gone := fun hmem => h.gone (by simpa using hmem)
          reported := fun message hmem => h.reported message (by simpa using hmem)
          early := fun hpending hstate hmem => h.early hpending hstate (by simpa using hmem) }
  | tcpEnds =>
      obtain ⟨-, heq⟩ := Option.ite_none_right_eq_some.mp hstep
      cases heq
      exact h.socketClose fun hpending _ => hexcused.ends (.inl rfl) hpending
  | tcpFails message =>
      obtain ⟨-, heq⟩ := Option.ite_none_right_eq_some.mp hstep
      cases heq
      refine { h with gone := fun _ => rfl, failed := fun _ => .inl rfl, reported := ?_
                      early := fun hpending hstate hmem => ?_ }
      · intro text hmem
        rcases List.mem_append.mp hmem with hmem | hmem
        · exact h.reported text hmem
        · cases List.mem_singleton.mp hmem
          exact hexcused.socket message rfl
      · rcases List.mem_append.mp hmem with hmem | hmem
        · exact h.early hpending hstate hmem
        · cases List.mem_singleton.mp hmem

/-- A step keeps the mode. -/
theorem clientMode_step {e : WebSocketEvent} (hstep : Step ws e next) :
    next.clientMode = ws.clientMode := by
  cases hcomes : ws.comes e with
  | nil => exact (quiet_step hcomes hstep).clientMode
  | cons frame frames =>
      obtain ⟨base, hpoised, rfl⟩ := step_frame hcomes hstep
      rw [← hpoised.clientMode]
      rcases base.processFrame_cases frame with ⟨-, errorMessage, hfail⟩ | ⟨-, -, hframe⟩ |
        ⟨-, -, hframe⟩
      · rw [hfail, LiveWebSocket.fail]
      · obtain ⟨sent, heq, -⟩ := hframe.eq
        rw [heq]
        rfl
      · obtain ⟨signals, sent, fragmentPayload, heq, -⟩ := hframe.eq
        rw [heq]

/-- **Where nothing waits** and nothing is on its way, all that was written has been processed. -/
theorem Hearing.caughtUp (h : Hearing stream [] consumed processed ws)
    (hwritten : Decodes stream written []) (htcp : ws.tcpState = .connected)
    (hidle : ws.idle = true) (hbuffer : ws.readBuffer = []) (herror : ws.state ≠ .error)
    (hclosed : ws.state ≠ .closed) : ws.handshakeComplete = true ∧ processed = written := by
  have hwaiting : ws.waiting = none := by
    simp only [idle, Bool.and_eq_true, decide_eq_true_eq] at hidle
    exact hidle.1
  have hahead : ws.ahead = [] := by rw [ahead, hwaiting]
  have hcomplete : ws.handshakeComplete = true := by
    cases hcomplete : ws.handshakeComplete with
    | true => rfl
    | false =>
        obtain ⟨-, -, -, -, -, hblank, harrived⟩ := h.pending hcomplete
        have hresponse := harrived htcp
        rw [hbuffer, List.append_nil, List.append_nil] at hresponse
        rw [hresponse, Upgrade.cutBlank_append (cutBlank_response ws.clientKey) stream] at hblank
        cases hblank
  refine ⟨hcomplete, ?_⟩
  have harrived := h.arrived htcp hcomplete
  rw [hahead, hbuffer, List.append_nil, List.append_nil, List.append_nil] at harrived
  have hframes := h.drained (by rw [hwaiting]; simp) herror hclosed
  have hitems := h.parser.frames
  rw [hframes, List.append_nil, harrived, hwritten.found] at hitems
  exact hitems

/-! ### In the beginning -/

/-- A `WebSocket` that has done nothing yet. -/
structure Fresh (ws : LiveWebSocket) : Prop where
  written : ws.written = []
  closeFrameSent : ws.closeFrameSent = false
  posted : ws.posted = []
  emitted : ws.emitted = []
  state : ws.state = .opened ∨ ws.state = .connecting ∧ ws.handshakeComplete = false
  complete : ws.state = .opened → ws.handshakeComplete = true
  frameParser : ws.frameParser = {}
  waiting : ws.waiting = none
  fragmentOpcode : ws.fragmentOpcode = .continuation
  handshakeBuffer : ws.handshakeBuffer = []
  tcpState : ws.tcpState = .connected
  readBuffer : ws.readBuffer = []
  atClose : ws.atClose = none
  failing : ws.failing = 0

/-- A `WebSocket` that has done nothing speaks. -/
theorem Fresh.speaking (h : Fresh ws) : Speaking P ws where
  outgoing frame hframe := by rw [h.written] at hframe; cases hframe
  last frame hframe := by rw [h.written] at hframe; cases hframe
  noted _ frame hframe := by rw [h.written] at hframe; cases hframe
  shut hnoted := by rw [h.closeFrameSent] at hnoted; cases hnoted
  begun _ := h.written
  gone hmem := by rw [h.posted] at hmem; cases hmem
  failed hbad := by
    rcases h.state with hstate | ⟨hstate, -⟩ <;> rw [hstate] at hbad <;>
      rcases hbad with hbad | hbad <;> cases hbad
  reported message hmem := by rw [h.posted] at hmem; cases hmem
  errors errorMessage hmem := by rw [h.emitted] at hmem; cases hmem
  early _ _ hmem := by rw [h.posted] at hmem; cases hmem
  failing hfailing := by rw [h.failing] at hfailing; exact absurd hfailing (Nat.lt_irrefl 0)

/-- A `WebSocket` that has done nothing hears what is coming. -/
theorem Fresh.hearing (h : Fresh ws) (hcoming : coming =
    if ws.handshakeComplete then [] else buildServerHandshakeResponse ws.clientKey) :
    Hearing [] coming [] [] ws where
  parser := by rw [h.frameParser]; exact .nil
  begun := by
    rw [ahead, h.waiting]
    exact List.prefix_rfl
  arrived _ hcomplete := by
    rw [hcomplete, if_pos rfl] at hcoming
    rw [ahead, h.waiting, h.readBuffer, hcoming]
    rfl
  pending hpending := by
    rw [hpending, if_neg Bool.false_ne_true] at hcoming
    refine ⟨rfl, rfl, h.waiting, by rw [h.frameParser], fun hopen => ?_, ?_, fun _ => ?_⟩
    · rw [h.complete hopen] at hpending
      cases hpending
    · rw [h.handshakeBuffer]
      rfl
    · rw [h.handshakeBuffer, h.readBuffer, hcoming, List.append_nil]
      rfl
  offline hoff := absurd h.tcpState hoff
  fragmentOpcode := h.fragmentOpcode
  delivered := by rw [delivered, h.emitted]; rfl
  pongs := by
    rw [h.written]
    exact List.prefix_rfl
  answered _ _ := by rw [h.written]; rfl
  atClose := by simp [h.atClose]
  drained _ _ _ := by rw [h.frameParser]

end LiveWebSocket

end SimplyNode
