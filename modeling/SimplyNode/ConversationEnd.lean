import SimplyNode.Conversation

/-!
# The End of a Conversation

Conversations in which nothing goes wrong: no socket reports an error, no ping is too large, and
`close` is called on open connections only. Then neither side fails, and both sides come to the same
end: wherever nothing is left to be done, both connections are open and all that was written has
been handed over, or both are closed and each has announced it once.

## Main results

* `LiveWebSocket.Settled.step`: what a step of one side keeps.
* `Conversation.agreement`: **the two sides agree** where nothing is left to be done.
-/

open Transition

namespace SimplyNode

open Text WebSocketHandshake

namespace LiveWebSocket

variable {ws next : LiveWebSocket} {stream coming rest consumed : Bytes}
  {processed written : List WebSocketFrame} {P : String → Prop} {Q : Prop}

/-! ### One side -/

/-- The socket is connected, or it is not any more. -/
def TcpSettled (ws : LiveWebSocket) : Prop :=
  ws.tcpState = .connected ∨ ws.tcpState = .disconnected

/-- Who hears the other side has a settled socket. -/
theorem Hearing.tcp (h : Hearing stream coming consumed processed ws) : ws.TcpSettled :=
  or_iff_not_imp_left.mpr fun hoff => (h.offline hoff).1

/-- How often the end of the connection is posted, or has been announced. -/
def ends (ws : LiveWebSocket) : ℕ :=
  ws.posted.count .disconnected + ws.emitted.count .disconnected

/-- A Close frame has been written. -/
def SaidClose (ws : LiveWebSocket) : Prop := ∃ frame ∈ ws.written, frame.opcode = .close

/-- **What a `WebSocket` keeps to** where nothing goes wrong. Its socket is closed behind a Close
frame, or for the reason `Q`. -/
structure Settled (Q : Prop) (ws : LiveWebSocket) : Prop where
  failing : ws.failing = 0
  healthy : ws.state ≠ .error
  posted : ∀ message, TcpNotification.errorOccurred message ∉ ws.posted
  silent : ∀ errorMessage, WebSocketSignal.errorOccurred errorMessage ∉ ws.emitted
  connected : ws.tcpState = .connected → ws.ends = 0 ∧ ws.atClose = none
  gone : ws.tcpState = .disconnected → ws.handshakeComplete = true ∧ ws.ends = 1 ∧
    (ws.atClose.isSome = true ∨ Q)
  closed : ws.state = .closed ↔ WebSocketSignal.disconnected ∈ ws.emitted
  stopped : ws.state = .closed → ws.waiting = none ∧ ws.tcpState = .disconnected
  closing : ws.state = .closing → ws.tcpState = .connected → ws.SaidClose
  connecting : ws.state = .connecting → ws.handshakeComplete = false

/-- More frames behind a Close frame do not unsay it. -/
theorem SaidClose.append (h : ws.SaidClose) (sent : List WebSocketFrame) :
    SaidClose { ws with written := ws.written ++ sent } := by
  obtain ⟨frame, hframe, hopcode⟩ := h
  exact ⟨frame, List.mem_append_left _ hframe, hopcode⟩

/-- `sendFrame` keeps to it. -/
theorem Settled.sendFrame (h : Settled Q ws) (opcode : OpCode) (payload : Bytes)
    (requireOpen : Bool) : Settled Q (ws.sendFrame opcode payload requireOpen) := by
  obtain ⟨sent, hsent, -⟩ := @sendFrame_eq ws opcode payload requireOpen
  rw [hsent]
  exact { h with closing := fun hstate htcp => (h.closing hstate htcp).append sent }

/-- A signal that hands something over. -/
theorem Settled.emit (h : Settled Q ws) {signal : WebSocketSignal}
    (hsignal : signal.isNotification = true) : Settled Q (ws.emit signal) := by
  have hends : signal ≠ .disconnected := fun heq => by rw [heq] at hsignal; cases hsignal
  have hcount : (ws.emit signal).ends = ws.ends := by
    change ws.posted.count _ + (ws.emitted ++ [signal]).count _ = ws.posted.count _ + _
    rw [List.count_append, List.count_singleton, if_neg (by simpa using hends), Nat.add_zero]
  refine { h with silent := fun errorMessage hmem => ?_, connected := ?_, gone := ?_, closed := ?_ }
  · rcases List.mem_append.mp hmem with hmem | hmem
    · exact h.silent errorMessage hmem
    · rw [← List.mem_singleton.mp hmem] at hsignal
      cases hsignal
  · rw [hcount]
    exact h.connected
  · rw [hcount]
    exact h.gone
  · refine h.closed.trans ?_
    change _ ↔ WebSocketSignal.disconnected ∈ ws.emitted ++ [signal]
    simp [hends.symm]

/-- The end is announced once when the socket closes. -/
theorem Settled.ends_socketClose (h : Settled Q ws) (htcp : ws.TcpSettled) :
    ws.socketClose.ends = 1 := by
  change (if ws.socketActive then ws.posted ++ [.disconnected] else ws.posted).count _ +
    ws.emitted.count _ = 1
  rcases htcp with hstate | hstate
  · have hends : ws.posted.count .disconnected + ws.emitted.count .disconnected = 0 :=
      (h.connected hstate).1
    rw [if_pos (by simp [socketActive, hstate]), List.count_append, List.count_singleton_self]
    omega
  · rw [if_neg (by simp [socketActive, hstate])]
    exact (h.gone hstate).2.1

/-- Closing posts no error. -/
theorem Settled.posted_socketClose (h : Settled Q ws) (message : String) :
    TcpNotification.errorOccurred message ∉ ws.socketClose.posted := by
  intro hmem
  change _ ∈ (if ws.socketActive then ws.posted ++ [.disconnected] else ws.posted) at hmem
  split at hmem
  · exact h.posted message (by simpa using hmem)
  · exact h.posted message hmem

/-- The socket is closed, once the handshake is complete. -/
theorem Settled.socketClose (h : Settled Q ws) (hcomplete : ws.handshakeComplete = true)
    (htcp : ws.TcpSettled) (hQ : Q) :
    Settled Q ws.socketClose :=
  { h with
    posted := h.posted_socketClose
    connected := fun hconnected => by cases hconnected
    gone := fun _ => ⟨hcomplete, h.ends_socketClose htcp, .inr hQ⟩
    stopped := fun hclosed => ⟨(h.stopped hclosed).1, rfl⟩
    closing := fun _ hconnected => by cases hconnected }

/-- A Close frame of the other side, which closes the socket. -/
theorem Settled.closes (h : Settled Q ws) (hcomplete : ws.handshakeComplete = true)
    (htcp : ws.TcpSettled) (hopen : ws.state ≠ .closed) (hnext : Closes ws next) :
    Settled Q next := by
  obtain ⟨sent, rfl, -⟩ := hnext.eq
  have hends := h.ends_socketClose htcp
  refine { h with healthy := fun hstate => ?_, posted := h.posted_socketClose,
                  connected := fun hconnected => ?_, gone := fun _ => ⟨hcomplete, hends, .inl ?_⟩,
                  closed := ?_, stopped := fun hstate => ?_, closing := fun _ hconnected => ?_,
                  connecting := fun hstate => ?_ }
  · cases hstate
  · cases hconnected
  · change (ws.atClose <|> some ws.delivered).isSome = true
    cases ws.atClose <;> rfl
  · refine iff_of_false (fun hstate => ?_) (mt h.closed.mpr hopen)
    cases hstate
  · cases hstate
  · cases hconnected
  · cases hstate

/-- A frame that the other side has written. -/
theorem Settled.processFrame (h : Settled Q ws) {frame : WebSocketFrame}
    (hframe : frame.Outgoing (!ws.clientMode)) (hcomplete : ws.handshakeComplete = true)
    (htcp : ws.TcpSettled) (hopen : ws.state ≠ .closed) :
    Settled Q (ws.processFrame frame) := by
  by_cases hclose : frame.opcode = .close
  · have haccepted : frame.accepted ws.clientMode ws.fragmentOpcode = true := by
      rw [WebSocketFrame.accepted, decide_eq_true_eq]
      exact ⟨hframe.masked, fun hopcode => absurd hopcode hframe.continues⟩
    have hcloses := processFrame_accepted haccepted
    rw [if_pos hclose] at hcloses
    exact h.closes hcomplete htcp hopen hcloses
  · rw [processFrame_of_outgoing hframe]
    cases hopcode : frame.opcode with
    | continuation => exact absurd hopcode hframe.continues
    | text | binary =>
        refine h.emit ?_
        rw [← hopcode]
        exact WebSocketSession.isNotification_message _ _
    | pong => exact h.emit rfl
    | ping => exact h.sendFrame .pong frame.payload true
    | close => exact absurd hopcode hclose

/-- Processing a frame of the other side keeps to it. -/
theorem Settled.nextFrame (h : Settled Q ws)
    (hframes : ∀ frame ∈ ws.frameParser.frames, frame.Outgoing (!ws.clientMode))
    (hcomplete : ws.handshakeComplete = true) (htcp : ws.TcpSettled)
    (hopen : ws.state ≠ .closed) : Settled Q ws.nextFrame := by
  rw [LiveWebSocket.nextFrame]
  split
  · exact h
  · rename_i frame frames heq
    have hbase : Settled Q { ws with
        frameParser := { ws.frameParser with frames := frames }
        waiting := some .draining } :=
      { h with stopped := fun hclosed => absurd hclosed hopen }
    exact hbase.processFrame (hframes frame (by rw [heq]; exact List.mem_cons_self)) hcomplete htcp
      hopen

/-- So does reading bytes of the other side. -/
theorem Settled.processFrameBytes (h : Settled Q ws) {data : Bytes}
    (herror : (ws.frameParser.feed data).error = "")
    (hframes : ∀ frame ∈ (ws.frameParser.feed data).frames, frame.Outgoing (!ws.clientMode))
    (hcomplete : ws.handshakeComplete = true) (htcp : ws.TcpSettled)
    (hopen : ws.state ≠ .closed) : Settled Q (ws.processFrameBytes data) := by
  have hgood : ¬(ws.frameParser.feed data).hasError = true := by
    rw [WebSocketFrameParser.hasError, herror]
    decide
  rw [LiveWebSocket.processFrameBytes]
  simp only
  rw [if_neg hgood]
  have hfed : Settled Q { ws with frameParser := ws.frameParser.feed data } := { h with }
  exact hfed.nextFrame hframes hcomplete htcp hopen

/-- So does the return of the slots. -/
theorem Settled.slotsReturn (h : Settled Q ws)
    (hear : Hearing stream coming consumed processed ws) (hwritten : Decodes stream written [])
    (hsent : ∀ frame ∈ written, frame.Outgoing (!ws.clientMode)) : Settled Q ws.slotsReturn := by
  have hnone : Settled Q { ws with waiting := none } :=
    { h with stopped := fun hclosed => ⟨rfl, (h.stopped hclosed).2⟩ }
  have htcp := hear.tcp
  rw [LiveWebSocket.slotsReturn, if_neg (by rw [h.failing]; exact Nat.lt_irrefl 0)]
  cases hwaiting : ws.waiting with
  | none => exact h
  | some waiting =>
      have hcomplete := hear.waits hwaiting
      have hopen : ws.state ≠ .closed := fun hclosed => by
        have hstopped := (h.stopped hclosed).1
        rw [hwaiting] at hstopped
        cases hstopped
      cases waiting with
      | draining =>
          simp only [goesOn]
          split
          · exact hnone
          · refine hnone.nextFrame (fun frame hframe => hsent frame ?_) hcomplete htcp hopen
            exact (hear.items_prefix hwritten).subset (List.mem_append_right _ hframe)
      | resuming remaining =>
          have hahead : ws.ahead = remaining := by rw [ahead, hwaiting]
          obtain ⟨herror, hframes⟩ := hear.fed hwritten (hahead ▸ hear.begun)
          simp only
          split
          · exact hnone
          · exact hnone.processFrameBytes herror (fun frame hframe =>
              hsent frame (hframes frame hframe)) hcomplete htcp hopen

/-- So does `readyRead`. -/
theorem Settled.handleTcpReadyRead (h : Settled Q ws)
    (hear : Hearing stream coming consumed processed ws) (hidle : ws.idle = true)
    (hwritten : Decodes stream written [])
    (hsent : ∀ frame ∈ written, frame.Outgoing (!ws.clientMode)) :
    Settled Q { ws with posted := ws.posted.erase .readyRead }.handleTcpReadyRead := by
  have hwaiting : ws.waiting = none := by
    simp only [idle, Bool.and_eq_true, decide_eq_true_eq] at hidle
    exact hidle.1
  have hahead : ws.ahead = [] := by rw [ahead, hwaiting]
  have hcount : (ws.posted.erase .readyRead).count .disconnected = ws.posted.count .disconnected :=
    List.count_erase_of_ne (by decide)
  have hbase : Settled Q { ws with posted := ws.posted.erase .readyRead, readBuffer := [] } :=
    { h with
      posted := fun message hmem => h.posted message (List.mem_of_mem_erase hmem)
      connected := by rw [ends, hcount]; exact h.connected
      gone := by rw [ends, hcount]; exact h.gone }
  rw [LiveWebSocket.handleTcpReadyRead]
  simp only
  split_ifs with hempty hpending
  · exact hbase
  · have htcp : ws.tcpState = .connected := by_contra fun hoff => hempty (hear.offline hoff).2
    rcases @Hearing.response _ _ _ _ _ (ws.posted.erase .readyRead) hear hpending htcp with
      ⟨-, heq⟩ | ⟨remaining, -, heq⟩
    · rw [heq]
      exact { hbase with }
    · rw [heq]
      have hopen : ws.state ≠ .closed := fun hclosed => by
        have hgone := (h.stopped hclosed).2
        rw [htcp] at hgone
        cases hgone
      refine { hbase with healthy := fun hstate => ?_, closed := ?_, stopped := fun hstate => ?_,
                          closing := fun hstate => ?_, connecting := fun hstate => ?_,
                          gone := fun hgone => ?_ }
      · cases hstate
      · have hdisconnected : ws.tcpState = .disconnected := hgone
        rw [htcp] at hdisconnected
        cases hdisconnected
      · refine iff_of_false (fun hstate => ?_) (mt h.closed.mpr hopen)
        cases hstate
      · cases hstate
      · cases hstate
      · cases hstate
  · have htcp : ws.tcpState = .connected := by_contra fun hoff => hempty (hear.offline hoff).2
    have hcomplete : ws.handshakeComplete = true := Bool.eq_true_of_not_eq_false hpending
    have hopen : ws.state ≠ .closed := fun hclosed => by
      have hgone := (h.stopped hclosed).2
      rw [htcp] at hgone
      cases hgone
    have harrived := hear.arrived htcp hcomplete
    rw [hahead, List.append_nil] at harrived
    obtain ⟨herror, hframes⟩ := hear.fed hwritten ⟨coming, harrived⟩
    exact hbase.processFrameBytes herror (fun frame hframe => hsent frame (hframes frame hframe))
      hcomplete hear.tcp hopen

/-- The end of the connection is announced. -/
theorem Settled.handleTcpDisconnected (h : Settled Q ws)
    (hmem : TcpNotification.disconnected ∈ ws.posted) (htcp : ws.tcpState = .disconnected)
    (hidle : ws.idle = true) :
    Settled Q { ws with posted := ws.posted.erase .disconnected }.handleTcpDisconnected := by
  obtain ⟨hcomplete, hends, hreason⟩ := h.gone htcp
  have hpos : 0 < ws.posted.count .disconnected := List.count_pos_iff.mpr hmem
  have hnone : WebSocketSignal.disconnected ∉ ws.emitted := by
    rw [← List.count_eq_zero]
    rw [ends] at hends
    omega
  have hwaiting : ws.waiting = none := by
    simp only [idle, Bool.and_eq_true, decide_eq_true_eq] at hidle
    exact hidle.1
  have hactive : ws.state = .connecting ∨ ws.state = .opened ∨ ws.state = .closing := by
    cases hstate : ws.state with
    | closed => exact absurd (h.closed.mp hstate) hnone
    | error => exact absurd hstate h.healthy
    | connecting => exact .inl rfl
    | opened => exact .inr (.inl rfl)
    | closing => exact .inr (.inr rfl)
  have hpending : ¬(ws.state = .connecting ∧ ws.handshakeComplete = false) := fun hpending => by
    rw [hcomplete] at hpending
    cases hpending.2
  rw [LiveWebSocket.handleTcpDisconnected, if_neg hpending, if_pos hactive]
  have hcount : (ws.posted.erase .disconnected).count .disconnected +
      (ws.emitted ++ [WebSocketSignal.disconnected]).count .disconnected = 1 := by
    rw [List.count_erase_self, List.count_append, List.count_singleton_self]
    rw [ends] at hends
    omega
  refine { h with healthy := fun hstate => ?_, posted := ?_, silent := fun text herror => ?_,
                  connected := fun hconnected => ?_, gone := fun _ => ⟨hcomplete, hcount, hreason⟩,
                  closed := iff_of_true rfl (List.mem_append_right _ List.mem_cons_self),
                  stopped := fun _ => ⟨hwaiting, htcp⟩, closing := fun hstate => ?_,
                  connecting := fun hstate => ?_ }
  · cases hstate
  · exact fun message herror => h.posted message (List.mem_of_mem_erase herror)
  · rcases List.mem_append.mp herror with herror | herror
    · exact h.silent text herror
    · cases List.mem_singleton.mp herror
  · have hsame : ws.tcpState = .connected := hconnected
    rw [htcp] at hsame
    cases hsame
  · cases hstate
  · cases hstate

/-- What may be done on one side: `close` on an open connection, and a ping that is not too large.
No socket fails. -/
def Calm (ws : LiveWebSocket) : WebSocketEvent → Prop
  | .close => ws.state = .opened
  | .ping payload => payload.length ≤ 125
  | .tcpFails _ => False
  | _ => True

/-- **A step of one side** where nothing goes wrong. -/
theorem Settled.step {e : WebSocketEvent} (h : Settled Q ws) (hspeaking : Speaking P ws)
    (hear : Hearing stream coming consumed processed ws) (hwritten : Decodes stream written [])
    (hsent : ∀ frame ∈ written, frame.Outgoing (!ws.clientMode)) (hcalm : Calm ws e)
    (hended : e = .tcpEnds → ws.handshakeComplete = true ∧ Q) (hstep : Step ws e next) :
    Settled Q next := by
  cases e with
  | close =>
      cases hstep
      have hopen : ws.state = .opened := hcalm
      have hnoted : ws.closeFrameSent = false := by
        cases hnoted : ws.closeFrameSent with
        | false => rfl
        | true => exact absurd hopen (hspeaking.shut hnoted).1
      rw [close, if_pos ⟨hopen, hnoted⟩]
      have hframe := h.sendFrame .close [] false
      obtain ⟨sent, hsends, -⟩ := @sendFrame_eq ws .close [] false
      rw [hsends] at hframe
      have hsaid : ws.tcpState = .connected →
          SaidClose { ws.sendFrame .close [] false with
            closeFrameSent := true, state := .closing } := by
        intro htcp
        rw [LiveWebSocket.sendFrame, if_neg (fun hreq => Bool.false_ne_true hreq.1),
          if_pos (by simp [socketActive, htcp])]
        exact ⟨_, List.mem_append_right _ List.mem_cons_self, rfl⟩
      rw [hsends] at hsaid ⊢
      refine { hframe with healthy := fun hstate => ?_, closed := ?_, stopped := fun hstate => ?_,
                           closing := fun _ => hsaid, connecting := fun hstate => ?_ }
      · cases hstate
      · refine iff_of_false (fun hstate => ?_) fun hmem => ?_
        · cases hstate
        · have hclosed := h.closed.mpr hmem
          rw [hopen] at hclosed
          cases hclosed
      · cases hstate
      · cases hstate
  | send opcode payload =>
      obtain ⟨-, heq⟩ := Option.ite_none_right_eq_some.mp hstep
      cases heq
      exact h.sendFrame opcode payload true
  | ping payload =>
      cases hstep
      rw [ping, if_neg (Nat.not_lt.mpr hcalm)]
      exact h.sendFrame .ping payload true
  | slotsReturn =>
      obtain ⟨-, heq⟩ := Option.ite_none_left_eq_some.mp hstep
      cases heq
      exact h.slotsReturn hear hwritten hsent
  | runs notification =>
      obtain ⟨hcan, heq⟩ := Option.ite_none_right_eq_some.mp hstep
      cases heq
      cases notification with
      | connected =>
          have hcount : (ws.posted.erase .connected).count .disconnected =
              ws.posted.count .disconnected := List.count_erase_of_ne (by decide)
          exact
            { h with
              posted := fun message hmem => h.posted message (List.mem_of_mem_erase hmem)
              connected := by
                change _ → (ws.posted.erase .connected).count _ + _ = 0 ∧ _
                rw [hcount]
                exact h.connected
              gone := by
                change _ → _ ∧ (ws.posted.erase .connected).count _ + _ = 1 ∧ _
                rw [hcount]
                exact h.gone }
      | errorOccurred message => exact absurd hcan.2 (h.posted message)
      | disconnected =>
          exact h.handleTcpDisconnected hcan.2 (hspeaking.gone hcan.2) hcan.1
      | readyRead => exact h.handleTcpReadyRead hear hcan.1 hwritten hsent
  | tcpConnects =>
      obtain ⟨hconnecting, -⟩ := Option.ite_none_right_eq_some.mp hstep
      exact absurd hconnecting hear.not_connecting
  | tcpReceives data =>
      obtain ⟨-, heq⟩ := Option.ite_none_right_eq_some.mp hstep
      cases heq
      have hcount : (ws.posted ++ [TcpNotification.readyRead]).count .disconnected =
          ws.posted.count .disconnected := by
        rw [List.count_append]
        rfl
      exact
        { h with
          posted := fun message hmem => h.posted message (by simpa using hmem)
          connected := by
            change _ → (ws.posted ++ [TcpNotification.readyRead]).count _ + _ = 0 ∧ _
            rw [hcount]
            exact h.connected
          gone := by
            change _ → _ ∧ (ws.posted ++ [TcpNotification.readyRead]).count _ + _ = 1 ∧ _
            rw [hcount]
            exact h.gone }
  | tcpEnds =>
      obtain ⟨-, heq⟩ := Option.ite_none_right_eq_some.mp hstep
      cases heq
      exact h.socketClose (hended rfl).1 hear.tcp (hended rfl).2
  | tcpFails message => exact absurd hcalm id

/-- What is kept for a reason is kept for a weaker one. -/
theorem Settled.mono {Q' : Prop} (h : Settled Q ws) (hQ : Q → Q') : Settled Q' ws :=
  { h with
    gone := fun htcp =>
      ⟨(h.gone htcp).1, (h.gone htcp).2.1, (h.gone htcp).2.2.imp_right hQ⟩ }

/-- A new connection keeps to it. -/
theorem Fresh.settled (h : Fresh ws) : Settled Q ws where
  failing := h.failing
  healthy hstate := by
    rcases h.state with hopen | ⟨hopen, -⟩ <;> rw [hstate] at hopen <;> cases hopen
  posted message hmem := by rw [h.posted] at hmem; cases hmem
  silent errorMessage hmem := by rw [h.emitted] at hmem; cases hmem
  connected _ := by
    refine ⟨?_, h.atClose⟩
    rw [ends, h.posted, h.emitted]
    rfl
  gone hgone := by rw [h.tcpState] at hgone; cases hgone
  closed := by
    rw [h.emitted]
    refine iff_of_false (fun hstate => ?_) List.not_mem_nil
    rcases h.state with hopen | ⟨hopen, -⟩ <;> rw [hstate] at hopen <;> cases hopen
  stopped hstate := by
    rcases h.state with hopen | ⟨hopen, -⟩ <;> rw [hstate] at hopen <;> cases hopen
  closing hstate := by
    rcases h.state with hopen | ⟨hopen, -⟩ <;> rw [hstate] at hopen <;> cases hopen
  connecting hstate := by
    rcases h.state with hopen | ⟨-, hpending⟩
    · rw [hstate] at hopen
      cases hopen
    · exact hpending

end LiveWebSocket

namespace Conversation

variable {c next : Conversation} {l : Side × WebSocketEvent}

/-! ### Both sides -/

/-- A Close frame has been processed. -/
def Closing (c : Conversation) : Prop := ∃ side, (c.socket side).atClose.isSome = true

/-- What may be done where nothing goes wrong. -/
def Calm (c : Conversation) (l : Side × WebSocketEvent) : Prop :=
  LiveWebSocket.Calm (c.socket l.1) l.2

/-- What holds in a conversation in which nothing goes wrong. -/
structure Orderly (c : Conversation) : Prop where
  sound : Sound (fun _ _ => False) c
  settled : ∀ side, (c.socket side).Settled c.Closing

/-- Behind a Close frame both handshakes are complete. -/
theorem Orderly.complete (h : Orderly c) (hclosing : c.Closing) (side : Side) :
    (c.socket side).handshakeComplete = true := by
  obtain ⟨s, hclose⟩ := hclosing
  obtain ⟨stream, consumed, processed, hwritten, hear⟩ := h.sound.heard s
  obtain ⟨frame, hframe, -⟩ := hear.atClose.mp hclose
  cases hcomplete : (c.socket side).handshakeComplete with
  | true => rfl
  | false =>
      rcases s.eq_or_other side with rfl | rfl
      · rw [(hear.pending hcomplete).2.1] at hframe
        cases hframe
      · have hmem := (hear.items_prefix hwritten).subset (List.mem_append_left _ hframe)
        rw [(h.sound.speaking s.other).begun hcomplete] at hmem
        cases hmem

/-- A side whose socket is closed has seen the end of the conversation. -/
theorem Orderly.closing (h : Orderly c) {side : Side}
    (hgone : (c.socket side).tcpState = .disconnected) : c.Closing := by
  rcases ((h.settled side).gone hgone).2.2 with hclose | hclosing
  · exact ⟨side, hclose⟩
  · exact hclosing

/-- Once a Close frame has been processed the conversation is closing. -/
theorem closing_step (hclosing : c.Closing) (hstep : Step c l next) : next.Closing := by
  obtain ⟨s, hclose⟩ := hclosing
  rcases l.1.eq_or_other s with rfl | rfl
  · obtain ⟨signals, hsome⟩ := Option.isSome_iff_exists.mp hclose
    exact ⟨l.1, by rw [LiveWebSocket.atClose_step hsome hstep.takes]; rfl⟩
  · exact ⟨l.1.other, by rw [hstep.other]; exact hclose⟩

/-- No step leads to an error. -/
theorem Orderly.reports (h : Orderly c) (hcalm : Calm c l) (hstep : Step c l next) :
    Reports (fun _ _ => False) c l := by
  obtain ⟨side, e⟩ := l
  refine ⟨?_, ?_, ?_⟩
  · rintro message rfl
    exact hcalm
  · rintro payload rfl hlong
    exact absurd hcalm (Nat.not_le.mpr hlong)
  · rintro (rfl | rfl) hpending
    · have hcomplete := h.complete (h.closing (hstep.ends rfl)) side
      rw [hpending] at hcomplete
      cases hcomplete
    · obtain ⟨stream, consumed, processed, -, hear⟩ := h.sound.heard side
      have hcomplete := hear.opened hcalm
      rw [hpending] at hcomplete
      cases hcomplete

/-- **A step keeps it.** -/
theorem Orderly.step (h : Orderly c) (hcalm : Calm c l) (hstep : Step c l next) :
    Orderly next := by
  refine ⟨h.sound.step (h.reports hcalm hstep) hstep, fun s => ?_⟩
  have hmono : c.Closing → next.Closing := fun hclosing => closing_step hclosing hstep
  obtain ⟨side, e⟩ := l
  rcases side.eq_or_other s with rfl | rfl
  · obtain ⟨stream, consumed, processed, hwritten, hear⟩ := h.sound.heard s
    refine ((h.settled s).step (h.sound.speaking s) hear hwritten (h.sound.outgoing s) hcalm
      (fun hended => ?_) hstep.takes).mono hmono
    have hclosing := h.closing (hstep.ends hended)
    exact ⟨h.complete hclosing s, hclosing⟩
  · rw [hstep.other]
    exact (h.settled side.other).mono hmono

/-- At the start nothing has gone wrong. -/
theorem orderly_opening (clientKey : Bytes) : Orderly (opening clientKey) where
  sound := sound_opening clientKey
  settled side := (fresh_opening clientKey side).settled

/-- **What holds in every conversation** in which nothing goes wrong. -/
theorem orderly_conversation {clientKey : Bytes} {es : List (Side × WebSocketEvent)}
    (h : Run Step Calm (opening clientKey) es c) : Orderly c :=
  h.invariant (fun _ _ _ hinv hcalm hstep => hinv.step hcalm hstep) (orderly_opening clientKey)

/-! ### The end -/

/-- Nothing is left to be done: no handler waits, no signal is posted, nothing is on its way to a
socket that is connected, and no socket has still to see that the other one is closed. -/
structure AtRest (c : Conversation) : Prop where
  idle : ∀ side, (c.socket side).idle = true
  posted : ∀ side, (c.socket side).posted = []
  readBuffer : ∀ side, (c.socket side).readBuffer = []
  coming : ∀ side, (c.socket side).tcpState = .connected → c.coming side = []
  ended : ∀ side, (c.socket side).tcpState = .connected →
    (c.socket side.other).tcpState ≠ .disconnected

/-- Both connections are open, and all that was written has been handed over and answered. -/
def BothOpen (c : Conversation) : Prop :=
  ∀ side, (c.socket side).tcpState = .connected ∧ (c.socket side).state = .opened ∧
    (c.socket side).delivered = signalsOf (c.socket side.other).written ∧
    payloadsOf .pong (c.socket side).written = payloadsOf .ping (c.socket side.other).written

/-- Both connections are closed, each has announced it once, and a side has been handed all that the
other side has written. -/
def BothClosed (c : Conversation) : Prop :=
  (∀ side, (c.socket side).tcpState = .disconnected ∧ (c.socket side).state = .closed ∧
    (c.socket side).emitted.count .disconnected = 1) ∧
  ∃ side, (c.socket side).delivered = signalsOf (c.socket side.other).written

/-- A connection that nobody has closed is open. -/
theorem Orderly.open_of_rest (h : Orderly c) (hrest : AtRest c)
    (hconnected : ∀ side, (c.socket side).tcpState = .connected) (side : Side) :
    (c.socket side).state = .opened := by
  have hcaught : ∀ s, c.CaughtUp s := fun s =>
    ⟨hconnected s, hrest.idle s, hrest.readBuffer s, hrest.coming s (hconnected s)⟩
  have hall : ∀ s, (c.socket s).handshakeComplete = true ∧
      ((c.socket s.other).SaidClose → (c.socket s).atClose.isSome = true) := by
    intro s
    obtain ⟨stream, consumed, processed, hwritten, hear⟩ := h.sound.heard s
    obtain ⟨herror, hclosed⟩ := h.sound.healthy (hcaught s)
    rw [hrest.coming s (hconnected s)] at hear
    obtain ⟨hcomplete, rfl⟩ := hear.caughtUp hwritten (hconnected s) (hrest.idle s)
      (hrest.readBuffer s) herror hclosed
    exact ⟨hcomplete, hear.atClose.mpr⟩
  obtain ⟨herror, hclosed⟩ := h.sound.healthy (hcaught side)
  cases hstate : (c.socket side).state with
  | opened => rfl
  | error => exact absurd hstate herror
  | closed => exact absurd hstate hclosed
  | connecting =>
      have hpending := (h.settled side).connecting hstate
      rw [(hall side).1] at hpending
      cases hpending
  | closing =>
      -- the other side has read the Close frame, and closed its socket
      have hsaid := (h.settled side).closing hstate (hconnected side)
      have hclose := (hall side.other).2 (by rw [Side.other_other]; exact hsaid)
      rw [((h.settled side.other).connected (hconnected side.other)).2] at hclose
      cases hclose

/-- **The two sides agree** where nothing is left to be done. -/
theorem Orderly.agree (h : Orderly c) (hrest : AtRest c) : BothOpen c ∨ BothClosed c := by
  have htcp : ∀ side, (c.socket side).tcpState = .connected ∨
      (c.socket side).tcpState = .disconnected := by
    intro side
    obtain ⟨stream, consumed, processed, -, hear⟩ := h.sound.heard side
    exact hear.tcp
  have hclosed : ∀ side, (c.socket side).tcpState = .disconnected → BothClosed c := by
    intro side hgone
    have hboth : ∀ s, (c.socket s).tcpState = .disconnected := by
      intro s
      rcases side.eq_or_other s with rfl | rfl
      · exact hgone
      · refine (htcp side.other).resolve_left fun hconnected => ?_
        exact hrest.ended side.other hconnected (by rw [Side.other_other]; exact hgone)
    obtain ⟨s, hclose⟩ := h.closing hgone
    refine ⟨fun s => ⟨hboth s, ?_⟩, s, (h.sound.faithful s).atClose hclose⟩
    have hends := ((h.settled s).gone (hboth s)).2.1
    rw [LiveWebSocket.ends, hrest.posted s, List.count_nil, Nat.zero_add] at hends
    exact ⟨(h.settled s).closed.mpr (List.count_pos_iff.mp (by omega)), hends⟩
  by_cases hgone : ∃ side, (c.socket side).tcpState = .disconnected
  · obtain ⟨side, hgone⟩ := hgone
    exact .inr (hclosed side hgone)
  · have hconnected : ∀ side, (c.socket side).tcpState = .connected := fun side =>
      (htcp side).resolve_right fun hoff => hgone ⟨side, hoff⟩
    refine .inl fun side => ?_
    have hopen := h.open_of_rest hrest hconnected side
    have hall := (h.sound.faithful side).caughtUp
      ⟨hconnected side, hrest.idle side, hrest.readBuffer side,
        hrest.coming side (hconnected side)⟩
    exact ⟨hconnected side, hopen, hall.1, hall.2 hopen⟩

/-- **Neither side fails, and the two sides agree**: where nothing is left to be done, both
connections are open and nothing is missing, or both are closed. -/
theorem agreement {clientKey : Bytes} {es : List (Side × WebSocketEvent)}
    (h : Run Step Calm (opening clientKey) es c) :
    (∀ side errorMessage, (c.socket side).state ≠ .error ∧
      WebSocketSignal.errorOccurred errorMessage ∉ (c.socket side).emitted) ∧
    (AtRest c → BothOpen c ∨ BothClosed c) :=
  ⟨fun side errorMessage => ⟨((orderly_conversation h).settled side).healthy,
      ((orderly_conversation h).settled side).silent errorMessage⟩,
    (orderly_conversation h).agree⟩

/-- Whether an event is calm can be computed. -/
instance instDecidableCalm (ws : LiveWebSocket) (e : WebSocketEvent) :
    Decidable (LiveWebSocket.Calm ws e) :=
  match e with
  | .close => inferInstanceAs (Decidable (ws.state = .opened))
  | .ping payload => inferInstanceAs (Decidable (payload.length ≤ 125))
  | .tcpFails _ => inferInstanceAs (Decidable False)
  | .send _ _ | .slotsReturn | .runs _ | .tcpConnects | .tcpReceives _ | .tcpEnds =>
      inferInstanceAs (Decidable True)

/-- The server answers the Close frame of the client, and both sides come to the end. -/
def closingEvents : List (Side × WebSocketEvent) :=
  exampleEvents ++ [(.server, .runs .disconnected), (.client, .tcpReceives [0x88, 0]),
    (.client, .runs .readyRead), (.client, .slotsReturn), (.client, .runs .disconnected)]

/-- The handshake is calm. -/
theorem calm_established (clientKey : Bytes) :
    Run Step Calm (opening clientKey) (openingEvents clientKey) (established clientKey) := by
  refine (reaches_established clientKey).labelled.mono fun c l hl => ?_
  rcases List.mem_cons.mp hl.2 with rfl | hl
  · trivial
  · rcases List.mem_cons.mp hl with rfl | hl
    · trivial
    · rw [List.mem_singleton.mp hl]
      trivial

/-- A side that is closed, where nothing is left to be done. -/
def isOver (c : Conversation) (side : Side) : Bool :=
  (c.socket side).idle ∧ (c.socket side).posted = [] ∧ (c.socket side).readBuffer = [] ∧
    (c.socket side).tcpState = .disconnected

/-- A conversation that comes to its end. -/
theorem agreement_example : ∃ c : Conversation, AtRest c ∧ (BothOpen c ∨ BothClosed c) := by
  obtain ⟨c, hrun, hobserved⟩ := @exists_run_of_performs (established []) _ exampleMask
    (fun c l => decide (LiveWebSocket.Calm (c.socket l.1) l.2)) closingEvents
    (fun c => (c.isOver .client, c.isOver .server)) (true, true) (by decide)
  have hover : ∀ side, c.isOver side = true := fun side => by
    cases side with
    | client => exact (Prod.mk.inj hobserved).1
    | server => exact (Prod.mk.inj hobserved).2
  have hcalm : Run Step Calm (established []) closingEvents c :=
    hrun.mono fun _ _ hok => of_decide_eq_true hok
  have hrest : AtRest c :=
    { idle := fun side => (of_decide_eq_true (hover side)).1
      posted := fun side => (of_decide_eq_true (hover side)).2.1
      readBuffer := fun side => (of_decide_eq_true (hover side)).2.2.1
      coming := fun side hconnected => by
        rw [(of_decide_eq_true (hover side)).2.2.2] at hconnected
        cases hconnected
      ended := fun side hconnected => by
        rw [(of_decide_eq_true (hover side)).2.2.2] at hconnected
        cases hconnected }
  exact ⟨c, hrest, (agreement ((calm_established []).trans hcalm)).2 hrest⟩

end Conversation

end SimplyNode
