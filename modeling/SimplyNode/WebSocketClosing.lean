import SimplyNode.LiveWebSocket

/-!
# Behind a Close Frame

What a step of a `LiveWebSocket` does is said once: it comes to a frame and processes it, or it
comes to none. A Close frame closes the socket, so nothing is read behind it. The loop over the
frames of a read goes on nevertheless: it looks for `Error` and `Closed` only.

## Main results

* `LiveWebSocket.step_frame`, `LiveWebSocket.quiet_step`: what a step does.
* `LiveWebSocket.silent_of_run`: **nothing is delivered behind a Close frame**, in any run in which
  no frame that is to be delivered stands behind a Close frame in the same read.
-/

open Transition

namespace SimplyNode

open Text WebSocketHandshake

namespace LiveWebSocket

/-! ### What a step does -/

/-- The frames that `processFrameBytes` finds. -/
def fedFrames (ws : LiveWebSocket) (data : Bytes) : List WebSocketFrame :=
  if (ws.frameParser.feed data).hasError then [] else (ws.frameParser.feed data).frames

/-- The frames that the loop of `processFrameBytes` finds in a step. -/
def comes (ws : LiveWebSocket) : WebSocketEvent → List WebSocketFrame
  | .slotsReturn =>
      if 0 < ws.failing then []
      else
        match ws.waiting with
        | none => []
        | some .draining =>
            if ws.state = .error ∨ ws.state = .closed then [] else ws.frameParser.frames
        | some (.resuming remaining) => if remaining = [] then [] else ws.fedFrames remaining
  | .runs .readyRead =>
      if ws.readBuffer = [] ∨ ws.handshakeComplete = false then [] else ws.fedFrames ws.readBuffer
  | _ => []

/-- The loop is about to process a frame. -/
structure Poised (ws base : LiveWebSocket) (frames : List WebSocketFrame) : Prop where
  clientMode : base.clientMode = ws.clientMode
  state : base.state = ws.state
  fragmentOpcode : base.fragmentOpcode = ws.fragmentOpcode
  tcpState : base.tcpState = ws.tcpState
  emitted : base.emitted = ws.emitted
  atClose : base.atClose = ws.atClose
  atFailure : base.atFailure = ws.atFailure
  frames : base.frameParser.frames = frames
  waiting : base.waiting = some .draining
  readBuffer : base.readBuffer = [] ∨ base.readBuffer = ws.readBuffer
  failing : base.failing = ws.failing

/-- What a step does that comes to no frame. -/
structure Quiet (ws : LiveWebSocket) (e : WebSocketEvent) (next : LiveWebSocket) : Prop where
  clientMode : next.clientMode = ws.clientMode
  fragmentOpcode : next.fragmentOpcode = ws.fragmentOpcode
  atClose : next.atClose = ws.atClose
  delivered : next.delivered = ws.delivered
  tcpState : next.tcpState = ws.tcpState ∨ next.tcpState = .disconnected ∨
    ws.tcpState = .connecting ∧ next.tcpState = .connected
  readBuffer : next.readBuffer = [] ∨ next.readBuffer = ws.readBuffer ∨ ws.tcpState = .connected
  buffered : ws.readBuffer = [] ∨ ws.tcpState = .connected →
    next.readBuffer = [] ∨ next.tcpState = .connected
  frames : next.frameParser.frames = ws.frameParser.frames ∨ ws.readBuffer ≠ [] ∨
    ∃ remaining, ws.waiting = some (.resuming remaining)
  waiting : next.waiting = none ∨ next.waiting = ws.waiting ∨ ws.readBuffer ≠ []
  state : next.state = ws.state ∨ next.state = .error ∨ ws.state = .opened ∨
    (ws.readBuffer ≠ [] ∧ ws.idle = true) ∨ (e = .runs .disconnected ∧ ws.idle = true)
  atFailure : ws.atFailure.isSome = true → next.atFailure = ws.atFailure
  failed : ws.atFailure = none → next.atFailure.isSome = true →
    next.state = .error ∧ next.atFailure = some next.emitted ∧ 0 < next.failing
  failing : ws.failing ≤ next.failing ∨ next.tcpState = .disconnected
  disconnects : next.emitted.count .disconnected = ws.emitted.count .disconnected ∨
    e = .runs .disconnected

variable {ws : LiveWebSocket} {e : WebSocketEvent}

/-- Nothing happens. -/
theorem Quiet.refl (ws : LiveWebSocket) (e : WebSocketEvent) : Quiet ws e ws where
  clientMode := rfl
  fragmentOpcode := rfl
  atClose := rfl
  delivered := rfl
  tcpState := .inl rfl
  readBuffer := .inr (.inl rfl)
  buffered := id
  frames := .inl rfl
  waiting := .inr (.inl rfl)
  state := .inl rfl
  atFailure _ := rfl
  failed hnone hsome := by simp [hnone] at hsome
  failing := .inl (Nat.le_refl _)
  disconnects := .inl rfl

/-- What is written does not matter. -/
theorem Quiet.sendFrame {next : LiveWebSocket} (h : Quiet ws e next) (opcode : OpCode)
    (payload : Bytes) (requireOpen : Bool) :
    Quiet ws e (next.sendFrame opcode payload requireOpen) := by
  obtain ⟨sent, hsent, -⟩ := @sendFrame_eq next opcode payload requireOpen
  rw [hsent]
  exact { h with }

/-- The socket is closed. -/
theorem Quiet.socketClose {next : LiveWebSocket} (h : Quiet ws e next) :
    Quiet ws e next.socketClose :=
  { h with
    tcpState := .inr (.inl rfl)
    readBuffer := .inl rfl
    buffered := fun _ => .inl rfl
    failing := .inr rfl }

/-- The connection fails. -/
theorem Quiet.fail {next : LiveWebSocket} (h : Quiet ws e next) (errorMessage : String)
    (hatFailure : next.atFailure = ws.atFailure) (hemitted : next.emitted = ws.emitted) :
    Quiet ws e (next.fail errorMessage) :=
  { h with
    delivered := by
      change (next.emitted ++ [WebSocketSignal.errorOccurred errorMessage]).filter _ = _
      rw [List.filter_append, hemitted]
      exact List.append_nil _
    state := .inr (.inl rfl)
    atFailure := fun hsome => by
      change (next.atFailure <|> some _) = _
      rw [hatFailure]
      cases hws : ws.atFailure with
      | none => simp [hws] at hsome
      | some l => rfl
    failed := fun hnone _ => by
      refine ⟨rfl, ?_, Nat.succ_pos _⟩
      change (next.atFailure <|> some _) = _
      rw [hatFailure, hnone]
      rfl
    failing := h.failing.imp_left (Nat.le_trans · (Nat.le_succ _))
    disconnects := .inl (by
      change (next.emitted ++ [WebSocketSignal.errorOccurred errorMessage]).count _ = _
      rw [List.count_append, hemitted]
      simp) }

/-- A notification is taken, and what has been received with it. -/
theorem quiet_erase (ws : LiveWebSocket) (notification : TcpNotification) (buffer : Bytes)
    (hbuffer : buffer = [] ∨ buffer = ws.readBuffer) :
    Quiet ws e { ws with posted := ws.posted.erase notification, readBuffer := buffer } :=
  { Quiet.refl ws e with
    readBuffer := hbuffer.imp_right .inl
    buffered := fun hread => by
      rcases hbuffer with rfl | rfl
      · exact .inl rfl
      · exact hread }

/-- A waiting handler is through. -/
theorem quiet_waiting (ws : LiveWebSocket) : Quiet ws e { ws with waiting := none } :=
  { Quiet.refl ws e with waiting := .inl rfl }

/-- The parser is fed, and there is no frame. -/
theorem Quiet.processFrameBytes {next : LiveWebSocket} (h : Quiet ws e next) {data : Bytes}
    (hatFailure : next.atFailure = ws.atFailure) (hemitted : next.emitted = ws.emitted)
    (hread : ws.readBuffer ≠ [] ∨ ∃ remaining, ws.waiting = some (.resuming remaining))
    (hnone : next.fedFrames data = []) : Quiet ws e (next.processFrameBytes data) := by
  have hfed : Quiet ws e { next with frameParser := next.frameParser.feed data } :=
    { h with frames := .inr hread }
  rw [LiveWebSocket.processFrameBytes]
  split
  · exact hfed.fail _ hatFailure hemitted
  · rename_i herror
    rw [fedFrames, if_neg herror] at hnone
    rw [nextFrame]
    simp only [hnone]
    exact hfed

/-- `close` comes to no frame. -/
theorem quiet_close (ws : LiveWebSocket) : Quiet ws e ws.close := by
  rw [close]
  split
  · rename_i hopen
    obtain ⟨sent, hsent, -⟩ := @sendFrame_eq ws .close [] false
    rw [hsent]
    exact
      { Quiet.refl ws e with
        state := .inr (.inr (.inl hopen.1))
        failed := fun hnone hsome => by
          change ws.atFailure.isSome = true at hsome
          simp [hnone] at hsome }
  · exact (Quiet.refl ws e).socketClose

/-- The end of the socket comes to no frame. -/
theorem quiet_handleTcpDisconnected (hidle : ws.idle = true) :
    Quiet ws (.runs .disconnected)
      { ws with posted := ws.posted.erase .disconnected }.handleTcpDisconnected := by
  have hbase := @quiet_erase (.runs .disconnected) ws .disconnected ws.readBuffer (.inr rfl)
  have hstate : ∀ state, Quiet ws (.runs .disconnected)
      { ws with posted := ws.posted.erase .disconnected, state := state } := fun state =>
    { hbase with
      state := .inr (.inr (.inr (.inr ⟨rfl, hidle⟩)))
      failed := fun hnone hsome => by
        change ws.atFailure.isSome = true at hsome
        simp [hnone] at hsome }
  have hemit : ∀ state signal, signal.isNotification = false → Quiet ws (.runs .disconnected)
      ({ ws with posted := ws.posted.erase .disconnected, state := state }.emit signal) :=
    fun state signal hsignal =>
      { hstate state with
        delivered := by
          change (ws.emitted ++ [signal]).filter _ = _
          rw [List.filter_append, List.filter_cons_of_neg (Bool.eq_false_iff.mp hsignal)]
          exact List.append_nil _
        failed := fun hnone hsome => by
          change ws.atFailure.isSome = true at hsome
          simp [hnone] at hsome
        disconnects := .inr rfl }
  rw [handleTcpDisconnected]
  split_ifs
  · exact hemit .error _ rfl
  · exact hemit .closed _ rfl
  · exact hstate .closed

/-- The handshake comes to no frame. -/
theorem quiet_processHandshakeBytes {base : LiveWebSocket} (h : Quiet ws e base)
    (hread : ws.readBuffer ≠ []) (hidle : ws.idle = true)
    (hatFailure : base.atFailure = ws.atFailure) (hemitted : base.emitted = ws.emitted)
    (data : Bytes) : Quiet ws e (base.processHandshakeBytes data) := by
  rw [processHandshakeBytes]
  split
  · exact { h with }
  · split
    · have hcleared : Quiet ws e { base with handshakeBuffer := [] } := { h with }
      exact hcleared.fail _ hatFailure hemitted
    · exact
        { h with
          waiting := .inr (.inr hread)
          state := .inr (.inr (.inr (.inl ⟨hread, hidle⟩)))
          failed := fun hnone hsome => by
            change base.atFailure.isSome = true at hsome
            simp [hatFailure, hnone] at hsome }

/-- Slots that return where no frame waits come to none. -/
theorem quiet_slotsReturn (hnone : ws.comes .slotsReturn = []) :
    Quiet ws .slotsReturn ws.slotsReturn := by
  rw [comes] at hnone
  rw [slotsReturn]
  split at hnone
  · rename_i hfailing
    rw [if_pos hfailing]
    exact
      { Quiet.refl ws .slotsReturn with
        tcpState := .inr (.inl rfl)
        readBuffer := .inl rfl
        buffered := fun _ => .inl rfl
        failed := fun hnone hsome => by
          change ws.atFailure.isSome = true at hsome
          simp [hnone] at hsome
        failing := .inr rfl }
  · rename_i hfailing
    rw [if_neg hfailing]
    cases hwaiting : ws.waiting with
    | none => exact Quiet.refl ws .slotsReturn
    | some waiting =>
        cases waiting with
        | draining =>
            simp only [hwaiting] at hnone
            simp only [goesOn]
            split at hnone
            · rename_i hstop
              rw [if_pos hstop]
              exact quiet_waiting ws
            · rename_i hstop
              rw [if_neg hstop, nextFrame]
              simp only [hnone]
              exact quiet_waiting ws
        | resuming remaining =>
            simp only [hwaiting] at hnone
            simp only
            split at hnone
            · rename_i hnil
              rw [if_pos hnil]
              exact quiet_waiting ws
            · rename_i hne
              rw [if_neg hne]
              exact (quiet_waiting ws).processFrameBytes rfl rfl (.inr ⟨remaining, hwaiting⟩) hnone

/-- A notification that brings no frame comes to none. -/
theorem quiet_runs {notification : TcpNotification} (hidle : ws.idle = true)
    (hnone : ws.comes (.runs notification) = []) :
    Quiet ws (.runs notification)
      ({ ws with posted := ws.posted.erase notification }.handle notification) := by
  cases notification with
  | connected => exact quiet_erase ws .connected ws.readBuffer (.inr rfl)
  | errorOccurred message =>
      exact (quiet_erase ws (.errorOccurred message) ws.readBuffer (.inr rfl)).fail message rfl rfl
  | disconnected => exact quiet_handleTcpDisconnected hidle
  | readyRead =>
      have hbase := @quiet_erase (.runs .readyRead) ws .readyRead [] (.inl rfl)
      rw [comes] at hnone
      rw [handle, handleTcpReadyRead]
      simp only
      split_ifs with hempty hhandshake
      · exact hbase
      · exact quiet_processHandshakeBytes hbase hempty hidle rfl rfl _
      · rw [if_neg (not_or.mpr ⟨hempty, hhandshake⟩)] at hnone
        exact hbase.processFrameBytes rfl rfl (.inl hempty) hnone

/-- **A step that comes to no frame.** -/
theorem quiet_step {next : LiveWebSocket} (hnone : ws.comes e = []) (hstep : Step ws e next) :
    Quiet ws e next := by
  cases e with
  | close =>
      cases hstep
      exact quiet_close ws
  | send opcode payload =>
      obtain ⟨-, heq⟩ := Option.ite_none_right_eq_some.mp hstep
      cases heq
      exact (Quiet.refl ws _).sendFrame opcode payload true
  | ping payload =>
      cases hstep
      rw [ping]
      split
      · exact (Quiet.refl ws _).fail _ rfl rfl
      · exact (Quiet.refl ws _).sendFrame .ping payload true
  | slotsReturn =>
      obtain ⟨-, heq⟩ := Option.ite_none_left_eq_some.mp hstep
      cases heq
      exact quiet_slotsReturn hnone
  | runs notification =>
      obtain ⟨hcan, heq⟩ := Option.ite_none_right_eq_some.mp hstep
      cases heq
      exact quiet_runs hcan.1 hnone
  | tcpConnects =>
      obtain ⟨hconnecting, heq⟩ := Option.ite_none_right_eq_some.mp hstep
      cases heq
      exact
        { Quiet.refl ws _ with
          tcpState := .inr (.inr ⟨hconnecting, rfl⟩)
          buffered := fun _ => .inr rfl
          failing := .inl (Nat.le_refl _) }
  | tcpReceives data =>
      obtain ⟨hconnected, heq⟩ := Option.ite_none_right_eq_some.mp hstep
      cases heq
      exact
        { Quiet.refl ws _ with
          readBuffer := .inr (.inr hconnected)
          buffered := fun _ => .inr hconnected }
  | tcpEnds =>
      obtain ⟨-, heq⟩ := Option.ite_none_right_eq_some.mp hstep
      cases heq
      exact (Quiet.refl ws _).socketClose
  | tcpFails message =>
      obtain ⟨-, heq⟩ := Option.ite_none_right_eq_some.mp hstep
      cases heq
      exact
        { Quiet.refl ws _ with
          tcpState := .inr (.inl rfl)
          readBuffer := .inl rfl
          buffered := fun _ => .inl rfl
          failing := .inr rfl }

/-- What is fed is processed from the first frame on. -/
theorem processFrameBytes_of_fedFrames {base : LiveWebSocket}
    (hparser : base.frameParser = ws.frameParser) {data : Bytes} {frame : WebSocketFrame}
    {frames : List WebSocketFrame} (h : ws.fedFrames data = frame :: frames) :
    base.processFrameBytes data =
      { base with
        frameParser := { ws.frameParser.feed data with frames := frames }
        waiting := some .draining }.processFrame frame := by
  rw [fedFrames] at h
  split at h
  · cases h
  · rename_i herror
    rw [processFrameBytes, hparser, if_neg herror, nextFrame]
    simp only [h]

/-- Slots that return come to the first frame that waits. -/
theorem slotsReturn_frame {frame : WebSocketFrame} {frames : List WebSocketFrame}
    (hcomes : ws.comes .slotsReturn = frame :: frames) :
    ∃ base, Poised ws base frames ∧ ws.slotsReturn = base.processFrame frame := by
  rw [comes] at hcomes
  rw [slotsReturn]
  split at hcomes
  · cases hcomes
  · rename_i hfailing
    rw [if_neg hfailing]
    cases hwaiting : ws.waiting with
    | none => simp [hwaiting] at hcomes
    | some waiting =>
        cases waiting with
        | draining =>
            simp only [hwaiting] at hcomes
            simp only [goesOn]
            split at hcomes
            · cases hcomes
            · rename_i hstop
              rw [if_neg hstop, nextFrame]
              simp only [hcomes]
              refine ⟨_, ?_, rfl⟩
              exact ⟨rfl, rfl, rfl, rfl, rfl, rfl, rfl, rfl, rfl, .inr rfl, rfl⟩
        | resuming remaining =>
            simp only [hwaiting] at hcomes
            simp only
            split at hcomes
            · cases hcomes
            · rename_i hne
              rw [if_neg hne]
              refine ⟨_, ?_, processFrameBytes_of_fedFrames rfl hcomes⟩
              exact ⟨rfl, rfl, rfl, rfl, rfl, rfl, rfl, rfl, rfl, .inr rfl, rfl⟩

/-- `readyRead` comes to the first frame that has been read. -/
theorem readyRead_frame {frame : WebSocketFrame} {frames : List WebSocketFrame}
    (hcomes : ws.comes (.runs .readyRead) = frame :: frames) :
    ∃ base, Poised ws base frames ∧
      { ws with posted := ws.posted.erase .readyRead }.handleTcpReadyRead =
        base.processFrame frame := by
  rw [comes] at hcomes
  split at hcomes
  · cases hcomes
  · rename_i hread
    obtain ⟨hne, hcomplete⟩ := not_or.mp hread
    rw [handleTcpReadyRead]
    simp only
    rw [if_neg hne, if_neg hcomplete]
    refine ⟨_, ?_, processFrameBytes_of_fedFrames rfl hcomes⟩
    exact ⟨rfl, rfl, rfl, rfl, rfl, rfl, rfl, rfl, rfl, .inl rfl, rfl⟩

/-- **A step that comes to a frame.** -/
theorem step_frame {next : LiveWebSocket} {frame : WebSocketFrame}
    {frames : List WebSocketFrame} (hcomes : ws.comes e = frame :: frames)
    (hstep : Step ws e next) :
    ∃ base, Poised ws base frames ∧ next = base.processFrame frame := by
  cases e with
  | slotsReturn =>
      obtain ⟨-, heq⟩ := Option.ite_none_left_eq_some.mp hstep
      cases heq
      exact slotsReturn_frame hcomes
  | runs notification =>
      obtain ⟨-, heq⟩ := Option.ite_none_right_eq_some.mp hstep
      cases heq
      cases notification with
      | connected | disconnected | errorOccurred _ => cases hcomes
      | readyRead => exact readyRead_frame hcomes
  | close | send _ _ | ping _ | tcpConnects | tcpReceives _ | tcpEnds | tcpFails _ => cases hcomes

/-! ### Behind a Close frame -/

/-- The frames bring something that is delivered, before one that is not accepted. -/
def notifiesBehind (clientMode : Bool) : OpCode → List WebSocketFrame → Bool
  | _, [] => false
  | fragmentOpcode, frame :: frames =>
      frame.accepted clientMode fragmentOpcode &&
        (frame.notifies || notifiesBehind clientMode (frame.fragmentAfter fragmentOpcode) frames)

/-- A step that processes a Close frame has nothing behind it that is delivered. -/
def ClosesLast (ws : LiveWebSocket) (e : WebSocketEvent) : Prop :=
  ∀ frame frames, ws.comes e = frame :: frames →
    frame.accepted ws.clientMode ws.fragmentOpcode = true → frame.opcode = .close →
      notifiesBehind ws.clientMode ws.fragmentOpcode frames = false

/-- Whether a step closes last can be computed. -/
instance (ws : LiveWebSocket) (e : WebSocketEvent) : Decidable (ClosesLast ws e) :=
  match h : ws.comes e with
  | [] => isTrue fun frame frames heq => by
      rw [h] at heq
      cases heq
  | frame :: frames =>
      decidable_of_iff
        (frame.accepted ws.clientMode ws.fragmentOpcode = true → frame.opcode = .close →
          notifiesBehind ws.clientMode ws.fragmentOpcode frames = false)
        ⟨fun hlast frame' frames' heq => by
          rw [h] at heq
          cases heq
          exact hlast, fun hlast => hlast frame frames h⟩

/-- A connection behind a Close frame. -/
structure Shut (ws : LiveWebSocket) (l : List WebSocketSignal) : Prop where
  delivered : ws.delivered = l
  tcpState : ws.tcpState = .disconnected
  readBuffer : ws.readBuffer = []
  waiting : ∀ remaining, ws.waiting ≠ some (.resuming remaining)
  behind : ws.waiting = some .draining → ws.state = .error ∨
    notifiesBehind ws.clientMode ws.fragmentOpcode ws.frameParser.frames = false

/-- What happens behind a Close frame, if no frame comes. -/
theorem Shut.quiet {l : List WebSocketSignal} {next : LiveWebSocket} (h : Shut ws l)
    (hquiet : Quiet ws e next) : Shut next l where
  delivered := hquiet.delivered.trans h.delivered
  tcpState := by
    rcases hquiet.tcpState with htcp | htcp | ⟨hconnecting, -⟩
    · exact htcp.trans h.tcpState
    · exact htcp
    · rw [h.tcpState] at hconnecting
      cases hconnecting
  readBuffer := by
    rcases hquiet.readBuffer with hbuffer | hbuffer | hconnected
    · exact hbuffer
    · exact hbuffer.trans h.readBuffer
    · rw [h.tcpState] at hconnected
      cases hconnected
  waiting remaining hresuming := by
    rcases hquiet.waiting with hwaiting | hwaiting | hread
    · rw [hwaiting] at hresuming
      cases hresuming
    · exact h.waiting remaining (hwaiting ▸ hresuming)
    · exact hread h.readBuffer
  behind hdraining := by
    have hwaiting : ws.waiting = some .draining := by
      rcases hquiet.waiting with hwaiting | hwaiting | hread
      · rw [hwaiting] at hdraining
        cases hdraining
      · exact hwaiting ▸ hdraining
      · exact absurd h.readBuffer hread
    have hframes : next.frameParser.frames = ws.frameParser.frames := by
      rcases hquiet.frames with hframes | hread | ⟨remaining, hresuming⟩
      · exact hframes
      · exact absurd h.readBuffer hread
      · exact absurd hresuming (h.waiting remaining)
    rw [hquiet.clientMode, hquiet.fragmentOpcode, hframes]
    rcases h.behind hwaiting with herror | hnone
    · rcases hquiet.state with hstate | hstate | hopened | ⟨hread, -⟩ | ⟨-, hidle⟩
      · exact .inl (hstate.trans herror)
      · exact .inl hstate
      · rw [herror] at hopened
        cases hopened
      · exact absurd h.readBuffer hread
      · rw [idle, hwaiting] at hidle
        cases hidle
    · exact .inr hnone

/-- Behind a Close frame, only the frames of the same read come. -/
theorem Shut.comes {l : List WebSocketSignal} (h : Shut ws l) {e : WebSocketEvent}
    {frame : WebSocketFrame} {frames : List WebSocketFrame}
    (hcomes : ws.comes e = frame :: frames) :
    notifiesBehind ws.clientMode ws.fragmentOpcode (frame :: frames) = false := by
  cases e with
  | close | send _ _ | ping _ | tcpConnects | tcpReceives _ | tcpEnds | tcpFails _ => cases hcomes
  | runs notification =>
      cases notification with
      | connected | disconnected | errorOccurred _ => cases hcomes
      | readyRead =>
          rw [LiveWebSocket.comes, if_pos (.inl h.readBuffer)] at hcomes
          cases hcomes
  | slotsReturn =>
      rw [LiveWebSocket.comes] at hcomes
      split at hcomes
      · cases hcomes
      · split at hcomes
        · cases hcomes
        · rename_i hwaiting
          split at hcomes
          · cases hcomes
          · rename_i hstop
            rw [← hcomes]
            exact (h.behind hwaiting).resolve_left fun herror => hstop (.inl herror)
        · rename_i remaining hwaiting
          exact absurd hwaiting (h.waiting remaining)

/-- A Close frame is no part of a message. -/
theorem fragmentAfter_close {frame : WebSocketFrame} (h : frame.opcode = .close)
    (fragmentOpcode : OpCode) : frame.fragmentAfter fragmentOpcode = fragmentOpcode := by
  rw [WebSocketFrame.fragmentAfter, h]

/-- A Close frame shuts the connection. -/
theorem shut_of_closes {base next : LiveWebSocket} (h : Closes base next)
    (hwaiting : base.waiting = some .draining)
    (hbehind : notifiesBehind base.clientMode base.fragmentOpcode base.frameParser.frames = false) :
    Shut next base.delivered := by
  obtain ⟨sent, rfl, -⟩ := h.eq
  exact
    { delivered := rfl
      tcpState := rfl
      readBuffer := rfl
      waiting := fun remaining hresuming => by
        change base.waiting = some (.resuming remaining) at hresuming
        rw [hwaiting] at hresuming
        cases hresuming
      behind := fun _ => .inr hbehind }

/-- A frame behind a Close frame. -/
theorem Shut.frame {l : List WebSocketSignal} (h : Shut ws l) {e : WebSocketEvent}
    {next : LiveWebSocket} {frame : WebSocketFrame} {frames : List WebSocketFrame}
    (hcomes : ws.comes e = frame :: frames) (hstep : Step ws e next) : Shut next l := by
  have hbehind := h.comes hcomes
  obtain ⟨base, hpoised, rfl⟩ := step_frame hcomes hstep
  have hbase : Shut { base with frameParser := {} } l :=
    { delivered :=
        (congrArg (List.filter WebSocketSignal.isNotification) hpoised.emitted).trans h.delivered
      tcpState := hpoised.tcpState.trans h.tcpState
      readBuffer := hpoised.readBuffer.elim id fun heq => heq.trans h.readBuffer
      waiting := fun remaining hresuming => by
        change base.waiting = some (.resuming remaining) at hresuming
        rw [hpoised.waiting] at hresuming
        cases hresuming
      behind := fun _ => .inr rfl }
  rw [← hpoised.clientMode, ← hpoised.fragmentOpcode, notifiesBehind] at hbehind
  rcases base.processFrame_cases frame with ⟨-, errorMessage, hfail⟩ |
    ⟨haccepted, hclose, hframe⟩ | ⟨haccepted, -, hframe⟩
  · rw [hfail]
    exact
      { delivered := by
          rw [← hbase.delivered]
          change (base.emitted ++ [WebSocketSignal.errorOccurred errorMessage]).filter _ = _
          rw [List.filter_append]
          exact List.append_nil _
        tcpState := hbase.tcpState
        readBuffer := hbase.readBuffer
        waiting := hbase.waiting
        behind := fun _ => .inl rfl }
  · rw [haccepted, Bool.true_and, Bool.or_eq_false_iff] at hbehind
    obtain ⟨-, hrest⟩ := hbehind
    rw [fragmentAfter_close hclose, ← hpoised.frames] at hrest
    have hdelivered : base.delivered = l := hbase.delivered
    rw [← hdelivered]
    exact shut_of_closes hframe hpoised.waiting hrest
  · rw [haccepted, Bool.true_and, Bool.or_eq_false_iff] at hbehind
    obtain ⟨hquiet, hrest⟩ := hbehind
    obtain ⟨signals, sent, fragmentPayload, heq, hsignals, -⟩ := hframe.eq
    have hnil : signals = [] := List.eq_nil_iff_forall_not_mem.mpr fun signal hsignal => by
      have hnotifies := (hsignals signal hsignal).2
      rw [hquiet] at hnotifies
      cases hnotifies
    rw [heq, hnil, List.append_nil]
    exact
      { delivered := hbase.delivered
        tcpState := hbase.tcpState
        readBuffer := hbase.readBuffer
        waiting := hbase.waiting
        behind := fun _ => .inr (hpoised.frames ▸ hrest) }

/-- The first Close frame. -/
theorem shut_first {l : List WebSocketSignal} (hnone : ws.atClose = none) {e : WebSocketEvent}
    {next : LiveWebSocket} (hlast : ClosesLast ws e) (hstep : Step ws e next)
    (hnext : next.atClose = some l) : Shut next l := by
  cases hcomes : ws.comes e with
  | nil =>
      rw [(quiet_step hcomes hstep).atClose, hnone] at hnext
      cases hnext
  | cons frame frames =>
      obtain ⟨base, hpoised, rfl⟩ := step_frame hcomes hstep
      have hbase : base.atClose = none := hpoised.atClose.trans hnone
      rcases base.processFrame_cases frame with ⟨-, errorMessage, hfail⟩ |
        ⟨haccepted, hclose, hframe⟩ | ⟨-, -, hframe⟩
      · rw [hfail] at hnext
        change base.atClose = some l at hnext
        rw [hbase] at hnext
        cases hnext
      · have hbehind := hlast frame frames hcomes
        rw [← hpoised.clientMode, ← hpoised.fragmentOpcode, ← hpoised.frames] at hbehind
        have hshut := shut_of_closes hframe hpoised.waiting (hbehind haccepted hclose)
        obtain ⟨sent, heq, -⟩ := hframe.eq
        rw [heq] at hnext
        change (base.atClose <|> some base.delivered) = some l at hnext
        rw [hbase] at hnext
        cases hnext
        exact hshut
      · obtain ⟨signals, sent, fragmentPayload, heq, -⟩ := hframe.eq
        rw [heq] at hnext
        change base.atClose = some l at hnext
        rw [hbase] at hnext
        cases hnext

/-- A step keeps what had been emitted at the first Close frame. -/
theorem atClose_step {l : List WebSocketSignal} (hsome : ws.atClose = some l) {e : WebSocketEvent}
    {next : LiveWebSocket} (hstep : Step ws e next) : next.atClose = some l := by
  cases hcomes : ws.comes e with
  | nil => exact (quiet_step hcomes hstep).atClose.trans hsome
  | cons frame frames =>
      obtain ⟨base, hpoised, rfl⟩ := step_frame hcomes hstep
      have hbase : base.atClose = some l := hpoised.atClose.trans hsome
      rcases base.processFrame_cases frame with ⟨-, errorMessage, hfail⟩ | ⟨-, -, hframe⟩ |
        ⟨-, -, hframe⟩
      · rw [hfail]
        exact hbase
      · obtain ⟨sent, heq, -⟩ := hframe.eq
        rw [heq]
        change (base.atClose <|> some base.delivered) = some l
        rw [hbase]
        rfl
      · obtain ⟨signals, sent, fragmentPayload, heq, -⟩ := hframe.eq
        rw [heq]
        exact hbase

/-- What a connection keeps to, whatever has come. -/
def ShutBehind (ws : LiveWebSocket) : Prop := ∀ l, ws.atClose = some l → Shut ws l

/-- Every step that closes last leaves the connection shut. -/
theorem shutBehind_step {e : WebSocketEvent} {next : LiveWebSocket} (h : ShutBehind ws)
    (hlast : ClosesLast ws e) (hstep : Step ws e next) : ShutBehind next := by
  intro l hnext
  cases hws : ws.atClose with
  | none => exact shut_first hws hlast hstep hnext
  | some l' =>
      obtain rfl := Option.some.inj ((atClose_step hws hstep).symm.trans hnext)
      cases hcomes : ws.comes e with
      | nil => exact (h l' hws).quiet (quiet_step hcomes hstep)
      | cons frame frames => exact (h l' hws).frame hcomes hstep

/-- Nothing has been delivered since the first Close frame was processed, and at most one has been
written. -/
structure Silent (ws : LiveWebSocket) : Prop where
  delivered : ∀ l, ws.atClose = some l → ws.delivered = l
  closes : ws.closes ≤ 1

/-- **Nothing is delivered behind a Close frame**, and at most one is written, in any run of a
connection in which no read brings something to be delivered behind a Close frame. -/
theorem silent_of_run {es : List WebSocketEvent} {next : LiveWebSocket} (hnew : ws.atClose = none)
    (hcloses : ws.closes = 0) (h : Run Step ClosesLast ws es next) : Silent next where
  delivered l hl := by
    have hstart : ShutBehind ws := fun l' hl' => by
      rw [hnew] at hl'
      cases hl'
    have hinv : ShutBehind next :=
      h.invariant (fun _ _ _ hinv hlast hstep => shutBehind_step hinv hlast hstep) hstart
    exact (hinv l hl).delivered
  closes := closes_of_reaches (Nat.le_trans (Nat.le_of_eq hcloses) (Nat.zero_le _)) h.forget

/-- A text message of a client. -/
def exampleText : Bytes := [0x81, 0x81, 0, 0, 0, 0, 120]

/-- A Close frame of a client. -/
def exampleClose : Bytes := [0x88, 0x80, 0, 0, 0, 0]

/-- A message in front of a Close frame. -/
theorem silent_example : ∃ next, next.delivered = [.textMessageReceived (bytes "x")] ∧
    next.atClose = some [.textMessageReceived (bytes "x")] ∧ Silent next := by
  have hrun : Run Step ClosesLast beginServerConnection
      [.tcpReceives (exampleText ++ exampleClose), .runs .readyRead, .slotsReturn, .slotsReturn]
      _ :=
    .cons (by decide) rfl <| .cons (by decide) rfl <| .cons (by decide) rfl <|
      .cons (by decide) rfl <| .nil _
  exact ⟨_, by decide, by decide, silent_of_run rfl rfl hrun⟩

/-- A message behind a Close frame, in the same read, is delivered. -/
theorem delivered_behind_close : ∃ next,
    Reaches Step beginServerConnection
      [.tcpReceives (exampleClose ++ exampleText), .runs .readyRead, .slotsReturn] next ∧
    next.atClose = some [] ∧ next.delivered = [.textMessageReceived (bytes "x")] ∧
    ¬Silent next := by
  refine ⟨_, .cons trivial rfl <| .cons trivial rfl <| .cons trivial rfl <| .nil _, ?_, ?_, ?_⟩
  · decide
  · decide
  · exact fun h => absurd (h.delivered [] (by decide)) (by decide)

end LiveWebSocket

end SimplyNode
