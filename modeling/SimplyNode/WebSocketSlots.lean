import SimplyNode.LiveWebSocket

/-!
# Slots that do not call back

A `LiveWebSocket` whose slots return at once does in several steps what a `WebSocketImplNative` does
in one: it processes the frames of a read, and closes the socket behind a call of `fail`.

## Main results

* `LiveWebSocket.processFrameBytes_passive`: **the steps of a read come to the result of
  `WebSocketImplNative.processFrameBytes`.**
-/

open Transition

namespace SimplyNode

open Text

namespace LiveWebSocket

/-- The session of a `WebSocket`. -/
def toSession (ws : LiveWebSocket) : WebSocketSession where
  clientMode := ws.clientMode
  state := ws.state
  closeFrameSent := ws.closeFrameSent
  fragmentOpcode := ws.fragmentOpcode
  fragmentPayload := ws.fragmentPayload
  socketOpen := ws.socketActive
  emitted := ws.emitted
  written := ws.written

/-- The `WebSocket` with its parser. -/
def toNative (ws : LiveWebSocket) : WebSocketImplNative where
  session := ws.toSession
  frameParser := ws.frameParser

/-- The slots return, again and again, until no handler waits. -/
def Settles (ws next : LiveWebSocket) : Prop :=
  ∃ n, Reaches Step ws (List.replicate n .slotsReturn) next ∧ next.idle = true

variable {ws : LiveWebSocket}

/-- A connection at rest has settled. -/
theorem Settles.refl (h : ws.idle = true) : Settles ws ws := ⟨0, .nil ws, h⟩

/-- The slots return once. -/
theorem Settles.cons {next : LiveWebSocket} (hidle : ws.idle = false)
    (h : Settles ws.slotsReturn next) : Settles ws next := by
  obtain ⟨n, hrun, hnext⟩ := h
  refine ⟨n + 1, .cons trivial ?_ hrun, hnext⟩
  rw [Step, step, hidle]
  rfl

/-- `sendFrame` is that of the session. -/
theorem toSession_sendFrame (opcode : OpCode) (payload : Bytes) (requireOpen : Bool) :
    (ws.sendFrame opcode payload requireOpen).toSession =
      ws.toSession.sendFrame opcode payload requireOpen := by
  rw [sendFrame, WebSocketSession.sendFrame]
  change (if requireOpen = true ∧ ws.state ≠ .opened then _ else _ : LiveWebSocket).toSession =
    if requireOpen = true ∧ ws.state ≠ .opened then _ else if ws.socketActive then _ else _
  split_ifs <;> rfl

/-- A frame that is accepted. -/
theorem toSession_processFrame {frame : WebSocketFrame}
    (h : frame.accepted ws.clientMode ws.fragmentOpcode = true) :
    (ws.processFrame frame).toSession = ws.toSession.processFrame frame := by
  obtain ⟨hmask, hcontinues⟩ := of_decide_eq_true h
  obtain ⟨hclient, hserver⟩ := (WebSocketSession.mask_iff (s := ws.toSession)).mp hmask
  obtain ⟨fin, opcode, masked, payload⟩ := frame
  have hclient' : ¬(ws.clientMode = false ∧ masked = false) := hclient
  have hserver' : ¬(ws.clientMode = true ∧ masked = true) := hserver
  rw [processFrame, if_neg hclient', if_neg hserver', WebSocketSession.processFrame,
    if_neg hclient, if_neg hserver]
  cases opcode with
  | text | binary => cases fin <;> rfl
  | continuation =>
      have hopen : ws.toSession.fragmentOpcode ≠ .continuation := hcontinues rfl
      rw [if_neg (hcontinues rfl), if_neg hopen]
      cases fin <;> rfl
  | ping => exact toSession_sendFrame .pong payload true
  | pong => rfl
  | close =>
      have hsent := @toSession_sendFrame ws .close payload false
      have hnoted : ws.toSession.closeFrameSent = ws.closeFrameSent := rfl
      dsimp only
      rw [hnoted, ← hsent]
      cases ws.closeFrameSent <;> rfl

/-- A frame that is not accepted. -/
theorem processFrame_rejected_both {frame : WebSocketFrame}
    (h : frame.accepted ws.clientMode ws.fragmentOpcode = false) :
    ∃ errorMessage, ws.processFrame frame = ws.fail errorMessage ∧
      ws.toSession.processFrame frame = ws.toSession.fail errorMessage := by
  by_cases hclient : ws.clientMode = false ∧ frame.masked = false
  · exact ⟨_, if_pos hclient, if_pos hclient⟩
  by_cases hserver : ws.clientMode = true ∧ frame.masked = true
  · exact ⟨_, (if_neg hclient).trans (if_pos hserver), (if_neg hclient).trans (if_pos hserver)⟩
  have hmask := (WebSocketSession.mask_iff (s := ws.toSession)).mpr ⟨hclient, hserver⟩
  have hcontinues := mt (And.intro hmask) (of_decide_eq_false h)
  obtain ⟨hopcode, hfragment⟩ := Classical.not_imp.mp hcontinues
  have hnone : ws.fragmentOpcode = .continuation := not_not.mp hfragment
  have hsession : ws.toSession.fragmentOpcode = .continuation := hnone
  refine ⟨"Unexpected WebSocket continuation frame", ?_, ?_⟩
  · rw [processFrame, if_neg hclient, if_neg hserver, hopcode, if_pos hnone]
  · have hclient' : ¬(ws.toSession.clientMode = false ∧ frame.masked = false) := hclient
    have hserver' : ¬(ws.toSession.clientMode = true ∧ frame.masked = true) := hserver
    rw [WebSocketSession.processFrame, if_neg hclient', if_neg hserver', hopcode, if_pos hsession]

/-- A frame that is accepted leaves the parser and the handlers alone. -/
theorem processFrame_keeps {frame : WebSocketFrame}
    (h : frame.accepted ws.clientMode ws.fragmentOpcode = true) :
    (ws.processFrame frame).frameParser = ws.frameParser ∧
      (ws.processFrame frame).waiting = ws.waiting ∧
      (ws.processFrame frame).failing = ws.failing := by
  have hframe := processFrame_accepted h
  split at hframe
  · obtain ⟨sent, heq, -⟩ := hframe.eq
    rw [heq]
    exact ⟨rfl, rfl, rfl⟩
  · obtain ⟨signals, sent, fragmentPayload, heq, -⟩ := hframe.eq
    rw [heq]
    exact ⟨rfl, rfl, rfl⟩

/-- When the slots of a message return, the draining goes on. -/
theorem slotsReturn_draining (hfailing : ws.failing = 0) (hwaiting : ws.waiting = some .draining) :
    ws.slotsReturn = { ws with waiting := none }.goesOn := by
  rw [slotsReturn, if_neg (by omega), hwaiting]

/-- A connection without open slots is idle. -/
theorem idle_of (hwaiting : ws.waiting = none) (hfailing : ws.failing = 0) : ws.idle = true := by
  rw [idle, hwaiting, hfailing]
  rfl

/-- A connection that drains is not idle. -/
theorem not_idle_of_draining (h : ws.waiting = some .draining) : ws.idle = false := by
  rw [idle, h]
  rfl

/-- The loop is left behind a frame. -/
theorem settles_stop (hwaiting : ws.waiting = some .draining) (hfailing : ws.failing = 0)
    (hstop : ws.state = .error ∨ ws.state = .closed) : Settles ws { ws with waiting := none } := by
  have hleft : ws.slotsReturn = { ws with waiting := none } := by
    rw [slotsReturn_draining hfailing hwaiting, goesOn]
    exact if_pos hstop
  refine .cons (not_idle_of_draining hwaiting) ?_
  rw [hleft]
  exact .refl (idle_of rfl hfailing)

/-- The loop goes on behind a frame. -/
theorem settles_goesOn {next : LiveWebSocket} (hwaiting : ws.waiting = some .draining)
    (hfailing : ws.failing = 0) (hgoes : ¬(ws.state = .error ∨ ws.state = .closed))
    (h : Settles ({ ws with waiting := none } : LiveWebSocket).nextFrame next) :
    Settles ws next := by
  have hmore : ws.slotsReturn = ({ ws with waiting := none } : LiveWebSocket).nextFrame := by
    rw [slotsReturn_draining hfailing hwaiting, goesOn]
    exact if_neg hgoes
  refine .cons (not_idle_of_draining hwaiting) ?_
  rw [hmore]
  exact h

/-- When the slots of a failure return, the socket is closed. -/
theorem slotsReturn_fail (h : ws.failing = 0) (errorMessage : String) :
    (ws.fail errorMessage).slotsReturn =
      { ws.fail errorMessage with failing := 0 }.socketClose := by
  have hpos : 0 < (ws.fail errorMessage).failing := Nat.succ_pos _
  have hzero : (ws.fail errorMessage).failing - 1 = 0 := by
    change ws.failing + 1 - 1 = 0
    omega
  rw [slotsReturn, if_pos hpos, hzero]

/-- A call of `fail` comes to its end, and the loop with it. -/
theorem settles_fail (hfailing : ws.failing = 0)
    (hwaiting : ws.waiting = none ∨ ws.waiting = some .draining) (errorMessage : String) :
    ∃ next, Settles (ws.fail errorMessage) next ∧
      next.toSession = ws.toSession.fail errorMessage ∧ next.frameParser = ws.frameParser := by
  have hbusy : (ws.fail errorMessage).idle = false := by simp [idle, fail]
  have hfail := slotsReturn_fail hfailing errorMessage
  generalize hclosed : ({ ws.fail errorMessage with failing := 0 } : LiveWebSocket).socketClose =
    closed at hfail
  have hsession : closed.toSession = ws.toSession.fail errorMessage := by
    rw [← hclosed]
    rfl
  have hparser : closed.frameParser = ws.frameParser := by
    rw [← hclosed]
    rfl
  have hwaits : closed.waiting = ws.waiting := by
    rw [← hclosed]
    rfl
  have hzero : closed.failing = 0 := by
    rw [← hclosed]
    rfl
  have herror : closed.state = .error := by
    rw [← hclosed]
    rfl
  rcases hwaiting with hnone | hdraining
  · refine ⟨closed, .cons hbusy ?_, hsession, hparser⟩
    rw [hfail]
    exact .refl (idle_of (hwaits.trans hnone) hzero)
  · have hloop : closed.waiting = some .draining := hwaits.trans hdraining
    refine ⟨{ closed with waiting := none }, .cons hbusy ?_, hsession, hparser⟩
    rw [hfail]
    exact settles_stop hloop hzero (.inl herror)

/-- **The loop over the frames.** -/
theorem nextFrame_passive (hwaiting : ws.waiting = none) (hfailing : ws.failing = 0) :
    ∃ next, Settles ws.nextFrame next ∧
      next.toSession = (processFrames ws.frameParser.frames ws.toSession).1 ∧
      next.frameParser =
        { ws.frameParser with frames := (processFrames ws.frameParser.frames ws.toSession).2 } := by
  induction hframes : ws.frameParser.frames generalizing ws with
  | nil =>
      rw [nextFrame]
      simp only [hframes]
      refine ⟨ws, .refl (idle_of hwaiting hfailing), rfl, ?_⟩
      change ws.frameParser = { ws.frameParser with frames := [] }
      rw [← hframes]
  | cons frame frames ih =>
      rw [nextFrame]
      simp only [hframes]
      generalize hbase : ({ ws with
        frameParser := { ws.frameParser with frames := frames }
        waiting := some Waiting.draining } : LiveWebSocket) = base
      have hdraining : base.waiting = some .draining := by rw [← hbase]
      have hzero : base.failing = 0 := by rw [← hbase]; exact hfailing
      have hparser : base.frameParser = { ws.frameParser with frames := frames } := by rw [← hbase]
      have hsession : ws.toSession = base.toSession := by rw [← hbase]; rfl
      rw [hsession, processFrames]
      cases haccepted : frame.accepted base.clientMode base.fragmentOpcode with
      | false =>
          obtain ⟨errorMessage, hlive, hatomic⟩ := processFrame_rejected_both haccepted
          obtain ⟨next, hsettles, hnext, hkept⟩ := settles_fail hzero (.inr hdraining) errorMessage
          simp only [hlive, hatomic]
          rw [if_pos (.inl rfl)]
          exact ⟨next, hsettles, hnext, hkept.trans hparser⟩
      | true =>
          obtain ⟨hkept, hwaits, hzero'⟩ := processFrame_keeps haccepted
          have hatomic := toSession_processFrame haccepted
          simp only [← hatomic]
          generalize base.processFrame frame = processed at hkept hwaits hzero'
          have hstate : processed.toSession.state = processed.state := rfl
          have hloop := hwaits.trans hdraining
          rw [hstate]
          by_cases hstop : processed.state = .error ∨ processed.state = .closed
          · rw [if_pos hstop]
            exact ⟨{ processed with waiting := none },
              settles_stop hloop (hzero'.trans hzero) hstop, rfl, hkept.trans hparser⟩
          · have hframes' : ({ processed with waiting := none } : LiveWebSocket).frameParser.frames
                = frames := by
              change processed.frameParser.frames = frames
              rw [hkept, hparser]
            obtain ⟨next, hsettles, hnext, hmore⟩ :=
              @ih { processed with waiting := none } rfl (hzero'.trans hzero) hframes'
            rw [if_neg hstop]
            have hrest : next.frameParser = { processed.frameParser with
                frames := (processFrames frames processed.toSession).2 } := hmore
            refine ⟨next, settles_goesOn hloop (hzero'.trans hzero) hstop hsettles, hnext, ?_⟩
            rw [hrest, hkept, hparser]

/-- **The steps of a read come to the result of `WebSocketImplNative.processFrameBytes`**, if the
slots do not call back. -/
theorem processFrameBytes_passive (hidle : ws.idle = true) (data : Bytes) :
    ∃ next, Settles (ws.processFrameBytes data) next ∧
      next.toNative = ws.toNative.processFrameBytes data := by
  obtain ⟨hwaiting, hfailing⟩ := Bool.and_eq_true_iff.mp hidle
  have hnone : ws.waiting = none := of_decide_eq_true hwaiting
  have hzero : ws.failing = 0 := of_decide_eq_true hfailing
  generalize hfed : ({ ws with frameParser := ws.frameParser.feed data } : LiveWebSocket) = fed
  have hnone' : fed.waiting = none := by rw [← hfed]; exact hnone
  have hzero' : fed.failing = 0 := by rw [← hfed]; exact hzero
  have hsession : ws.toSession = fed.toSession := by rw [← hfed]; rfl
  have hparser : ws.frameParser.feed data = fed.frameParser := by rw [← hfed]
  rw [processFrameBytes, WebSocketImplNative.processFrameBytes, hfed]
  simp only [toNative, hsession, hparser]
  by_cases herror : fed.frameParser.hasError = true
  · rw [if_pos herror, if_pos herror]
    obtain ⟨next, hsettles, hnext, hkept⟩ := settles_fail hzero' (.inl hnone') fed.frameParser.error
    exact ⟨next, hsettles, by rw [hnext, hkept]⟩
  · rw [if_neg herror, if_neg herror]
    obtain ⟨next, hsettles, hnext, hkept⟩ := nextFrame_passive hnone' hzero'
    exact ⟨next, hsettles, by rw [hnext, hkept]⟩

end LiveWebSocket

end SimplyNode
