import SimplyNode.WebSocketConnection

/-!
# Read Boundaries of a WebSocket Connection

The frames of a stream do not depend on how it has been cut into reads, and what the application is
handed should not either. `inOrder` is the reference: frame by frame, until the socket is closed. A
read departs from it in two ways. `processFrameBytes` looks for an error of the parser before it
goes through the frames that the parser has found in front of it, and its loop does not stop behind
a `Close` frame, though the socket is closed and nothing of a later read comes through.

## Main results

* `Waiting.agrees`: what a read hands over, and when this is what the reference does.
* `receive_agrees`: the same for all reads of a connection.
* `harmless_bytes`: reads of one byte follow the reference.
* `delivered_iff_harmless`: **the application is handed the same as byte by byte** exactly if no
  read departs from the reference.
-/

namespace SimplyNode

open Text Incremental WebSocketFrame WebSocketSession

/-! ### The reference -/

/-- Frame by frame, as long as the socket is open. -/
def inOrder : List WebSocketFrame → WebSocketSession → WebSocketSession
  | [], s => s
  | frame :: frames, s => if s.socketOpen then inOrder frames (s.processFrame frame) else s

/-- The error behind the frames. -/
def failedWith (s : WebSocketSession) : Option String → WebSocketSession
  | none => s
  | some errorMessage => if s.socketOpen then s.fail errorMessage else s

/-- The reference for what has been found in a buffer. -/
def streamed (s : WebSocketSession) (found : Drained String WebSocketFrame UInt8) :
    WebSocketSession :=
  failedWith (inOrder found.items s) found.error

/-- The frames up to the first one that is not accepted. -/
def acceptedFrames (clientMode : Bool) : OpCode → List WebSocketFrame → List WebSocketFrame
  | _, [] => []
  | fragmentOpcode, frame :: frames =>
      if frame.accepted clientMode fragmentOpcode then
        frame :: acceptedFrames clientMode (frame.fragmentAfter fragmentOpcode) frames
      else []

/-- The frame does not end the connection. -/
def WebSocketFrame.goesOn (frame : WebSocketFrame) : Bool := frame.opcode ≠ .close

/-- What the parser finds with a read. -/
def WebSocketImplNative.found (ws : WebSocketImplNative) (data : Bytes) :
    Drained String WebSocketFrame UInt8 :=
  drain (tryParseOne 64) (ws.frameParser.buffer ++ data)

/-- A frame that ends the reading tells the program nothing. -/
theorem notifies_of_close {frame : WebSocketFrame} (h : frame.goesOn = false) :
    frame.notifies = false := by
  rw [notifies, not_not.mp (of_decide_eq_false h)]

/-- A read hands over what it should: in front of an error there is nothing for the application, and
neither is there behind a `Close` frame. -/
def HarmlessRead (ws : WebSocketImplNative) (data : Bytes) : Prop :=
  let frames :=
    acceptedFrames ws.session.clientMode ws.session.fragmentOpcode (ws.found data).items
  if (ws.found data).error = none then ∀ frame ∈ frames.dropWhile goesOn, frame.notifies = false
  else ∀ frame ∈ frames.takeWhile goesOn, frame.notifies = false

/-- Every read of an open connection hands over what it should. -/
def Harmless : WebSocketImplNative → List Bytes → Prop
  | _, [] => True
  | ws, data :: pieces =>
      (ws.session.socketOpen = true → HarmlessRead ws data) ∧ Harmless (ws.read data) pieces

/-! ### Frames in order -/

/-- Behind the end of the socket no frame changes anything. -/
theorem inOrder_closed {s : WebSocketSession} (h : s.socketOpen = false)
    (frames : List WebSocketFrame) : inOrder frames s = s := by
  cases frames with
  | nil => rfl
  | cons frame frames => rw [inOrder, h, if_neg Bool.false_ne_true]

/-- Frames in two parts are frames in order. -/
theorem inOrder_append (xs ys : List WebSocketFrame) (s : WebSocketSession) :
    inOrder (xs ++ ys) s = inOrder ys (inOrder xs s) := by
  induction xs generalizing s with
  | nil => rfl
  | cons frame xs ih =>
      rw [List.cons_append, inOrder, inOrder]
      split
      · exact ih _
      · exact (inOrder_closed (Bool.not_eq_true _ ▸ ‹_›) ys).symm

/-- A failure delivers nothing. -/
theorem delivered_failedWith (s : WebSocketSession) (error : Option String) :
    (failedWith s error).delivered = s.delivered := by
  cases error with
  | none => rfl
  | some errorMessage =>
      rw [failedWith]
      split
      · exact delivered_fail errorMessage
      · rfl

/-- A connection that is closed cannot fail. -/
theorem failedWith_closed {s : WebSocketSession} (h : s.socketOpen = false)
    (error : Option String) : failedWith s error = s := by
  cases error with
  | none => rfl
  | some errorMessage => rw [failedWith, h, if_neg Bool.false_ne_true]

/-- A failure with a text closes the socket. -/
theorem socketOpen_failedWith (s : WebSocketSession) (errorMessage : String) :
    (failedWith s (some errorMessage)).socketOpen = false := by
  rw [failedWith]
  split
  · rfl
  · exact Bool.eq_false_iff.mpr ‹_›

/-- A session that reads is open. -/
def Reading (s : WebSocketSession) : Prop := s.socketOpen = true ∧ s.state = .opened

/-- The number of frames for the application. -/
def notifications (frames : List WebSocketFrame) : ℕ := frames.countP notifies

/-- There are no notifications exactly if no frame makes one. -/
theorem notifications_eq_zero {frames : List WebSocketFrame} :
    notifications frames = 0 ↔ ∀ frame ∈ frames, frame.notifies = false := by
  rw [notifications, List.countP_eq_zero]
  exact forall₂_congr fun frame _ => by rw [Bool.not_eq_true]

/-- The notifications of the first frame and of the rest. -/
theorem notifications_cons (frame : WebSocketFrame) (frames : List WebSocketFrame) :
    notifications (frame :: frames) = (if frame.notifies then 1 else 0) + notifications frames := by
  rw [notifications, notifications, List.countP_cons, Nat.add_comm]

/-- What stands behind a frame that is rejected is not accepted. -/
theorem acceptedFrames_rejected {clientMode : Bool} {fragmentOpcode : OpCode}
    {frame : WebSocketFrame} (h : frame.accepted clientMode fragmentOpcode = false)
    (frames : List WebSocketFrame) :
    acceptedFrames clientMode fragmentOpcode (frame :: frames) = [] := by
  rw [acceptedFrames, h, if_neg Bool.false_ne_true]

/-- The frames behind one that a session has accepted. -/
theorem acceptedFrames_cons {s s' : WebSocketSession} {frame : WebSocketFrame}
    (h : frame.accepted s.clientMode s.fragmentOpcode = true) (hs : Processed s frame s')
    (frames : List WebSocketFrame) :
    acceptedFrames s.clientMode s.fragmentOpcode (frame :: frames) =
      frame :: acceptedFrames s'.clientMode s'.fragmentOpcode frames := by
  rw [acceptedFrames, if_pos h, hs.clientMode, hs.fragment]

/-- The loop goes on. -/
theorem processFrames_cons {s : WebSocketSession} {frame : WebSocketFrame}
    (h : (s.processFrame frame).state = .opened ∨ (s.processFrame frame).state = .closing)
    (frames : List WebSocketFrame) :
    processFrames (frame :: frames) s = processFrames frames (s.processFrame frame) := by
  rw [processFrames]
  obtain h | h := h
  · rw [h, if_neg (by decide)]
  · rw [h, if_neg (by decide)]

/-- The loop stops at a failure. -/
theorem processFrames_failed {s : WebSocketSession} {frame : WebSocketFrame} {errorMessage : String}
    (h : s.processFrame frame = s.fail errorMessage) (frames : List WebSocketFrame) :
    processFrames (frame :: frames) s = (s.fail errorMessage, frames) := by
  rw [processFrames, h]
  exact if_pos (Or.inl rfl)

/-- A session that is open or closing is so behind a frame that it accepts. -/
theorem WebSocketSession.Processed.active {s s' : WebSocketSession} {frame : WebSocketFrame}
    (hs : Processed s frame s') (h : s.state = .opened ∨ s.state = .closing) :
    s'.state = .opened ∨ s'.state = .closing := by
  rw [hs.state]
  split
  · exact Or.inr rfl
  · exact h

/-- A session reads on behind a frame that it accepts, unless this is a `Close` frame. -/
theorem WebSocketSession.Processed.reading {s s' : WebSocketSession} {frame : WebSocketFrame}
    (hs : Processed s frame s') (hgoes : frame.goesOn = true) (h : Reading s) : Reading s' := by
  have hclose : frame.opcode ≠ .close := of_decide_eq_true hgoes
  rw [Reading, hs.socketOpen, hs.state, if_neg hclose, if_neg hclose]
  exact h

/-- The socket is closed behind a `Close` frame. -/
theorem WebSocketSession.Processed.closed {s s' : WebSocketSession} {frame : WebSocketFrame}
    (hs : Processed s frame s') (hgoes : frame.goesOn = false) : s'.socketOpen = false := by
  rw [hs.socketOpen, if_pos (not_not.mp (of_decide_eq_false hgoes))]

/-- **What the loop hands over**: a signal for each of the accepted frames that notify. -/
theorem delivered_processFrames {s : WebSocketSession} (h : s.state = .opened ∨ s.state = .closing)
    (frames : List WebSocketFrame) :
    ∃ l, (processFrames frames s).1.delivered = s.delivered ++ l ∧
      l.length = notifications (acceptedFrames s.clientMode s.fragmentOpcode frames) := by
  induction frames generalizing s with
  | nil => exact ⟨[], (List.append_nil _).symm, rfl⟩
  | cons frame frames ih =>
      cases haccepted : frame.accepted s.clientMode s.fragmentOpcode with
      | false =>
          obtain ⟨errorMessage, hfail⟩ := processFrame_rejected haccepted
          rw [processFrames_failed hfail, acceptedFrames_rejected haccepted]
          exact ⟨[], by rw [delivered_fail, List.append_nil], rfl⟩
      | true =>
          have hs := processFrame_accepted haccepted
          obtain ⟨l, hl, hlength⟩ := hs.delivered
          obtain ⟨l', hl', hlength'⟩ := ih (hs.active h)
          rw [processFrames_cons (hs.active h), acceptedFrames_cons haccepted hs]
          refine ⟨l ++ l', by rw [hl', hl, List.append_assoc], ?_⟩
          rw [List.length_append, hlength, hlength', notifications_cons]

/-- The loop does not open a socket again. -/
theorem processFrames_closed {s : WebSocketSession} (h : s.socketOpen = false)
    (frames : List WebSocketFrame) : (processFrames frames s).1.socketOpen = false := by
  induction frames generalizing s with
  | nil => exact h
  | cons frame frames ih =>
      have hnext : (s.processFrame frame).socketOpen = false := by
        cases haccepted : frame.accepted s.clientMode s.fragmentOpcode with
        | false =>
            obtain ⟨errorMessage, hfail⟩ := processFrame_rejected haccepted
            rw [hfail]
            rfl
        | true => rw [(processFrame_accepted haccepted).socketOpen, h, ite_self]
      rw [processFrames]
      split
      · exact hnext
      · exact ih hnext

/-- **The loop and the reference** part at a `Close` frame. -/
theorem processFrames_inOrder {s : WebSocketSession} (h : Reading s)
    (frames : List WebSocketFrame) :
    (Reading (inOrder frames s) ∧ processFrames frames s = (inOrder frames s, []) ∨
      (inOrder frames s).socketOpen = false ∧ (processFrames frames s).1.socketOpen = false) ∧
    ∃ l, (processFrames frames s).1.delivered = (inOrder frames s).delivered ++ l ∧
      l.length = notifications
        ((acceptedFrames s.clientMode s.fragmentOpcode frames).dropWhile goesOn) := by
  induction frames generalizing s with
  | nil => exact ⟨Or.inl ⟨h, rfl⟩, [], (List.append_nil _).symm, rfl⟩
  | cons frame frames ih =>
      rw [inOrder, if_pos h.1]
      cases haccepted : frame.accepted s.clientMode s.fragmentOpcode with
      | false =>
          obtain ⟨errorMessage, hfail⟩ := processFrame_rejected haccepted
          have hclosed : (s.fail errorMessage).socketOpen = false := rfl
          rw [processFrames_failed hfail, acceptedFrames_rejected haccepted, hfail,
            inOrder_closed hclosed]
          exact ⟨Or.inr ⟨hclosed, hclosed⟩, [], (List.append_nil _).symm, rfl⟩
      | true =>
          have hs := processFrame_accepted haccepted
          rw [processFrames_cons (hs.active (Or.inl h.2)), acceptedFrames_cons haccepted hs]
          cases hgoes : frame.goesOn with
          | false =>
              -- a `Close` frame: the reference is over, and the loop goes on
              have hclosed := hs.closed hgoes
              have hquiet := notifies_of_close hgoes
              obtain ⟨l, hl, hlength⟩ := delivered_processFrames (hs.active (Or.inl h.2)) frames
              rw [inOrder_closed hclosed, List.dropWhile_cons, hgoes, if_neg Bool.false_ne_true]
              refine ⟨Or.inr ⟨hclosed, processFrames_closed hclosed frames⟩, l, hl, ?_⟩
              rw [hlength, notifications_cons, hquiet, if_neg Bool.false_ne_true, Nat.zero_add]
          | true =>
              rw [List.dropWhile_cons, hgoes, if_pos rfl]
              exact ih (hs.reading hgoes h)

/-- What the reference hands over. -/
theorem delivered_inOrder {s : WebSocketSession} (h : Reading s) (frames : List WebSocketFrame) :
    ∃ l, (inOrder frames s).delivered = s.delivered ++ l ∧
      l.length = notifications
        ((acceptedFrames s.clientMode s.fragmentOpcode frames).takeWhile goesOn) := by
  induction frames generalizing s with
  | nil => exact ⟨[], (List.append_nil _).symm, rfl⟩
  | cons frame frames ih =>
      rw [inOrder, if_pos h.1]
      cases haccepted : frame.accepted s.clientMode s.fragmentOpcode with
      | false =>
          obtain ⟨errorMessage, hfail⟩ := processFrame_rejected haccepted
          rw [acceptedFrames_rejected haccepted, hfail, inOrder_closed rfl]
          exact ⟨[], by rw [delivered_fail, List.append_nil], rfl⟩
      | true =>
          have hs := processFrame_accepted haccepted
          obtain ⟨l, hl, hlength⟩ := hs.delivered
          rw [acceptedFrames_cons haccepted hs, List.takeWhile_cons]
          cases hgoes : frame.goesOn with
          | false =>
              have hquiet := notifies_of_close hgoes
              rw [hquiet, if_neg Bool.false_ne_true] at hlength
              rw [inOrder_closed (hs.closed hgoes), if_neg Bool.false_ne_true]
              exact ⟨l, hl, hlength⟩
          | true =>
              obtain ⟨l', hl', hlength'⟩ := ih (hs.reading hgoes h)
              rw [if_pos rfl]
              refine ⟨l ++ l', by rw [hl', hl, List.append_assoc], ?_⟩
              rw [List.length_append, hlength, hlength', notifications_cons]

/-! ### A read -/

namespace WebSocketImplNative

/-- What a read delivers is what its handler delivers. -/
theorem delivered_read (ws : WebSocketImplNative) (data : Bytes) :
    (ws.read data).delivered = (ws.handleTcpReadyRead data).delivered := by
  rw [read]
  split
  · exact delivered_handleTcpDisconnected
  · rfl

/-- The socket is open after a read exactly if it is after the handler. -/
theorem socketOpen_read (ws : WebSocketImplNative) (data : Bytes) :
    (ws.read data).session.socketOpen = (ws.handleTcpReadyRead data).session.socketOpen := by
  rw [read]
  split
  · exact socketOpen_handleTcpDisconnected
  · rfl

/-- A read that leaves the socket open is the handler. -/
theorem read_of_open {ws : WebSocketImplNative} {data : Bytes}
    (h : (ws.handleTcpReadyRead data).session.socketOpen = true) :
    ws.read data = ws.handleTcpReadyRead data := by
  rw [read]
  exact if_neg fun hclosed => Bool.false_ne_true (hclosed.2.symm.trans h)

/-- A closed socket reads nothing. -/
theorem read_closed {ws : WebSocketImplNative} (h : ws.session.socketOpen = false) (data : Bytes) :
    ws.read data = ws := by
  rw [read, handleTcpReadyRead, if_pos (Or.inl h)]
  exact if_neg fun hopen => Bool.false_ne_true (h.symm.trans hopen.1)

/-- A closed socket receives nothing. -/
theorem receive_closed {ws : WebSocketImplNative} (h : ws.session.socketOpen = false)
    (pieces : List Bytes) : ws.receive pieces = ws := by
  induction pieces with
  | nil => rfl
  | cons data pieces ih =>
      rw [receive, List.foldl_cons, read_closed h]
      exact ih

/-- Between two reads of an open connection nothing is queued, and the buffer needs more. -/
structure Waiting (ws : WebSocketImplNative) : Prop where
  reading : Reading ws.session
  frames : ws.frameParser.frames = []
  error : ws.frameParser.error = ""
  more : tryParseOne 64 ws.frameParser.buffer = .more

/-- Behind the handshake the connection waits for a frame. -/
theorem waiting_afterHandshake (clientMode : Bool) : Waiting (afterHandshake clientMode) where
  reading := ⟨rfl, rfl⟩
  frames := rfl
  error := rfl
  more := rfl

variable {ws : WebSocketImplNative} {data : Bytes}

/-- The parser behind a read. -/
theorem Waiting.feed (h : Waiting ws) (hdata : data ≠ []) :
    ws.frameParser.feed data =
      ⟨(ws.found data).rest, (ws.found data).items, (ws.found data).error.getD ""⟩ := by
  rw [WebSocketFrameParser.feed_eq h.error hdata, h.frames, List.nil_append, found]

/-- A connection that waits for a frame reads frames. -/
theorem Waiting.handleTcpReadyRead (h : Waiting ws) (hdata : data ≠ []) :
    ws.handleTcpReadyRead data = ws.processFrameBytes data := by
  rw [WebSocketImplNative.handleTcpReadyRead]
  refine if_neg (not_or.mpr ⟨?_, hdata⟩)
  rw [h.reading.1]
  exact Bool.true_eq_false_eq_False

/-- A read that the parser finds malformed fails the connection. -/
theorem Waiting.read_failed (h : Waiting ws) (hdata : data ≠ []) {errorMessage : String}
    (herror : (ws.found data).error = some errorMessage) :
    (ws.read data).delivered = ws.delivered ∧ (ws.read data).session.socketOpen = false := by
  have hfails : (ws.frameParser.feed data).hasError = true := by
    rw [WebSocketFrameParser.hasError, h.feed hdata, herror]
    exact decide_eq_true (drain_error failsWith_tryParseOne herror)
  rw [delivered_read, socketOpen_read, h.handleTcpReadyRead hdata, processFrameBytes]
  dsimp only
  rw [if_pos hfails]
  exact ⟨delivered_fail _, rfl⟩

/-- Any other read goes through the frames. -/
theorem Waiting.read_frames (h : Waiting ws) (hdata : data ≠ [])
    (herror : (ws.found data).error = none) :
    ws.handleTcpReadyRead data =
      ⟨(processFrames (ws.found data).items ws.session).1,
        ⟨(ws.found data).rest, (processFrames (ws.found data).items ws.session).2, ""⟩⟩ := by
  have hsound : ¬(ws.frameParser.feed data).hasError = true := by
    rw [WebSocketFrameParser.hasError, h.feed hdata, herror]
    exact fun hfails => of_decide_eq_true hfails rfl
  rw [h.handleTcpReadyRead hdata, processFrameBytes]
  dsimp only
  rw [if_neg hsound, h.feed hdata, herror]
  rfl

/-- Behind a read of an open connection, what is handed over is as the reference has it, or not, and
either both are over, or both go on from the same. -/
structure Agrees (ws : WebSocketImplNative) (data : Bytes) : Prop where
  delivered : (ws.read data).delivered = (streamed ws.session (ws.found data)).delivered ↔
    HarmlessRead ws data
  next : (ws.read data).session.socketOpen = false ∧
      (streamed ws.session (ws.found data)).socketOpen = false ∨
    Waiting (ws.read data) ∧ (ws.read data).session = streamed ws.session (ws.found data) ∧
      (ws.read data).frameParser.buffer = (ws.found data).rest

/-- Nothing has come. -/
theorem Waiting.found_nil (h : Waiting ws) : ws.found [] = ⟨[], ws.frameParser.buffer, none⟩ := by
  rw [found, List.append_nil, drain_more h.more]

/-- Before anything is read the two agree. -/
theorem Waiting.agrees_nil (h : Waiting ws) : Agrees ws [] := by
  have hread : ws.read [] = ws := by
    rw [read, WebSocketImplNative.handleTcpReadyRead, if_pos (Or.inr rfl)]
    exact if_neg fun hclosed => Bool.false_ne_true (hclosed.2.symm.trans hclosed.1)
  have hharmless : HarmlessRead ws [] := by
    rw [HarmlessRead, h.found_nil, if_pos rfl]
    exact List.forall_mem_nil _
  have hstreamed : streamed ws.session (ws.found []) = ws.session := by
    rw [h.found_nil]
    rfl
  refine ⟨iff_of_true ?_ hharmless, Or.inr ⟨?_, ?_, ?_⟩⟩
  · rw [hread, hstreamed, delivered]
  · rwa [hread]
  · rw [hread, hstreamed]
  · rw [hread, h.found_nil]

/-- **What a read hands over**, and when this is what the reference does. -/
theorem Waiting.agrees (h : Waiting ws) (data : Bytes) : Agrees ws data := by
  by_cases hdata : data = []
  · rw [hdata]
    exact h.agrees_nil
  cases herror : (ws.found data).error with
  | some errorMessage =>
      obtain ⟨hdelivered, hclosed⟩ := h.read_failed hdata herror
      obtain ⟨l, hl, hlength⟩ := delivered_inOrder h.reading (ws.found data).items
      refine ⟨?_, Or.inl ⟨hclosed, ?_⟩⟩
      · rw [hdelivered, streamed, delivered_failedWith, hl, HarmlessRead, herror,
          if_neg (Option.some_ne_none _), ← notifications_eq_zero, ← hlength,
          List.length_eq_zero_iff]
        exact List.self_eq_append_right
      · rw [streamed, herror]
        exact socketOpen_failedWith _ _
  | none =>
      have hread := h.read_frames hdata herror
      have hstreamed : streamed ws.session (ws.found data) =
          inOrder (ws.found data).items ws.session := by
        rw [streamed, herror, failedWith]
      obtain ⟨hnext, l, hl, hlength⟩ := processFrames_inOrder h.reading (ws.found data).items
      refine ⟨?_, ?_⟩
      · rw [delivered_read, hread, hstreamed, HarmlessRead, herror, if_pos rfl,
          ← notifications_eq_zero, ← hlength, List.length_eq_zero_iff, delivered, hl]
        exact List.append_right_eq_self
      · rw [hstreamed]
        obtain ⟨hreading, hprocessed⟩ | ⟨hreference, hclosed⟩ := hnext
        · rw [hprocessed] at hread
          have hopen : (ws.handleTcpReadyRead data).session.socketOpen = true := by
            rw [hread]
            exact hreading.1
          have hrest := drain_rest consumes_tryParseOne herror
          rw [read_of_open hopen, hread]
          exact Or.inr ⟨⟨hreading, rfl, rfl, hrest⟩, rfl, rfl⟩
        · refine Or.inl ⟨?_, hreference⟩
          rw [socketOpen_read, hread]
          exact hclosed

end WebSocketImplNative

/-! ### The reads of a connection -/

namespace WebSocketImplNative

/-- The reference for a stream that comes in two parts. -/
theorem streamed_append (ws : WebSocketImplNative) (data later : Bytes) :
    streamed ws.session (ws.found (data ++ later)) =
      if (streamed ws.session (ws.found data)).socketOpen then
        streamed (streamed ws.session (ws.found data))
          (drain (tryParseOne 64) ((ws.found data).rest ++ later))
      else streamed ws.session (ws.found data) := by
  rw [streamed, streamed, found, ← List.append_assoc]
  cases herror : (ws.found data).error with
  | some errorMessage =>
      obtain ⟨hitems, hfails⟩ := drain_append_of_error isIncremental_tryParseOne
        consumes_tryParseOne herror later
      rw [hitems, hfails, socketOpen_failedWith, if_neg Bool.false_ne_true]
      rfl
  | none =>
      rw [drain_append isIncremental_tryParseOne consumes_tryParseOne herror later]
      dsimp only
      rw [inOrder_append, failedWith, found]
      split
      · rfl
      · have hclosed := Bool.eq_false_iff.mpr ‹_›
        rw [inOrder_closed hclosed, failedWith_closed hclosed]

/-- A closed socket is out of harm. -/
theorem harmless_closed {ws : WebSocketImplNative} (h : ws.session.socketOpen = false)
    (pieces : List Bytes) : Harmless ws pieces := by
  induction pieces with
  | nil => trivial
  | cons data pieces ih =>
      rw [Harmless, read_closed h]
      exact ⟨fun hopen => absurd (h.symm.trans hopen) Bool.false_ne_true, ih⟩

/-- **What the reads of a connection hand over**, and when this is what the reference does. -/
theorem receive_agrees {ws : WebSocketImplNative} (h : Waiting ws) (pieces : List Bytes) :
    (ws.receive pieces).delivered = (streamed ws.session (ws.found pieces.flatten)).delivered ↔
      Harmless ws pieces := by
  induction pieces generalizing ws with
  | nil =>
      rw [List.flatten_nil, h.found_nil]
      exact iff_of_true rfl trivial
  | cons data pieces ih =>
      obtain ⟨hdelivered, hnext⟩ := h.agrees data
      have hreceive : ws.receive (data :: pieces) = (ws.read data).receive pieces := rfl
      rw [hreceive, List.flatten_cons, streamed_append, Harmless]
      obtain ⟨hclosed, hover⟩ | ⟨hwaiting, hsession, hbuffer⟩ := hnext
      · -- both are over with this read
        rw [receive_closed hclosed, hover, if_neg Bool.false_ne_true, hdelivered,
          forall_prop_of_true h.reading.1]
        exact (and_iff_left (harmless_closed hclosed pieces)).symm
      · have hharmless : HarmlessRead ws data := hdelivered.mp (by rw [delivered, hsession])
        rw [← hsession, hwaiting.reading.1, if_pos rfl, ← hbuffer]
        exact (ih hwaiting).trans (and_iff_right fun _ => hharmless).symm

/-- A read of one byte completes one frame at most, and nothing is behind it. -/
theorem Waiting.harmless_byte {ws : WebSocketImplNative} (h : Waiting ws) (byte : UInt8) :
    HarmlessRead ws [byte] := by
  rw [HarmlessRead]
  obtain hitems | ⟨frame, hitems, herror⟩ :=
    drain_snoc isIncremental_tryParseOne consumes_tryParseOne h.more byte
  · rw [found, hitems, acceptedFrames]
    split
    · exact List.forall_mem_nil _
    · exact List.forall_mem_nil _
  · rw [found, hitems, herror, if_pos rfl, acceptedFrames]
    split
    · rw [acceptedFrames, List.dropWhile_cons]
      cases hgoes : frame.goesOn with
      | true => exact List.forall_mem_nil _
      | false => exact List.forall_mem_singleton.mpr (notifies_of_close hgoes)
    · exact List.forall_mem_nil _

/-- **Reads of one byte** follow the reference. -/
theorem harmless_bytes {ws : WebSocketImplNative} (h : Waiting ws) (stream : Bytes) :
    Harmless ws (stream.map fun byte => [byte]) := by
  induction stream generalizing ws with
  | nil => trivial
  | cons byte stream ih =>
      refine ⟨fun _ => h.harmless_byte byte, ?_⟩
      obtain ⟨hclosed, -⟩ | ⟨hwaiting, -, -⟩ := (h.agrees [byte]).next
      · exact harmless_closed hclosed _
      · exact ih hwaiting

/-- **The application is handed the same as byte by byte** exactly if every read of the open
connection hands over what it should. -/
theorem delivered_iff_harmless (clientMode : Bool) (pieces : List Bytes) :
    ((afterHandshake clientMode).receive pieces).delivered =
        ((afterHandshake clientMode).receive
          (pieces.flatten.map fun byte => [byte])).delivered ↔
      Harmless (afterHandshake clientMode) pieces := by
  have hwaiting := waiting_afterHandshake clientMode
  have hbytes := (receive_agrees hwaiting _).mpr (harmless_bytes hwaiting pieces.flatten)
  rw [← List.flatMap_def, List.flatMap_singleton'] at hbytes
  rw [hbytes]
  exact receive_agrees hwaiting pieces

/-- A message and a malformed frame behind it: in one read, the message is lost. -/
theorem message_lost :
    ((afterHandshake true).receive [[0x81, 0x01, 0x61, 0xF0, 0x00]]).delivered = [] ∧
      ((afterHandshake true).receive [[0x81, 0x01, 0x61], [0xF0, 0x00]]).delivered =
        [.textMessageReceived [0x61]] := by
  decide +kernel

/-- A message behind a `Close` frame: in one read, it is handed over. -/
example : ((afterHandshake true).receive [[0x88, 0x00, 0x81, 0x01, 0x61]]).delivered =
      [.textMessageReceived [0x61]] ∧
    ((afterHandshake true).receive [[0x88, 0x00], [0x81, 0x01, 0x61]]).delivered = [] := by
  decide +kernel

end WebSocketImplNative

end SimplyNode
