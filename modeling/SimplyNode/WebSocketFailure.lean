import SimplyNode.WebSocketClosing

/-!
# Failed Connections

`fail` puts a `WebSocketImplNative` into the state `Error`, and closes the socket. If the socket was
connected, or on its way, it posts `disconnected` then, and `handleTcpDisconnected` takes the
connection for one that has been closed: the state becomes `Closed`, and `isValid` holds again.
A Close frame that came with the handshake does so too, if a slot of `connected` makes `fail` be
called.

## Main results

* `LiveWebSocket.staysFailed_of_run`: **a failed connection stays failed**, in any run in which the
  socket emits no `disconnected` behind a call of `fail`, and no Close frame is processed there.
* `LiveWebSocket.not_staysFailed`: any other step ends the failure.
-/

open Transition

namespace SimplyNode

open Text

namespace LiveWebSocket

variable {ws : LiveWebSocket}

/-- What has been received and not read is of a connected socket. -/
def Buffered (ws : LiveWebSocket) : Prop := ws.readBuffer = [] ∨ ws.tcpState = .connected

/-- A connection, or a connect request on a `WebSocket` that has been used before. -/
inductive Begins : LiveWebSocket → Prop
  | server : Begins beginServerConnection
  | request (before : LiveWebSocket) (wildcard : Option String) (clientKey : Bytes)
      (hbefore : Buffered before) : Begins (before.connectToHost wildcard clientKey)

/-- Once `fail` has been called, the state is `Error`, and no `disconnected` is emitted. -/
def StaysFailed (ws : LiveWebSocket) : Prop :=
  ∀ l, ws.atFailure = some l → ws.state = .error ∧ ws.isValid = false ∧
    ws.emitted.count .disconnected = l.count .disconnected

/-- Where `fail` has been called, the socket does not emit `disconnected`, and no Close frame is
processed. -/
def LeftAlone (ws : LiveWebSocket) (e : WebSocketEvent) : Prop :=
  ws.atFailure.isSome = true → e ≠ .runs .disconnected ∧
    ∀ frame ∈ (ws.comes e).head?,
      frame.accepted ws.clientMode ws.fragmentOpcode = true → frame.opcode ≠ .close

/-- Whether an event leaves a failed connection alone can be computed. -/
instance (ws : LiveWebSocket) (e : WebSocketEvent) : Decidable (LeftAlone ws e) :=
  inferInstanceAs (Decidable (_ → _ ∧ _))

/-- Once `fail` has been called, the socket is closed or about to be. -/
def Abandoned (ws : LiveWebSocket) : Prop :=
  ws.atFailure.isSome = true → 0 < ws.failing ∨ ws.tcpState = .disconnected

/-- A connection that has failed is not valid. -/
theorem isValid_of_error (h : ws.state = .error) : ws.isValid = false := by
  rw [isValid, h]
  rfl

/-! ### The socket -/

/-- A connection about to process a frame has read as it should. -/
theorem Poised.buffered {base : LiveWebSocket} {frames : List WebSocketFrame}
    (h : Poised ws base frames) (hbuffered : Buffered ws) : Buffered base := by
  rcases h.readBuffer with hnil | heq
  · exact .inl hnil
  · exact hbuffered.imp heq.trans h.tcpState.trans

/-- What a frame does to the socket. -/
theorem socket_processFrame (frame : WebSocketFrame) :
    ((ws.processFrame frame).tcpState = .disconnected ∧ (ws.processFrame frame).readBuffer = []) ∨
      ((ws.processFrame frame).tcpState = ws.tcpState ∧
        (ws.processFrame frame).readBuffer = ws.readBuffer ∧
        (0 < (ws.processFrame frame).failing ∨
          (ws.processFrame frame).failing = ws.failing ∧
            (ws.processFrame frame).atFailure = ws.atFailure)) := by
  rcases ws.processFrame_cases frame with ⟨-, errorMessage, hfail⟩ | ⟨-, -, hframe⟩ | ⟨-, -, hframe⟩
  · rw [hfail]
    exact .inr ⟨rfl, rfl, .inl (Nat.succ_pos _)⟩
  · obtain ⟨sent, heq, -⟩ := hframe.eq
    rw [heq]
    exact .inl ⟨rfl, rfl⟩
  · obtain ⟨signals, sent, fragmentPayload, heq, -⟩ := hframe.eq
    rw [heq]
    exact .inr ⟨rfl, rfl, .inr ⟨rfl, rfl⟩⟩

/-- Every step reads of a connected socket only. -/
theorem buffered_step {e : WebSocketEvent} {next : LiveWebSocket} (h : Buffered ws)
    (hstep : Step ws e next) : Buffered next := by
  cases hcomes : ws.comes e with
  | nil => exact (quiet_step hcomes hstep).buffered h
  | cons frame frames =>
      obtain ⟨base, hpoised, rfl⟩ := step_frame hcomes hstep
      rcases @socket_processFrame base frame with ⟨-, hread⟩ | ⟨htcp, hread, -⟩
      · exact .inl hread
      · rw [Buffered, hread, htcp]
        exact hpoised.buffered h

/-- Every step leaves a failed connection abandoned. -/
theorem abandoned_step {e : WebSocketEvent} {next : LiveWebSocket} (h : Abandoned ws)
    (hstep : Step ws e next) : Abandoned next := by
  intro hsome
  cases hcomes : ws.comes e with
  | nil =>
      have hquiet := quiet_step hcomes hstep
      cases hws : ws.atFailure with
      | none => exact .inl (hquiet.failed hws hsome).2.2
      | some l =>
          rcases h (by rw [hws]; rfl) with hfailing | hclosed
          · exact hquiet.failing.imp_left (Nat.lt_of_lt_of_le hfailing)
          · rcases hquiet.tcpState with htcp | htcp | ⟨hconnecting, -⟩
            · exact .inr (htcp.trans hclosed)
            · exact .inr htcp
            · rw [hclosed] at hconnecting
              cases hconnecting
  | cons frame frames =>
      obtain ⟨base, hpoised, rfl⟩ := step_frame hcomes hstep
      rcases @socket_processFrame base frame with ⟨htcp, -⟩ | ⟨htcp, -, hrest⟩
      · exact .inr htcp
      · rcases hrest with hfailing | ⟨hfailing, hatFailure⟩
        · exact .inl hfailing
        · rw [hatFailure, hpoised.atFailure] at hsome
          rw [hfailing, hpoised.failing, htcp, hpoised.tcpState]
          exact h hsome

/-- A handler that begins behind a call of `fail` finds nothing to read. -/
theorem Abandoned.readBuffer (h : Abandoned ws) (hbuffered : Buffered ws)
    (hsome : ws.atFailure.isSome = true) (hidle : ws.idle = true) : ws.readBuffer = [] := by
  obtain ⟨-, hfailing⟩ := Bool.and_eq_true_iff.mp hidle
  have hzero : ws.failing = 0 := of_decide_eq_true hfailing
  have hclosed : ws.tcpState = .disconnected := (h hsome).resolve_left (by omega)
  refine hbuffered.resolve_right fun hconnected => ?_
  rw [hclosed] at hconnected
  cases hconnected

/-! ### Steps -/

/-- No `disconnected` is among what is delivered. -/
theorem count_disconnected {signals : List WebSocketSignal}
    (h : ∀ signal ∈ signals, signal.isNotification = true) :
    signals.count .disconnected = 0 :=
  List.count_eq_zero.mpr fun hmem => by
    have hnotification := h _ hmem
    cases hnotification

/-- A connection that is failed already. -/
theorem staysFailed_frame {base : LiveWebSocket} {frame : WebSocketFrame}
    (h : StaysFailed base) (hclose : base.atFailure.isSome = true →
      frame.accepted base.clientMode base.fragmentOpcode = true → frame.opcode ≠ .close) :
    StaysFailed (base.processFrame frame) := by
  intro l hl
  rcases base.processFrame_cases frame with ⟨-, errorMessage, hfail⟩ |
    ⟨haccepted, hopcode, hframe⟩ | ⟨-, -, hframe⟩
  · rw [hfail] at hl ⊢
    refine ⟨rfl, rfl, ?_⟩
    change (base.atFailure <|> some (base.emitted ++ [.errorOccurred errorMessage])) = some l at hl
    have hcount : (base.emitted ++ [WebSocketSignal.errorOccurred errorMessage]).count
        .disconnected = base.emitted.count .disconnected := by simp
    cases hbase : base.atFailure with
    | none =>
        rw [hbase] at hl
        cases hl
        rfl
    | some l' =>
        rw [hbase] at hl
        cases hl
        exact hcount.trans (h l hbase).2.2
  · obtain ⟨sent, heq, -⟩ := hframe.eq
    rw [heq] at hl
    change base.atFailure = some l at hl
    exact absurd hopcode (hclose (by rw [hl]; rfl) haccepted)
  · obtain ⟨signals, sent, fragmentPayload, heq, hsignals, -⟩ := hframe.eq
    rw [heq] at hl ⊢
    obtain ⟨hstate, hvalid, hcount⟩ := h l hl
    refine ⟨hstate, hvalid, ?_⟩
    change (base.emitted ++ signals).count _ = _
    rw [List.count_append, count_disconnected fun signal hsignal => (hsignals signal hsignal).1]
    exact hcount

/-- Every step that leaves it alone leaves a failed connection failed. -/
theorem staysFailed_step {e : WebSocketEvent} {next : LiveWebSocket} (h : StaysFailed ws)
    (hbuffered : Buffered ws) (habandoned : Abandoned ws) (halone : LeftAlone ws e)
    (hstep : Step ws e next) : StaysFailed next := by
  cases hcomes : ws.comes e with
  | nil =>
      have hquiet := quiet_step hcomes hstep
      intro l hl
      cases hws : ws.atFailure with
      | none =>
          obtain ⟨hstate, hemitted, -⟩ := hquiet.failed hws (by rw [hl]; rfl)
          rw [hl] at hemitted
          cases hemitted
          exact ⟨hstate, isValid_of_error hstate, rfl⟩
      | some l' =>
          have hsome : ws.atFailure.isSome = true := by rw [hws]; rfl
          obtain rfl : l' = l :=
            Option.some.inj (hws.symm.trans ((hquiet.atFailure hsome).symm.trans hl))
          obtain ⟨herror, -, hcount⟩ := h l' hws
          obtain ⟨hnotRun, -⟩ := halone hsome
          have hstate : next.state = .error := by
            rcases hquiet.state with hstate | hstate | hopened | ⟨hread, hidle⟩ | ⟨hruns, -⟩
            · exact hstate.trans herror
            · exact hstate
            · rw [herror] at hopened
              cases hopened
            · exact absurd (habandoned.readBuffer hbuffered hsome hidle) hread
            · exact absurd hruns hnotRun
          exact ⟨hstate, isValid_of_error hstate,
            (hquiet.disconnects.resolve_right hnotRun).trans hcount⟩
  | cons frame frames =>
      obtain ⟨base, hpoised, rfl⟩ := step_frame hcomes hstep
      have hbase : StaysFailed base := fun l hl => by
        obtain ⟨herror, -, hcount⟩ := h l (hpoised.atFailure ▸ hl)
        have hstate : base.state = .error := hpoised.state.trans herror
        exact ⟨hstate, isValid_of_error hstate, by rw [hpoised.emitted]; exact hcount⟩
      refine staysFailed_frame hbase fun hsome haccepted => ?_
      rw [hpoised.atFailure] at hsome
      rw [hpoised.clientMode, hpoised.fragmentOpcode] at haccepted
      exact (halone hsome).2 frame (by rw [hcomes]; rfl) haccepted

/-- Any other step ends the failure. -/
theorem not_staysFailed {e : WebSocketEvent} {next : LiveWebSocket} (h : StaysFailed ws)
    (hnot : ¬LeftAlone ws e) (hstep : Step ws e next) : ¬StaysFailed next := by
  obtain ⟨hsome, hbreaks⟩ := Classical.not_imp.mp hnot
  obtain ⟨l, hl⟩ := Option.isSome_iff_exists.mp hsome
  have herror : ws.state = .error := (h l hl).1
  intro hnext
  by_cases hruns : e = .runs .disconnected
  · subst hruns
    obtain ⟨-, heq⟩ := Option.ite_none_right_eq_some.mp hstep
    have hclosed :
        next = { ws with posted := ws.posted.erase .disconnected, state := .closed } := by
      rw [← Option.some.inj heq, handle, handleTcpDisconnected]
      simp [herror]
    rw [hclosed] at hnext
    cases (hnext l hl).1
  · obtain ⟨frame, hbreak⟩ := not_forall.mp fun hall => hbreaks ⟨hruns, hall⟩
    obtain ⟨hhead, hbreak⟩ := Classical.not_imp.mp hbreak
    obtain ⟨haccepted, hopcode⟩ := Classical.not_imp.mp hbreak
    obtain ⟨frames, hcomes⟩ := List.head?_eq_some_iff.mp hhead
    obtain ⟨base, hpoised, rfl⟩ := step_frame hcomes hstep
    rw [← hpoised.clientMode, ← hpoised.fragmentOpcode] at haccepted
    have hframe := processFrame_accepted haccepted
    rw [if_pos (not_not.mp hopcode)] at hframe
    obtain ⟨sent, heq, -⟩ := hframe.eq
    rw [heq] at hnext
    cases (hnext l (hpoised.atFailure.trans hl)).1

/-! ### Runs -/

/-- What holds when a connection begins. -/
theorem Begins.staysFailed (h : Begins ws) : StaysFailed ws ∧ Buffered ws ∧ Abandoned ws := by
  cases h with
  | server => exact ⟨fun l hl => (by cases hl), .inl rfl, fun hsome => (by cases hsome)⟩
  | request before wildcard clientKey hbefore =>
      cases wildcard with
      | none => exact ⟨fun l hl => (by cases hl), .inl rfl, fun hsome => (by cases hsome)⟩
      | some address =>
          refine ⟨fun l hl => ?_, ?_, fun _ => .inl (Nat.succ_pos _)⟩
          · cases hl
            exact ⟨rfl, rfl, rfl⟩
          · change Buffered before.close
            exact (@quiet_close .close before).buffered hbefore

/-- **A failed connection stays failed**, and does not emit `disconnected`, in any run in which the
socket emits no `disconnected` behind a call of `fail`, and no Close frame is processed there. -/
theorem staysFailed_of_run {es : List WebSocketEvent} {next : LiveWebSocket} (hstart : Begins ws)
    (h : Run Step LeftAlone ws es next) : StaysFailed next := by
  have hinv : StaysFailed next ∧ Buffered next ∧ Abandoned next :=
    h.invariant (I := fun s => StaysFailed s ∧ Buffered s ∧ Abandoned s)
      (fun _ _ _ hinv halone hstep =>
        ⟨staysFailed_step hinv.1 hinv.2.1 hinv.2.2 halone hstep, buffered_step hinv.2.1 hstep,
          abandoned_step hinv.2.2 hstep⟩)
      hstart.staysFailed
  exact hinv.1

/-- A connection that is refused. -/
theorem refused_connection : ∃ next, next.state = .error ∧ next.idle = true ∧
    StaysFailed next := by
  have hrun : Run Step LeftAlone (connectRequested (bytes "key"))
      [.tcpFails "connect() failed", .runs (.errorOccurred "connect() failed"), .slotsReturn,
        .close]
      _ :=
    .cons (by decide) rfl <| .cons (by decide) rfl <| .cons (by decide) rfl <|
      .cons (by decide) rfl <| .nil _
  have hstart : Begins (connectRequested (bytes "key")) :=
    .request beginServerConnection none (bytes "key") (.inl rfl)
  exact ⟨_, by decide, by decide, staysFailed_of_run hstart hrun⟩

/-- A client whose frame has no mask: the connection fails, and is closed then. -/
theorem failed_then_closed : ∃ next,
    Reaches Step beginServerConnection
      [.tcpReceives [0x81, 0x01, 120], .runs .readyRead, .slotsReturn, .slotsReturn,
        .runs .disconnected] next ∧
    next.atFailure = some [.errorOccurred "WebSocket client frames must be masked"] ∧
    next.state = .closed ∧ next.isValid = true ∧ ¬StaysFailed next := by
  refine ⟨_, .cons trivial rfl <| .cons trivial rfl <| .cons trivial rfl <| .cons trivial rfl <|
    .cons trivial rfl <| .nil _, ?_, ?_, ?_, ?_⟩
  · decide
  · decide
  · decide
  · intro h
    have hstate := (h [.errorOccurred "WebSocket client frames must be masked"] (by decide)).1
    exact absurd hstate (by decide)

end LiveWebSocket

end SimplyNode
