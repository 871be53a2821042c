import SimplyNode.WebSocketSpeech
import SimplyNode.Lib.Duplex

/-!
# Two WebSockets in Conversation

A client and a server that are both a `WebSocketImplNative`, each in its own event loop, with the
bytes that are on their way between them. The client has connected, and the response of the server
is coming. From there on the two sides take their steps in any order. What arrives is cut into
pieces of any size, and when a side has closed its socket, what it has written may stop anywhere.

## Main results

* `Conversation.sound_of_run`: **what holds in every conversation**.
* `Conversation.hears_written`: what one side is handed is what the other side has written.
* `Conversation.blameless`: no side finds fault with what the other side has written. A side that
  fails has done or met what its error says.
-/

open Transition

namespace SimplyNode

open Text WebSocketHandshake

/-- The `WebSocket` of each side, and the bytes that are on their way to it. -/
structure Conversation where
  socket : Side → LiveWebSocket
  coming : Side → Bytes

namespace Conversation

/-- A server that has answered, and a client that this is coming to. -/
def withClient (client : LiveWebSocket) (coming : Bytes) : Conversation where
  socket
    | .client => client
    | .server => LiveWebSocket.beginServerConnection
  coming
    | .client => coming
    | .server => []

/-- The client has connected and sent its request, and the server has answered it. -/
def opening (clientKey : Bytes) : Conversation :=
  withClient { LiveWebSocket.connectRequested clientKey with tcpState := .connected }
    (buildServerHandshakeResponse clientKey)

/-- A step of one side. What it writes is on its way to the other side. A socket sees the end of the
connection only when the other one is closed. -/
structure Step (c : Conversation) (l : Side × WebSocketEvent) (next : Conversation) : Prop where
  takes : LiveWebSocket.Step (c.socket l.1) l.2 (next.socket l.1)
  other : next.socket l.1.other = c.socket l.1.other
  arrives : LiveWebSocket.Arrives (c.coming l.1) l.2 (next.coming l.1)
  ends : l.2 = .tcpEnds → (c.socket l.1.other).tcpState = .disconnected
  fits : LiveWebSocket.Fits l.2
  sends : ∃ sent text, (next.socket l.1).written = (c.socket l.1).written ++ sent ∧
    Encoded sent text ∧ next.coming l.1.other = c.coming l.1.other ++ text

/-- What one side has heard of the other one. -/
def Heard (c : Conversation) (side : Side) : Prop :=
  ∃ stream consumed processed, Decodes stream (c.socket side.other).written [] ∧
    LiveWebSocket.Hearing stream (c.coming side) consumed processed (c.socket side)

/-- **What holds in every conversation** in which all that leads to an error is in `P`. -/
structure Sound (P : Side → String → Prop) (c : Conversation) : Prop where
  clientMode : ∀ side, (c.socket side).clientMode = decide (side = .client)
  speaking : ∀ side, LiveWebSocket.Speaking (P side) (c.socket side)
  heard : ∀ side, c.Heard side

/-- The errors that a step may lead to are in `P`. -/
def Reports (P : Side → String → Prop) (c : Conversation) (l : Side × WebSocketEvent) : Prop :=
  LiveWebSocket.Excused (P l.1) (c.socket l.1) l.2

variable {P : Side → String → Prop} {c next : Conversation} {l : Side × WebSocketEvent}

/-- The frames that come to one side are those of the other kind. -/
theorem Sound.outgoing (h : Sound P c) (side : Side) :
    ∀ frame ∈ (c.socket side.other).written, frame.Outgoing (!(c.socket side).clientMode) := by
  have hmode : (c.socket side.other).clientMode = !(c.socket side).clientMode := by
    rw [h.clientMode, h.clientMode]
    cases side <;> rfl
  exact hmode ▸ (h.speaking side.other).outgoing

/-- **A step keeps it.** -/
theorem Sound.step (h : Sound P c) (hreports : Reports P c l) (hstep : Step c l next) :
    Sound P next := by
  obtain ⟨side, e⟩ := l
  obtain ⟨htakes, hother, harrives, -, hfits, sent, text, hsends, hencoded, hcoming⟩ := hstep
  dsimp only at htakes hother harrives hfits hsends hcoming
  obtain ⟨stream, consumed, processed, hwritten, hear⟩ := h.heard side
  have hspeaking := (h.speaking side).step hear hwritten (h.outgoing side) hfits hreports htakes
  have hmode : (next.socket side).clientMode = (c.socket side).clientMode :=
    LiveWebSocket.clientMode_step htakes
  refine ⟨fun s => ?_, fun s => ?_, fun s => ?_⟩
  · rcases side.eq_or_other s with rfl | rfl
    · exact hmode.trans (h.clientMode _)
    · rw [hother]
      exact h.clientMode _
  · rcases side.eq_or_other s with rfl | rfl
    · exact hspeaking
    · rw [hother]
      exact h.speaking _
  · rcases side.eq_or_other s with rfl | rfl
    · obtain ⟨consumed', processed', hear'⟩ :=
        hear.step hwritten (h.outgoing s) htakes harrives
      exact ⟨stream, consumed', processed', hother ▸ hwritten, hear'⟩
    · obtain ⟨stream, consumed, processed, hwritten, hear⟩ := h.heard side.other
      rw [Side.other_other] at hwritten
      have hnew : ∀ frame ∈ sent, frame.Outgoing (next.socket side).clientMode :=
        fun frame hframe => hspeaking.outgoing frame
          (hsends ▸ List.mem_append_right _ hframe)
      refine ⟨stream ++ text, consumed, processed, ?_, ?_⟩
      · rw [Side.other_other, hsends]
        exact hwritten.append (hencoded.decodes hnew)
      · rw [hother, hcoming]
        exact hear.extend text

theorem fresh_opening (clientKey : Bytes) (side : Side) :
    ((opening clientKey).socket side).Fresh := by
  cases side with
  | client =>
      exact ⟨rfl, rfl, rfl, rfl, .inr ⟨rfl, rfl⟩, (fun hopen => by cases hopen), rfl, rfl, rfl, rfl,
        rfl, rfl, rfl, rfl⟩
  | server => exact ⟨rfl, rfl, rfl, rfl, .inl rfl, fun _ => rfl, rfl, rfl, rfl, rfl, rfl, rfl, rfl,
      rfl⟩

theorem sound_opening (clientKey : Bytes) : Sound P (opening clientKey) where
  clientMode side := by cases side <;> rfl
  speaking side := (fresh_opening clientKey side).speaking
  heard side := by
    refine ⟨[], [], [], ?_, (fresh_opening clientKey side).hearing ?_⟩
    · rw [(fresh_opening clientKey side.other).written]
      exact ⟨[], rfl, .nil⟩
    · cases side <;> rfl

/-- **What holds in every conversation.** -/
theorem sound_of_run {clientKey : Bytes} {es : List (Side × WebSocketEvent)}
    (h : Run Step (Reports P) (opening clientKey) es c) : Sound P c :=
  h.invariant (fun _ _ _ hinv hreports hstep => hinv.step hreports hstep) (sound_opening clientKey)

/-! ### Performing a conversation -/

instance instDecidableArrives (coming : Bytes) (e : WebSocketEvent) (rest : Bytes) :
    Decidable (LiveWebSocket.Arrives coming e rest) :=
  match e with
  | .tcpReceives data => inferInstanceAs (Decidable (data ≠ [] ∧ coming = data ++ rest))
  | .close | .send _ _ | .ping _ | .slotsReturn | .runs _ | .tcpConnects | .tcpEnds | .tcpFails _ =>
      inferInstanceAs (Decidable (rest = coming))

instance instDecidableFits (e : WebSocketEvent) : Decidable (LiveWebSocket.Fits e) :=
  match e with
  | .send _ payload => inferInstanceAs (Decidable (payload.length < 2 ^ 63))
  | .close | .tcpReceives _ | .ping _ | .slotsReturn | .runs _ | .tcpConnects | .tcpEnds
  | .tcpFails _ => inferInstanceAs (Decidable True)

/-- Frames as `sendFrame` writes them, with one mask for all. -/
def encodeFrames (mask : MaskKey) (frames : List WebSocketFrame) : Bytes :=
  frames.flatMap fun frame => encodeFrame frame.opcode frame.payload frame.masked mask

/-- What is left on its way behind an event. -/
def left (coming : Bytes) : WebSocketEvent → Bytes
  | .tcpReceives data => coming.drop data.length
  | _ => coming

/-- The state after a step, with one mask for all that is written. -/
def perform (mask : MaskKey) (c : Conversation) (l : Side × WebSocketEvent) :
    Except Unit Conversation :=
  let before := c.socket l.1
  let rest := left (c.coming l.1) l.2
  match before.step l.2 with
  | none => .error ()
  | some ws =>
      let sent := ws.written.drop before.written.length
      if ws.written = before.written ++ sent ∧ LiveWebSocket.Arrives (c.coming l.1) l.2 rest ∧
          (l.2 = .tcpEnds → (c.socket l.1.other).tcpState = .disconnected) ∧
          LiveWebSocket.Fits l.2 then
        .ok
          { socket := fun s => if s = l.1 then ws else c.socket s
            coming := fun s => if s = l.1 then rest else c.coming s ++ encodeFrames mask sent }
      else .error ()

theorem encoded_encodeFrames (mask : MaskKey) (frames : List WebSocketFrame) :
    Encoded frames (encodeFrames mask frames) := by
  induction frames with
  | nil => exact .nil
  | cons frame frames ih => exact .cons mask ih

/-- What is performed is a step. -/
theorem step_of_perform {mask : MaskKey} (h : perform mask c l = .ok next) : Step c l next := by
  rw [perform] at h
  cases hws : (c.socket l.1).step l.2 with
  | none =>
      simp only [hws] at h
      cases h
  | some ws =>
      simp only [hws] at h
      split at h
      · rename_i hcan
        cases h
        obtain ⟨hwritten, harrives, hends, hfits⟩ := hcan
        refine ⟨?_, ?_, ?_, hends, hfits, ws.written.drop (c.socket l.1).written.length, _, ?_,
          encoded_encodeFrames mask _, ?_⟩
        · simp only [if_pos]
          exact hws
        · exact if_neg l.1.other_ne
        · simp only [if_pos]
          exact harrives
        · simp only [if_pos]
          exact hwritten
        · exact if_neg l.1.other_ne
      · cases h

/-- What is performed of some events, each of which has to meet a guard. -/
def performs (mask : MaskKey) (ok : Conversation → Side × WebSocketEvent → Bool)
    (c : Conversation) (es : List (Side × WebSocketEvent)) : Except Unit Conversation :=
  es.foldlM (fun c l => if ok c l then perform mask c l else .error ()) c

/-- **What is performed is a run**, with what is observed behind it. -/
theorem exists_run_of_performs {β : Type*} {mask : MaskKey}
    {ok : Conversation → Side × WebSocketEvent → Bool} {es : List (Side × WebSocketEvent)}
    {g : Conversation → β} {b : β} (h : (performs mask ok c es).map g = .ok b) :
    ∃ next, Run Step (fun c l => ok c l = true) c es next ∧ g next = b := by
  obtain ⟨next, hreaches, hb⟩ := exists_reaches_of_map es h
  refine ⟨next, ?_, hb⟩
  clear h hb
  induction hreaches with
  | nil c => exact .nil c
  | @cons c c' c'' l es _ hst _ ih =>
      rw [ofFun] at hst
      split at hst
      · rename_i hok
        exact .cons hok (step_of_perform hst) ih
      · cases hst

/-- The handshake is over. -/
def established (clientKey : Bytes) : Conversation :=
  withClient
    { LiveWebSocket.connectRequested clientKey with
      tcpState := .connected, state := .opened, handshakeComplete := true } []

/-- The client reads the response in one piece. -/
def openingEvents (clientKey : Bytes) : List (Side × WebSocketEvent) :=
  [(.client, .tcpReceives (buildServerHandshakeResponse clientKey)), (.client, .runs .readyRead),
    (.client, .slotsReturn)]

/-- A client reads the response in one piece. -/
theorem processHandshakeBytes_response {ws : LiveWebSocket} (hbuffer : ws.handshakeBuffer = []) :
    ws.processHandshakeBytes (buildServerHandshakeResponse ws.clientKey) =
      { ws with
        handshakeBuffer := []
        handshakeComplete := true
        state := .opened
        waiting := some (.resuming []) } := by
  have hvalid : validateServerHandshakeResponse (responseHead ws.clientKey ++ [13, 10, 13, 10])
      ws.clientKey = .ok () := by
    rw [responseHead_append, validateServerHandshakeResponse_build, if_neg (not_not.mpr rfl)]
  rw [LiveWebSocket.processHandshakeBytes]
  simp only [hbuffer, List.nil_append, cutBlank_response, hvalid]

/-- A client that opens with what it reads. -/
theorem reaches_of_response {client : LiveWebSocket} {response : Bytes} (hne : response ≠ [])
    (hposted : client.posted = []) (hidle : client.idle = true)
    (hpending : client.handshakeComplete = false) (hbuffer : client.readBuffer = [])
    (htcp : client.tcpState = .connected)
    (hresponse : client.processHandshakeBytes response =
      { client with
        handshakeBuffer := []
        handshakeComplete := true
        state := .opened
        waiting := some (.resuming []) }) :
    Reaches Step (withClient client response)
      [(.client, .tcpReceives response), (.client, .runs .readyRead), (.client, .slotsReturn)]
      (withClient { client with
        handshakeBuffer := []
        handshakeComplete := true
        state := .opened
        waiting := none } []) := by
  let received := { client with readBuffer := response, posted := [.readyRead] }
  let resuming := { client with
    handshakeBuffer := []
    handshakeComplete := true
    state := .opened
    waiting := some (.resuming []) }
  have hfailing : ¬0 < client.failing := by
    simp only [LiveWebSocket.idle, Bool.and_eq_true, decide_eq_true_eq] at hidle
    omega
  have hsame : { received with posted := [], readBuffer := [] } = client := by
    rw [← hposted, ← hbuffer]
  have hread : { received with posted := [] }.handleTcpReadyRead = resuming := by
    rw [LiveWebSocket.handleTcpReadyRead, if_neg hne]
    refine (if_pos hpending).trans ?_
    exact (congrArg (·.processHandshakeBytes response) hsame).trans hresponse
  have herase : received.posted.erase .readyRead = [] := rfl
  have htakes : received.step (.runs .readyRead) = some resuming := by
    rw [LiveWebSocket.step, if_pos ⟨hidle, List.mem_cons_self⟩, herase, LiveWebSocket.handle, hread]
  have harrives : client.step (.tcpReceives response) = some received := by
    rw [LiveWebSocket.step, if_pos htcp, hbuffer, hposted]
    rfl
  have hbusy : resuming.idle = false := rfl
  have hreturn : resuming.step .slotsReturn = some { resuming with waiting := none } := by
    rw [LiveWebSocket.step, hbusy, if_neg Bool.false_ne_true, LiveWebSocket.slotsReturn]
    exact congrArg some (if_neg hfailing)
  have hnothing := (List.append_nil client.written).symm
  have hreceives : Step (withClient client response) (.client, .tcpReceives response)
      (withClient received []) :=
    ⟨harrives, rfl, ⟨hne, (List.append_nil _).symm⟩, WebSocketEvent.noConfusion, trivial, [], [],
      hnothing, .nil, rfl⟩
  have hreads : Step (withClient received []) (.client, .runs .readyRead)
      (withClient resuming []) :=
    ⟨htakes, rfl, rfl, WebSocketEvent.noConfusion, trivial, [], [], hnothing, .nil, rfl⟩
  have hreturns : Step (withClient resuming []) (.client, .slotsReturn)
      (withClient { resuming with waiting := none } []) :=
    ⟨hreturn, rfl, rfl, WebSocketEvent.noConfusion, trivial, [], [], hnothing, .nil, rfl⟩
  exact .cons trivial hreceives (.cons trivial hreads (.cons trivial hreturns (.nil _)))

/-- **The handshake comes to its end.** -/
theorem reaches_established (clientKey : Bytes) :
    Reaches Step (opening clientKey) (openingEvents clientKey) (established clientKey) := by
  have hne : buildServerHandshakeResponse clientKey ≠ [] := by
    intro hnil
    have hcut := cutBlank_response clientKey
    rw [hnil] at hcut
    cases hcut
  let connecting := { LiveWebSocket.connectRequested clientKey with tcpState := .connected }
  have hresponse := @processHandshakeBytes_response connecting rfl
  exact reaches_of_response hne rfl rfl rfl rfl rfl hresponse

/-! ### What is handed over -/

/-- Nothing is on its way to this side, and nothing waits there. -/
def CaughtUp (c : Conversation) (side : Side) : Prop :=
  (c.socket side).tcpState = .connected ∧ (c.socket side).idle = true ∧
    (c.socket side).readBuffer = [] ∧ c.coming side = []

/-- What one side is handed, and answers, against what the other side has written. -/
structure Faithful (c : Conversation) (side : Side) : Prop where
  delivered : (c.socket side).delivered <+: signalsOf (c.socket side.other).written
  pongs : payloadsOf .pong (c.socket side).written <+:
    payloadsOf .ping (c.socket side.other).written
  /-- Nothing is missing in front of a Close frame. -/
  atClose : (c.socket side).atClose.isSome = true →
    (c.socket side).delivered = signalsOf (c.socket side.other).written
  /-- Nothing is missing on a connection on which nothing is to be done. -/
  caughtUp : c.CaughtUp side →
    (c.socket side).delivered = signalsOf (c.socket side.other).written ∧
      ((c.socket side).state = .opened → payloadsOf .pong (c.socket side).written =
        payloadsOf .ping (c.socket side.other).written)

theorem signalsOf_mono {processed written : List WebSocketFrame} (h : processed <+: written) :
    signalsOf processed <+: signalsOf written := List.IsPrefix.filterMap _ h

theorem payloadsOf_mono {processed written : List WebSocketFrame} (opcode : OpCode)
    (h : processed <+: written) : payloadsOf opcode processed <+: payloadsOf opcode written :=
  List.IsPrefix.filterMap _ h

/-- A front that holds a Close frame is all that was written. -/
theorem eq_of_close_mem {processed written : List WebSocketFrame} (h : processed <+: written)
    (hlast : ∀ frame ∈ written.dropLast, frame.opcode ≠ .close)
    (hclose : ∃ frame ∈ processed, frame.opcode = .close) : processed = written := by
  obtain ⟨later, rfl⟩ := h
  obtain ⟨frame, hframe, hopcode⟩ := hclose
  by_cases hlater : later = []
  · rw [hlater, List.append_nil]
  · rw [List.dropLast_append_of_ne_nil hlater] at hlast
    exact absurd hopcode (hlast frame (List.mem_append_left _ hframe))

/-- A socket that is connected, with no handler that waits, has not failed. -/
theorem Sound.healthy (h : Sound P c) {side : Side} (hcaught : c.CaughtUp side) :
    (c.socket side).state ≠ .error ∧ (c.socket side).state ≠ .closed := by
  obtain ⟨hconnected, hidle, -⟩ := hcaught
  simp only [LiveWebSocket.idle, Bool.and_eq_true, decide_eq_true_eq] at hidle
  refine not_or.mp fun hbad => ?_
  rcases (h.speaking side).failed hbad with hgone | hfailing
  · rw [hconnected] at hgone
    cases hgone
  · omega

theorem Sound.faithful (h : Sound P c) (side : Side) : Faithful c side := by
  obtain ⟨stream, consumed, processed, hwritten, hear⟩ := h.heard side
  have hprefix : processed <+: (c.socket side.other).written :=
    (List.prefix_append _ _).trans (hear.items_prefix hwritten)
  refine ⟨?_, ?_, fun hclose => ?_, fun hcaught => ?_⟩
  · rw [hear.delivered]
    exact signalsOf_mono hprefix
  · exact hear.pongs.trans (payloadsOf_mono .ping hprefix)
  · rw [hear.delivered,
      eq_of_close_mem hprefix (h.speaking side.other).last (hear.atClose.mp hclose)]
  · obtain ⟨herror, hclosed⟩ := h.healthy hcaught
    obtain ⟨htcp, hidle, hbuffer, hcoming⟩ := hcaught
    rw [hcoming] at hear
    obtain ⟨-, rfl⟩ := hear.caughtUp hwritten htcp hidle hbuffer herror hclosed
    exact ⟨hear.delivered, fun hopen => hear.answered hopen htcp⟩

/-- What leads to an error of one side in a conversation: its socket has failed with this text, its
program has sent a ping that is too large, or its connection has ended, or its program has closed
it, in front of the end of the handshake. -/
inductive Cause (clientKey : Bytes) (es : List (Side × WebSocketEvent)) (side : Side) :
    String → Prop
  | socket {message : String} : (side, .tcpFails message) ∈ es → Cause clientKey es side message
  | ping {payload : Bytes} : (side, .ping payload) ∈ es → 125 < payload.length →
      Cause clientKey es side "WebSocket ping payload is too large"
  | ended {before after : List (Side × WebSocketEvent)} {e : WebSocketEvent} {u : Conversation} :
      es = before ++ (side, e) :: after → Reaches Step (opening clientKey) before u →
      e = .tcpEnds ∨ e = .close → (u.socket side).handshakeComplete = false →
      Cause clientKey es side "WebSocket connection closed before the handshake completed"

/-- Every step of a run leads to what the run is the cause of. -/
theorem run_reports {clientKey : Bytes} {es : List (Side × WebSocketEvent)}
    (h : Reaches Step (opening clientKey) es c) :
    Run Step (Reports (Cause clientKey es)) (opening clientKey) es c := by
  refine h.located.mono ?_
  rintro u ⟨side, e⟩ ⟨before, after, hes, hrun⟩
  have hmem : (side, e) ∈ es := hes ▸ List.mem_append_right _ List.mem_cons_self
  refine ⟨?_, ?_, fun hends hpending => .ended hes hrun hends hpending⟩
  · rintro message rfl
    exact .socket hmem
  · rintro payload rfl hlong
    exact .ping hmem hlong

/-- **What one side is handed is what the other side has written**, in order and once, whatever the
two sides do, and however the bytes are cut: a front of it at any time, all of it in front of a
Close frame, and all of it where nothing is to be done. The pings are answered in order. -/
theorem hears_written {clientKey : Bytes} {es : List (Side × WebSocketEvent)}
    (h : Reaches Step (opening clientKey) es c) (side : Side) : Faithful c side :=
  (sound_of_run (run_reports h)).faithful side

/-- The bytes of a client with the mask of zeros: a text message and a Close frame. -/
def exampleBytes : Bytes := [0x81, 0x81, 0, 0, 0, 0, 120, 0x88, 0x80, 0, 0, 0, 0]

/-- A mask of zeros. -/
def exampleMask : MaskKey := ⟨[0, 0, 0, 0], rfl⟩

/-- The client sends a message and closes the connection. The server reads both in two pieces. -/
def exampleEvents : List (Side × WebSocketEvent) :=
  [(.client, .send .text (bytes "x")), (.client, .close),
    (.server, .tcpReceives (exampleBytes.take 5)), (.server, .runs .readyRead),
    (.server, .tcpReceives (exampleBytes.drop 5)), (.server, .runs .readyRead),
    (.server, .slotsReturn), (.server, .slotsReturn)]

/-- A conversation in which the server comes to the Close frame of the client. -/
theorem hears_written_example : ∃ c,
    (c.socket .server).delivered = [.textMessageReceived (bytes "x")] ∧
    (c.socket .server).atClose.isSome = true ∧ Faithful c .server := by
  obtain ⟨c, hrun, hobserved⟩ := @exists_run_of_performs (established []) _ exampleMask
    (fun _ _ => true) exampleEvents
    (fun c => ((c.socket .server).delivered, (c.socket .server).atClose.isSome))
    ([.textMessageReceived (bytes "x")], true) (by decide)
  obtain ⟨hdelivered, hclose⟩ := Prod.mk.inj hobserved
  exact ⟨c, hdelivered, hclose, hears_written ((reaches_established []).trans hrun.forget) .server⟩

/-- **No side finds fault with the other one**: an error has its cause on the side that fails. -/
theorem blameless {clientKey : Bytes} {es : List (Side × WebSocketEvent)}
    (h : Reaches Step (opening clientKey) es c) (side : Side) (errorMessage : String)
    (herror : .errorOccurred errorMessage ∈ (c.socket side).emitted) :
    Cause clientKey es side errorMessage :=
  ((sound_of_run (run_reports h)).speaking side).errors errorMessage herror

/-- The client closes the connection while the response is on its way to it. -/
def earlyClose : List (Side × WebSocketEvent) := [(.client, .close), (.client, .runs .disconnected)]

/-- A client that fails in front of the end of the handshake. -/
theorem blameless_example : ∃ c : Conversation,
    WebSocketSignal.errorOccurred "WebSocket connection closed before the handshake completed" ∈
      (c.socket .client).emitted ∧
    Cause [] earlyClose .client
      "WebSocket connection closed before the handshake completed" := by
  obtain ⟨c, hrun, hobserved⟩ := @exists_run_of_performs (opening []) _ exampleMask
    (fun _ _ => true) earlyClose (fun c => (c.socket .client).emitted)
    [.errorOccurred "WebSocket connection closed before the handshake completed"]
    (by decide +kernel)
  have hmem : WebSocketSignal.errorOccurred
      "WebSocket connection closed before the handshake completed" ∈ (c.socket .client).emitted :=
    hobserved ▸ List.mem_cons_self
  exact ⟨c, hmem, blameless hrun.forget .client _ hmem⟩

end Conversation

end SimplyNode
