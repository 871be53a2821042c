import SimplyNode.HttpFlush
import SimplyNode.NextRequest
import SimplyNode.TcpPair

/-!
# A Request and Its Response

A client sends one request and waits. The kernel hands its bytes to the server in pieces of any
size, and takes those of the response in pieces of any size. The slots of the server run as tasks of
the owner, at any time. No call fails, and the client does not hang up.

The connection goes through three phases. The parser has a part of the request; then the response
has been written, and the counters wait for its notifications; then the server has closed.

## Main results

* `Working.handleEvents`: an event of a connected socket in which nothing fails.
* `Phase.step`: the phases, and what each of them knows.
* `HttpExchange.request_answered`: **one request has one response**, all of which is flushed before
  the server closes the connection, and it does not stop before.
-/

open Transition

namespace SimplyNode

open Text Feed HttpRequestParser StreamSocket

/-! ### A socket that works -/

namespace StreamSocket

variable {s s' : StreamSocket} {o : Bytes}

/-- So much has been read by the slots, and the signals announce or report bytes. -/
structure Working (o : Bytes) (s : StreamSocket) : Prop where
  obtained : s.obtained = o
  signals : ∀ signal ∈ s.connection.signals, signal = .readyRead ∨ ∃ n, signal = .bytesWritten n

theorem Working.note (h : Working o s) {signal : SocketSignal}
    (hsignal : signal = .readyRead ∨ ∃ n, signal = .bytesWritten n) :
    Working o (s.note signal) where
  obtained := h.obtained
  signals other hother := by
    rcases List.mem_append.mp hother with hother | hother
    · exact h.signals other hother
    · exact List.mem_singleton.mp hother ▸ hsignal

/-- A connected socket that works holds what it has received. -/
theorem Working.holds (h : Working o s) (hstate : s.state = .connected) :
    Reception.Holds s (s.obtained ++ s.readBuffer) where
  state := hstate
  bytes := rfl
  quiet hmem := by
    rcases h.signals _ hmem with heq | ⟨n, heq⟩
    · cases heq
    · cases heq

theorem Working.handleWritable (h : Working o s) {sends : List SendResult}
    (hsends : ∀ a ∈ sends, ¬SendFatal a) (hs : handleWritable .tcpSocket s sends = some s') :
    Working o s' := by
  refine handleWritable_rule (I := Working o) (J := Working o) ?_ ?_ ?_ ?_ h hs
  · exact fun v hv => ⟨hv.obtained, hv.signals⟩
  · intro v front rest n hv _ _ _
    have htaken : Working o (v.advanceFront front rest n) := ⟨hv.obtained, hv.signals⟩
    exact htaken.note (.inr ⟨n, rfl⟩)
  · exact fun _ v hv => ⟨hv.obtained, hv.signals⟩
  · exact fun v a ha hfatal => absurd hfatal (hsends a ha)

/-- A read goes on working, or it disconnects the socket. -/
theorem Working.handleReadable (h : Working o s) {recvs : List RecvResult}
    (hs : handleReadable .tcpSocket s recvs = some s') :
    Working o s' ∨ s'.state = .disconnected := by
  refine handleReadable_rule (I := Working o)
    (J := fun v => Working o v ∨ v.state = .disconnected) ?_ ?_ ?_ ?_ h hs
  · exact fun v bytes hv => ⟨hv.obtained, hv.signals⟩
  · exact fun _ v _ => .inr (state_applyDisconnectedState .tcpSocket v true)
  · exact fun _ v hv => ⟨.inl hv, .inl (hv.note (.inl rfl))⟩
  · exact fun v r _ _ _ errno => .inr (state_applyDisconnectedState .tcpSocket _ true)

/-- **An event of a connected socket in which nothing fails.** -/
theorem Working.handleEvents (h : Working o s) (hstate : s.state = .connected)
    {nativeEvents : EventMask} {answers : EventAnswers}
    (hsends : ∀ a ∈ answers.sends, ¬SendFatal a)
    (hs : s.handleEvents .tcpSocket nativeEvents answers = some s')
    (hstill : s'.state = .connected) : Working o s' := by
  have hconnecting : s.state ≠ .connecting := by simp [hstate]
  have hopen : s'.state ≠ .disconnected := by simp [hstill]
  have hcomplete {p : StreamSocket × Bool}
      (hp : completeConnect .tcpSocket s nativeEvents answers = some p) : p = (s, true) := by
    rcases completeConnect_cases hp with ⟨hstate, -⟩ | ⟨hstate, -⟩ | ⟨-, hp⟩
    · exact absurd hstate hconnecting
    · exact absurd hstate hconnecting
    · exact hp
  rcases handleEvents_cases hs with ⟨-, hs, -, -⟩ | ⟨hp, -, -⟩ | ⟨v, w, -, hp, hinput, houtput⟩
  · rcases handleHangUp_cases hs with ⟨hstate, -⟩ | ⟨-, rfl⟩
    · exact absurd hstate hconnecting
    · exact absurd (state_applyDisconnectedState .tcpSocket s true) hopen
  · cases hcomplete hp
  · obtain rfl : v = s := congrArg Prod.fst (hcomplete hp)
    have hw : Working o w ∨ w.state = .disconnected := by
      rcases handleInput_cases hinput with ⟨-, hinput⟩ | ⟨-, rfl⟩
      · exact h.handleReadable hinput
      · exact .inl h
    rcases handleOutput_cases houtput with ⟨hconnected, houtput⟩ | ⟨-, rfl⟩
    · have hworking := hw.resolve_right fun hclosed =>
        SocketState.noConfusion (hclosed.symm.trans hconnected)
      exact hworking.handleWritable hsends houtput
    · exact hw.resolve_right hopen

end StreamSocket

/-! ### The connection and its client -/

/-- A connection of the server, and what its client has sent that is still to be received. -/
structure HttpExchange where
  connection : HttpConnection
  unread : Bytes

namespace HttpExchange

open HttpConnection

/-- What `recv` answers. -/
def recvs : HttpConnectionStep → List RecvResult
  | .handleEvents _ answers => answers.recvs
  | .emitPosted _ _ _ => []

/-- A step of the connection, in which the kernel hands over the next bytes. -/
structure Step (x : HttpExchange) (l : HttpConnectionStep) (next : HttpExchange) : Prop where
  call : HttpConnection.Step x.connection l next.connection
  unread : x.unread = receivedBytes (recvs l) ++ next.unread

/-- No call fails, and the client does not hang up. -/
def Smooth : HttpConnectionStep → Prop
  | .handleEvents nativeEvents answers =>
      ¬Reception.Ends (.handleEvents nativeEvents answers) ∧
        (∀ a ∈ answers.recvs, ¬RecvFatal a) ∧ ∀ a ∈ answers.sends, ¬SendFatal a
  | .emitPosted _ _ sends => ∀ a ∈ sends, ¬SendFatal a

/-- The server has adopted a socket, and its client sends the bytes of a request. -/
structure Opening (r : SizedRequest) (x : HttpExchange) : Prop where
  connection : ∃ fd blocking, 0 ≤ fd ∧
    x.connection = { socket := TcpSocket.adopt fd blocking none }
  unread : x.unread = r.text

/-! ### The phases -/

variable {r : SizedRequest} {x next : HttpExchange} {state : HttpServer.SocketState}
  {pieces : List Bytes} {response : Bytes}

/-- The parser has the first pieces of the request. -/
structure Reading (r : SizedRequest) (pieces : List Bytes) (state : HttpServer.SocketState)
    (x : HttpExchange) : Prop where
  sound : x.connection.Sound
  connected : x.connection.socket.state = .connected
  working : Working pieces.flatten x.connection.socket
  announced : x.connection.socket.readBuffer ≠ [] →
    .readyRead ∈ x.connection.socket.connection.signals.drop x.connection.emitted
  entry : x.connection.state = some state
  parser : state.parser = feedAll feed {} pieces
  pendingClose : state.pendingClose = false
  request : pieces.flatten ++ x.connection.socket.readBuffer ++ x.unread = r.text
  waiting : pieces.flatten.length < r.text.length
  responses : x.connection.responses = []
  closings : x.connection.closings = []

/-- The response has been written, and not all of it has been reported. -/
structure Writing (response : Bytes) (state : HttpServer.SocketState) (x : HttpExchange) :
    Prop where
  sound : x.connection.Sound
  connected : x.connection.socket.state = .connected
  working : ∃ o, Working o x.connection.socket
  readBuffer : x.connection.socket.readBuffer = []
  unread : x.unread = []
  entry : x.connection.state = some state
  pendingClose : state.pendingClose = true
  totalToSend : state.totalToSend = response.length
  totalSent : state.totalSent = x.connection.reported
  waiting : x.connection.reported < response.length
  responses : x.connection.responses = [response]
  closings : x.connection.closings = []

/-- The server has closed the connection behind the response. -/
structure Closed (response : Bytes) (x : HttpExchange) : Prop where
  sound : x.connection.Sound
  disconnected : x.connection.socket.state = .disconnected
  entry : x.connection.state = none
  responses : x.connection.responses = [response]
  sent : x.connection.socket.connection.sent = response
  closings : x.connection.closings = [⟨response.length, response.length⟩]

/-- The response is the one to the request, with routes and files that the server has had. -/
def Answers (site : HttpServer → FileSystem → Prop) (r : SizedRequest) (response : Bytes) : Prop :=
  ∃ server fs, site server fs ∧ response = (server.respond fs r.request).serialize

/-- **The phases of a connection.** -/
inductive Phase (site : HttpServer → FileSystem → Prop) (r : SizedRequest) (x : HttpExchange) :
    Prop
  | reading {pieces : List Bytes} {state : HttpServer.SocketState} :
      Reading r pieces state x → Phase site r x
  | writing {response : Bytes} {state : HttpServer.SocketState} :
      Answers site r response → Writing response state x → Phase site r x
  | closed {response : Bytes} : Answers site r response → Closed response x → Phase site r x

/-! ### What the parser answers -/

/-- **The server waits for the request, and answers it when it is complete.** -/
theorem answer_pieces (server : HttpServer) (fs : FileSystem) (h : pieces.flatten <+: r.text) :
    answer server fs (feedAll feed {} pieces) =
      if pieces.flatten.length < r.text.length then (feedAll feed {} pieces, none)
      else ({}, some (server.respond fs r.request).serialize) := by
  have htext : pieces.flatten <+: r.text ++ [] := by rwa [List.append_nil]
  obtain ⟨hcomplete, hrequest⟩ := r.feedAll_text htext
  obtain ⟨herror, -, -⟩ :=
    (RequestHead.plain_of_nil r.noTransferEncoding).framedBy r.body pieces h
  split
  · rename_i hshort
    have hpart : ¬(feedAll feed {} pieces).isComplete = true := fun hall => by
      have hlong := hcomplete.mp hall
      omega
    rw [answer, if_neg hpart, if_neg (by rw [herror]; exact Bool.false_ne_true)]
  · rename_i hlong
    have hall : (feedAll feed {} pieces).isComplete = true := hcomplete.mpr (by omega)
    have hparse : (feedAll feed {} pieces).parse = (r.request, {}) := by
      rw [parse, if_pos hall, hrequest hall]
    rw [answer, if_pos hall, hparse]

/-! ### Events -/

/-- What an event leaves of a socket in which nothing fails. -/
theorem event_works {s s' : StreamSocket} {o : Bytes} (hworking : Working o s)
    (hstate : s.state = .connected) {nativeEvents : EventMask} {answers : EventAnswers}
    (hsmooth : Smooth (.handleEvents nativeEvents answers))
    (hs : s.handleEvents .tcpSocket nativeEvents answers = some s') :
    s'.state = .connected ∧ Working o s' ∧
      s'.readBuffer = s.readBuffer ++ receivedBytes answers.recvs := by
  obtain ⟨hends, hrecvs, hsends⟩ := hsmooth
  have hnext := ((hworking.holds hstate).handleEvents hrecvs hsends hs).1 hends
  have hworks := hworking.handleEvents hstate hsends hs hnext.state
  refine ⟨hnext.state, hworks, ?_⟩
  have hbytes := hnext.bytes
  rwa [hworks.obtained, hworking.obtained, List.append_assoc, List.append_right_inj] at hbytes

theorem Reading.handleEvents (h : Reading r pieces state x) {nativeEvents : EventMask}
    {answers : EventAnswers} (hsmooth : Smooth (.handleEvents nativeEvents answers))
    (hunread : x.unread = receivedBytes answers.recvs ++ next.unread) {s : StreamSocket}
    (hs : x.connection.socket.handleEvents .tcpSocket nativeEvents answers = some s)
    (hnext : next.connection = { x.connection with socket := s }) :
    Reading r pieces state next := by
  obtain ⟨connection, unread⟩ := next
  subst hnext
  obtain ⟨hstate, hworking, hbuffer⟩ := event_works h.working h.connected hsmooth hs
  obtain ⟨more, hsignals, hannounced⟩ := (Moves.handleEvents hs).posts
  refine ⟨h.sound.handleEvents hs, hstate, hworking, fun hne => ?_, h.entry, h.parser,
    h.pendingClose, ?_, h.waiting, h.responses, h.closings⟩
  · change .readyRead ∈ s.connection.signals.drop x.connection.emitted
    rw [hsignals, List.drop_append_of_le_length h.sound.emitted]
    rcases hannounced hne with hbefore | hmem
    · exact List.mem_append_left _ (h.announced hbefore)
    · exact List.mem_append_right _ hmem
  · have hrequest := h.request
    change pieces.flatten ++ s.readBuffer ++ unread = r.text
    dsimp only at hunread
    rw [hbuffer, ← hrequest, hunread]
    simp only [List.append_assoc]

theorem Writing.handleEvents (h : Writing response state x) {nativeEvents : EventMask}
    {answers : EventAnswers} (hsmooth : Smooth (.handleEvents nativeEvents answers))
    (hunread : x.unread = receivedBytes answers.recvs ++ next.unread) {s : StreamSocket}
    (hs : x.connection.socket.handleEvents .tcpSocket nativeEvents answers = some s)
    (hnext : next.connection = { x.connection with socket := s }) :
    Writing response state next := by
  obtain ⟨connection, unread⟩ := next
  subst hnext
  obtain ⟨o, hworking⟩ := h.working
  obtain ⟨hstate, hworks, hbuffer⟩ := event_works hworking h.connected hsmooth hs
  rw [h.unread] at hunread
  obtain ⟨hrecvs, hnothing⟩ := List.append_eq_nil_iff.mp hunread.symm
  have hreported := reported_continues h.sound.emitted (Continues.handleEvents hs).signals
  refine ⟨h.sound.handleEvents hs, hstate, ⟨o, hworks⟩, ?_, hnothing, h.entry, h.pendingClose,
    h.totalToSend, h.totalSent.trans hreported.symm, ?_, h.responses, h.closings⟩
  · rw [hbuffer, h.readBuffer, hrecvs, List.append_nil]
  · rw [hreported]
    exact h.waiting

theorem Closed.handleEvents (h : Closed response x) {nativeEvents : EventMask}
    {answers : EventAnswers} {s : StreamSocket}
    (hs : x.connection.socket.handleEvents .tcpSocket nativeEvents answers = some s)
    (hnext : next.connection = { x.connection with socket := s }) : Closed response next := by
  obtain ⟨connection, unread⟩ := next
  subst hnext
  obtain ⟨hstate, hsent⟩ := handleEvents_disconnected h.disconnected hs
  exact ⟨h.sound.handleEvents hs, hstate, h.entry, h.responses, hsent.trans h.sent, h.closings⟩

/-! ### Slots -/

/-- The socket has been read. -/
theorem sound_readAll {c : HttpConnection} (h : c.Sound) :
    HttpConnection.Sound { c with socket := c.socket.readAll } where
  stream := h.stream.step (l := .readAll) rfl
  accepted := h.accepted
  buffered hne := absurd rfl hne
  emitted := h.emitted

/-- A signal that is not emitted yet, when another one has been. -/
theorem mem_drop_succ {signals : List SocketSignal} {n : ℕ} {signal other : SocketSignal}
    (hsignal : signals[n]? = some signal) (hne : other ≠ signal) (hmem : other ∈ signals.drop n) :
    other ∈ signals.drop (n + 1) := by
  obtain ⟨hlt, heq⟩ := List.getElem?_eq_some_iff.mp hsignal
  rw [List.drop_eq_getElem_cons hlt, heq] at hmem
  exact (List.mem_cons.mp hmem).resolve_left hne

/-- A notification while the parser waits changes a counter that nobody looks at. -/
theorem Reading.bytesWritten (h : Reading r pieces state x) {n : ℕ}
    (hsignal : x.connection.socket.connection.signals[x.connection.emitted]? =
      some (.bytesWritten n)) :
    Reading r pieces { state with totalSent := state.totalSent + n }
      { x with connection := x.connection.emitNext.onBytesWritten n } := by
  have hsome : x.connection.emitNext.state = some state := h.entry
  have hpending : ¬(state.pendingClose = true ∧ state.totalToSend ≤ state.totalSent + n) := by
    rw [h.pendingClose]
    exact fun hclose => Bool.noConfusion hclose.1
  rw [onBytesWritten_some hsome, if_neg hpending]
  have hsound := h.sound.emit hsignal
  refine ⟨⟨hsound.stream, hsound.accepted, hsound.buffered, hsound.emitted⟩, h.connected,
    h.working, fun hne => ?_, rfl, h.parser, h.pendingClose, h.request, h.waiting, h.responses,
    h.closings⟩
  exact mem_drop_succ hsignal SocketSignal.noConfusion (h.announced hne)

/-- **The response is written** into a connection that has written nothing. -/
theorem writing_send {c c' : HttpConnection} {o : Bytes} (hsound : c.Sound)
    (hstate : c.socket.state = .connected) (hworking : Working o c.socket)
    (hread : c.socket.readBuffer = []) (hnothing : c.responses = []) (hopen : c.closings = [])
    (hresponse : response ≠ []) {sends : List SendResult} (hsends : ∀ a ∈ sends, ¬SendFatal a)
    (hs : c.send state response sends = some c') : ∃ state', Writing response state' ⟨c', []⟩ := by
  have hwritten : c.written = 0 := by
    rw [HttpConnection.written, hnothing]
    rfl
  have hreported : c.reported = 0 := by
    have hmost := hsound.reported_le_flushed.trans hsound.flushed_le_written
    exact Nat.le_zero.mp (hmost.trans hwritten.le)
  have hclosings : ∀ k ∈ c.closings, k.flushed = k.written := by
    rw [hopen]
    exact fun k hk => absurd hk List.not_mem_nil
  have hsafe := Safe.send hsound hclosings hstate hresponse
    (.inl (hreported.trans hwritten.symm)) hs
  obtain ⟨p, hp, rfl⟩ := Option.map_eq_some_iff.mp hs
  have hdata : (ByteArray.ofBytes response).remainingView ≠ [] := hresponse
  rw [write_connected hstate hdata] at hp
  obtain ⟨v, hv, rfl⟩ := Option.map_eq_some_iff.mp hp
  have haccept : Working o (c.socket.accept (.ofBytes response)) :=
    ⟨hworking.obtained, hworking.signals⟩
  have hflushed := (haccept.holds hstate).handleWritable hsends hv
  have hworks := haccept.handleWritable hsends hv
  have hbuffer : v.readBuffer = [] := by
    have hbytes := hflushed.bytes
    rw [hworks.obtained, haccept.obtained, List.append_right_inj] at hbytes
    exact hbytes.trans hread
  have hcount : HttpConnection.reported { c with socket := v } = 0 :=
    (reported_continues hsound.emitted (Continues.handleWritable hv).signals).trans hreported
  refine ⟨{ state with pendingClose := true, totalToSend := response.length, totalSent := 0 },
    hsafe.sound, hflushed.state, ⟨o, hworks⟩, hbuffer, rfl, rfl, rfl, rfl, hcount.symm, ?_, ?_,
    hopen⟩
  · change HttpConnection.reported { c with socket := v } < response.length
    rw [hcount]
    exact List.length_pos_iff.mpr hresponse
  · change c.responses ++ [response] = [response]
    rw [hnothing]
    rfl

/-- The slot of `readyRead` while the parser waits. -/
theorem Reading.readyRead (h : Reading r pieces state x) {server : HttpServer} {fs : FileSystem}
    {sends : List SendResult} {c' : HttpConnection}
    (hsignal : x.connection.socket.connection.signals[x.connection.emitted]? = some .readyRead)
    (hsends : ∀ a ∈ sends, ¬SendFatal a)
    (hs : x.connection.emitNext.onSocketReadyRead server fs sends = some c') :
    (∃ pieces state, Reading r pieces state { x with connection := c' }) ∨
      ∃ state, Writing (server.respond fs r.request).serialize state
        { x with connection := c' } := by
  have hsound := sound_readAll (h.sound.emit hsignal)
  rw [onSocketReadyRead] at hs
  dsimp only at hs
  split at hs
  · rename_i hdata
    obtain ⟨-, rfl⟩ := finish_eq_some.mp hs
    have hbuffer : x.connection.socket.readBuffer = [] := hdata
    have hobtained : x.connection.socket.obtained ++ x.connection.socket.readBuffer =
        pieces.flatten := by
      rw [hbuffer, List.append_nil]
      exact h.working.obtained
    have hrequest := h.request
    rw [hbuffer] at hrequest
    exact .inl ⟨pieces, state, hsound, h.connected, ⟨hobtained, h.working.signals⟩,
      fun hne => absurd rfl hne, h.entry, h.parser, h.pendingClose, hrequest, h.waiting,
      h.responses, h.closings⟩
  · have hentry : x.connection.emitNext.state = some state := h.entry
    have hflatten : (pieces ++ [x.connection.emitNext.socket.readBuffer]).flatten =
        pieces.flatten ++ x.connection.socket.readBuffer := by
      rw [List.flatten_append, List.flatten_singleton]
      rfl
    have hstarts : (pieces ++ [x.connection.emitNext.socket.readBuffer]).flatten <+: r.text := by
      rw [hflatten, ← h.request]
      exact List.prefix_append _ _
    have hfeed : state.parser.feed x.connection.emitNext.socket.readBuffer =
        feedAll feed {} (pieces ++ [x.connection.emitNext.socket.readBuffer]) := by
      rw [feedAll_append, feedAll_cons, feedAll_nil, h.parser]
    rw [hentry] at hs
    dsimp only at hs
    rw [hfeed, answer_pieces server fs hstarts] at hs
    by_cases hshort : (pieces ++ [x.connection.emitNext.socket.readBuffer]).flatten.length <
        r.text.length
    · -- the parser has got a piece, and waits for more
      rw [if_pos hshort] at hs
      obtain ⟨-, rfl⟩ := finish_eq_some.mp hs
      refine .inl ⟨pieces ++ [x.connection.emitNext.socket.readBuffer], _,
        ⟨hsound.stream, hsound.accepted, hsound.buffered, hsound.emitted⟩, h.connected,
        ⟨?_, h.working.signals⟩, fun hne => absurd rfl hne, rfl, rfl, h.pendingClose, ?_, hshort,
        h.responses, h.closings⟩
      · rw [hflatten, ← h.working.obtained]
        rfl
      · have hrequest := h.request
        rw [hflatten, ← hrequest]
        exact congrArg (· ++ x.unread) (List.append_nil _)
    · -- the request is complete, and nothing is behind it
      rw [if_neg hshort] at hs
      have hunread : x.unread = [] := by
        have hlength := congrArg List.length h.request
        rw [hflatten] at hshort
        rw [List.length_append] at hlength
        exact List.length_eq_zero_iff.mp (by omega)
      have hwritten := writing_send hsound h.connected ⟨rfl, h.working.signals⟩ rfl h.responses
        h.closings (HttpResponse.serialize_ne_nil _) hsends hs
      rw [← hunread] at hwritten
      exact .inr hwritten

/-- A notification behind the response: the server waits, or closes the connection. -/
theorem Writing.bytesWritten (h : Writing response state x) {n : ℕ}
    (hsignal : x.connection.socket.connection.signals[x.connection.emitted]? =
      some (.bytesWritten n)) :
    (∃ state, Writing response state
        { x with connection := x.connection.emitNext.onBytesWritten n }) ∨
      Closed response { x with connection := x.connection.emitNext.onBytesWritten n } := by
  have hsome : x.connection.emitNext.state = some state := h.entry
  have hsound := h.sound.emit hsignal
  have hreported : x.connection.emitNext.reported = x.connection.reported + n := by
    rw [reported_emitted hsignal]
    rfl
  rw [onBytesWritten_some hsome]
  split
  · rename_i hclose
    have hclosed := hsound.closeSocket
    have htotal := hclose.2
    rw [h.totalToSend, h.totalSent] at htotal
    have hflushed := hsound.reported_le_flushed
    have hmost := hsound.flushed_le_written
    have hwritten : x.connection.emitNext.written = response.length := by
      have hresponses : x.connection.emitNext.responses = [response] := h.responses
      rw [HttpConnection.written, hresponses, List.flatten_singleton]
    have hlength : x.connection.emitNext.flushed = response.length := by omega
    have hsent : x.connection.emitNext.socket.connection.sent = response := by
      have hprefix := hsound.stream.stream.sent
      have hresponses : x.connection.emitNext.responses = [response] := h.responses
      rw [hsound.accepted, hresponses, List.flatten_singleton] at hprefix
      exact hprefix.eq_of_length hlength
    obtain ⟨signals, heq, -⟩ :=
      applyDisconnectedState_eq .tcpSocket x.connection.emitNext.socket true
    have hstill : x.connection.emitNext.closeSocket.socket.connection.sent =
        x.connection.emitNext.socket.connection.sent := by
      rw [closeSocket, close, heq]
    refine .inr ⟨⟨hclosed.stream, hclosed.accepted, hclosed.buffered, hclosed.emitted⟩,
      state_applyDisconnectedState .tcpSocket _ true, rfl, h.responses, hstill.trans hsent, ?_⟩
    change x.connection.closings ++ _ = _
    rw [h.closings, hlength, hwritten]
    rfl
  · rename_i hopen
    have hwaits : ¬response.length ≤ x.connection.reported + n := fun hle =>
      hopen ⟨h.pendingClose, by rw [h.totalToSend, h.totalSent]; exact hle⟩
    refine .inl ⟨_, ⟨hsound.stream, hsound.accepted, hsound.buffered, hsound.emitted⟩,
      h.connected, h.working, h.readBuffer, h.unread, rfl, h.pendingClose, h.totalToSend, ?_, ?_,
      h.responses, h.closings⟩
    · change state.totalSent + n = x.connection.emitNext.reported
      rw [hreported, h.totalSent]
    · change x.connection.emitNext.reported < response.length
      rw [hreported]
      exact Nat.lt_of_not_le hwaits

/-- An announcement behind the request: there is nothing to be read. -/
theorem Writing.readyRead (h : Writing response state x) {server : HttpServer} {fs : FileSystem}
    {sends : List SendResult} {c' : HttpConnection}
    (hsignal : x.connection.socket.connection.signals[x.connection.emitted]? = some .readyRead)
    (hs : x.connection.emitNext.onSocketReadyRead server fs sends = some c') :
    Writing response state { x with connection := c' } := by
  have hsound := sound_readAll (h.sound.emit hsignal)
  obtain ⟨o, hworking⟩ := h.working
  have hreported : x.connection.emitNext.reported = x.connection.reported :=
    reported_emitted hsignal
  rw [onSocketReadyRead] at hs
  dsimp only at hs
  rw [if_pos (show x.connection.emitNext.socket.readBuffer = [] from h.readBuffer)] at hs
  obtain ⟨-, rfl⟩ := finish_eq_some.mp hs
  refine ⟨hsound, h.connected, ⟨_, rfl, hworking.signals⟩, rfl, h.unread, h.entry, h.pendingClose,
    h.totalToSend, h.totalSent.trans hreported.symm, ?_, h.responses, h.closings⟩
  exact hreported.symm ▸ h.waiting

/-- A slot of a connection that has been closed. -/
theorem Closed.emit (h : Closed response x) {server : HttpServer} {fs : FileSystem}
    {sends : List SendResult} {c' : HttpConnection} {signal : SocketSignal}
    (hsignal : x.connection.socket.connection.signals[x.connection.emitted]? = some signal)
    (hs : x.connection.emitNext.runSlot server fs sends signal = some c') :
    Closed response { x with connection := c' } := by
  have hsound := h.sound.emit hsignal
  have hstays : Closed response { x with connection := x.connection.emitNext } :=
    ⟨hsound, h.disconnected, h.entry, h.responses, h.sent, h.closings⟩
  have hagain : Closed response { x with connection := x.connection.emitNext.closeSocket } := by
    obtain ⟨signals, heq, -⟩ :=
      applyDisconnectedState_eq .tcpSocket x.connection.emitNext.socket true
    refine ⟨hsound.closeSocket, state_applyDisconnectedState .tcpSocket _ true, rfl, h.responses,
      ?_, h.closings⟩
    dsimp only
    rw [closeSocket, close, heq]
    exact h.sent
  cases signal with
  | readyRead =>
      have hbuffer : x.connection.emitNext.socket.readBuffer = [] := by
        by_contra hne
        have hopen := h.sound.buffered hne
        rw [h.disconnected] at hopen
        cases hopen
      rw [runSlot, onSocketReadyRead] at hs
      dsimp only at hs
      rw [if_pos hbuffer] at hs
      obtain ⟨-, rfl⟩ := finish_eq_some.mp hs
      exact ⟨sound_readAll hsound, h.disconnected, h.entry, h.responses, h.sent, h.closings⟩
  | bytesWritten n =>
      obtain ⟨-, rfl⟩ := finish_eq_some.mp hs
      have hnone : x.connection.emitNext.state = none := h.entry
      rw [onBytesWritten_none hnone]
      exact hstays
  | connected =>
      obtain ⟨-, rfl⟩ := finish_eq_some.mp hs
      exact hstays
  | disconnected =>
      obtain ⟨-, rfl⟩ := finish_eq_some.mp hs
      exact hagain
  | errorOccurred message =>
      obtain ⟨-, rfl⟩ := finish_eq_some.mp hs
      exact hagain

/-! ### Runs -/

variable {site : HttpServer → FileSystem → Prop} {l : HttpConnectionStep}

theorem Phase.handleEvents (h : Phase site r x) {nativeEvents : EventMask}
    {answers : EventAnswers} (hsmooth : Smooth (.handleEvents nativeEvents answers))
    (hst : Step x (.handleEvents nativeEvents answers) next) : Phase site r next := by
  obtain ⟨s, hs, hnext⟩ := Option.map_eq_some_iff.mp hst.call
  cases h with
  | reading h => exact .reading (h.handleEvents hsmooth hst.unread hs hnext.symm)
  | writing hanswers h => exact .writing hanswers (h.handleEvents hsmooth hst.unread hs hnext.symm)
  | closed hanswers h => exact .closed hanswers (h.handleEvents hs hnext.symm)

theorem Phase.emit (h : Phase site r x) {server : HttpServer} {fs : FileSystem}
    (hsite : site server fs) {sends : List SendResult} (hsends : ∀ a ∈ sends, ¬SendFatal a)
    {signal : SocketSignal} {c' : HttpConnection}
    (hsignal : x.connection.socket.connection.signals[x.connection.emitted]? = some signal)
    (hs : x.connection.emitNext.runSlot server fs sends signal = some c') :
    Phase site r { x with connection := c' } := by
  have hmem := List.mem_of_getElem? hsignal
  cases h with
  | reading h =>
      rcases h.working.signals _ hmem with rfl | ⟨n, rfl⟩
      · rcases h.readyRead hsignal hsends hs with ⟨pieces, state, hnext⟩ | ⟨state, hnext⟩
        · exact .reading hnext
        · exact .writing ⟨server, fs, hsite, rfl⟩ hnext
      · obtain ⟨-, rfl⟩ := finish_eq_some.mp hs
        exact .reading (h.bytesWritten hsignal)
  | writing hanswers h =>
      obtain ⟨o, hworking⟩ := h.working
      rcases hworking.signals _ hmem with rfl | ⟨n, rfl⟩
      · exact .writing hanswers (h.readyRead hsignal hs)
      · obtain ⟨-, rfl⟩ := finish_eq_some.mp hs
        rcases h.bytesWritten hsignal with ⟨state, hnext⟩ | hnext
        · exact .writing hanswers hnext
        · exact .closed hanswers hnext
  | closed hanswers h => exact .closed hanswers (h.emit hsignal hs)

/-- **The phases follow one another.** -/
theorem Phase.step (h : Phase site r x) (hsmooth : Smooth l)
    (hsite : ∀ server fs sends, l = .emitPosted server fs sends → site server fs)
    (hst : Step x l next) : Phase site r next := by
  cases l with
  | handleEvents nativeEvents answers => exact h.handleEvents hsmooth hst
  | emitPosted server fs sends =>
      obtain ⟨hcall, hunread⟩ := hst
      rw [HttpConnection.Step, call] at hcall
      split at hcall
      · cases hcall
      · rename_i signal hsignal
        have hnext := h.emit (hsite server fs sends rfl) hsmooth hsignal hcall
        have heq : next = { x with connection := next.connection } := by
          obtain ⟨connection, unread⟩ := next
          exact congrArg (HttpExchange.mk connection) hunread.symm
        rw [heq]
        exact hnext

/-- The parser starts afresh. -/
theorem Opening.reading (h : Opening r x) : Reading r [] {} x := by
  obtain ⟨connection, unread⟩ := x
  obtain ⟨⟨fd, blocking, hfd, rfl⟩, rfl⟩ := h
  have hwrites := WritesInOrder.constructed (.adopt fd blocking none)
  have hadopted : TcpSocket.adopt fd blocking none = (updateInterestForState .tcpSocket
      { (TcpSocket.create blocking).setDescriptor fd with
        state := .connected, connection.established := true }).start := by
    rw [TcpSocket.adopt, if_neg (Int.not_lt.mpr hfd)]
  rw [hadopted] at hwrites ⊢
  exact ⟨⟨hwrites, rfl, fun hne => absurd rfl hne, Nat.le_refl 0⟩, rfl,
    ⟨rfl, fun signal hmem => absurd hmem List.not_mem_nil⟩, fun hne => absurd rfl hne, rfl,
    rfl, rfl, rfl, List.length_pos_iff.mpr r.text_ne_nil, rfl, rfl⟩

/-- **What the client gets.** There is at most one response, the one to its request, with routes and
files that the server has had. The kernel has taken its first bytes, and all of them when the
connection is no longer up. Where nothing is on its way any more, the connection is down. -/
structure Answered (site : HttpServer → FileSystem → Prop) (r : SizedRequest) (x : HttpExchange) :
    Prop where
  once : x.connection.responses = [] ∨
    ∃ response, Answers site r response ∧ x.connection.responses = [response]
  inOrder : x.connection.socket.connection.sent <+: x.connection.responses.flatten
  flushed : x.connection.socket.state ≠ .connected → ∃ response : Bytes, response ≠ [] ∧
    x.connection.responses = [response] ∧ x.connection.socket.connection.sent = response ∧
      x.connection.closings = [⟨response.length, response.length⟩]
  atRest : x.unread = [] → x.connection.socket.writeQueue = [] →
    x.connection.emitted = x.connection.socket.connection.signals.length →
      x.connection.socket.state = .disconnected

/-- The parser does not wait for ever. -/
theorem Reading.not_at_rest (h : Reading r pieces state x) (hunread : x.unread = [])
    (hemitted : x.connection.emitted = x.connection.socket.connection.signals.length) : False := by
  have hbuffer : x.connection.socket.readBuffer = [] := by
    by_contra hne
    have hmem := h.announced hne
    rw [hemitted, List.drop_length] at hmem
    cases hmem
  have hrequest := h.request
  rw [hbuffer, hunread, List.append_nil, List.append_nil] at hrequest
  exact absurd h.waiting (hrequest ▸ Nat.lt_irrefl _)

/-- The counters do not wait for ever. -/
theorem Writing.not_at_rest (h : Writing response state x)
    (hqueue : x.connection.socket.writeQueue = [])
    (hemitted : x.connection.emitted = x.connection.socket.connection.signals.length) : False := by
  have hstream := h.sound.stream.stream
  have hqueued := hstream.queued (.inl h.connected)
  rw [hstream.queued_eq_nil.mpr hqueue, List.append_nil, h.sound.accepted, h.responses,
    List.flatten_singleton] at hqueued
  have hnotified := hstream.notified
  rw [hqueued] at hnotified
  have hwaiting := h.waiting
  rw [reported, hemitted, List.take_length, hnotified] at hwaiting
  exact Nat.lt_irrefl _ hwaiting

theorem Phase.sound (h : Phase site r x) : x.connection.Sound := by
  cases h with
  | reading h => exact h.sound
  | writing _ h => exact h.sound
  | closed _ h => exact h.sound

theorem Phase.answered (h : Phase site r x) : Answered site r x := by
  have hsent := h.sound.stream.stream.sent
  rw [h.sound.accepted] at hsent
  cases h with
  | reading h =>
      exact ⟨.inl h.responses, hsent, fun hclosed => absurd h.connected hclosed,
        fun hunread _ hemitted => (h.not_at_rest hunread hemitted).elim⟩
  | writing hanswers h =>
      exact ⟨.inr ⟨_, hanswers, h.responses⟩, hsent, fun hclosed => absurd h.connected hclosed,
        fun _ hqueue hemitted => (h.not_at_rest hqueue hemitted).elim⟩
  | @closed response hanswers h =>
      have hresponse : response ≠ [] := by
        obtain ⟨server, fs, -, rfl⟩ := hanswers
        exact HttpResponse.serialize_ne_nil _
      exact ⟨.inr ⟨_, hanswers, h.responses⟩, hsent,
        fun _ => ⟨response, hresponse, h.responses, h.sent, h.closings⟩,
        fun _ _ _ => h.disconnected⟩

/-- The routes and files of a run. -/
def siteOf (ls : List HttpConnectionStep) (server : HttpServer) (fs : FileSystem) : Prop :=
  ∃ sends, .emitPosted server fs sends ∈ ls

/-- **One request has one response**, in every run in which nothing fails. -/
theorem request_answered {x₀ : HttpExchange} {ls : List HttpConnectionStep} (h₀ : Opening r x₀)
    (h : Run Step (fun _ => Smooth) x₀ ls x) : Answered (siteOf ls) r x := by
  have hphase : Phase (siteOf ls) r x := by
    refine h.labelled.invariant ?_ (.reading h₀.reading)
    rintro u l v hu ⟨hsmooth, hmem⟩ hst
    exact hu.step hsmooth (fun server fs sends heq => ⟨sends, heq ▸ hmem⟩) hst
  exact hphase.answered

/-- A request of one line. -/
def exampleRequest : SizedRequest := getRequest "GET / HTTP/1.1" (by decide) (by decide)

theorem opening_example : Opening exampleRequest ⟨fresh, exampleRequest.text⟩ where
  connection := ⟨5, false, by decide, rfl⟩
  unread := rfl

/-- The request comes in two pieces, and the kernel takes the response in two pieces. -/
theorem request_answered_example : ∃ ls x,
    Run Step (fun _ => Smooth) ⟨fresh, exampleRequest.text⟩ ls x ∧
      x.connection.closings = [⟨85, 85⟩] ∧ Answered (siteOf ls) exampleRequest x := by
  have hstep {c : HttpConnection} {l : HttpConnectionStep} {u : Bytes} (u' : Bytes)
      (hs : (c.call l).isSome = true) (hu : u = receivedBytes (recvs l) ++ u') :
      Step ⟨c, u⟩ l ⟨(c.call l).get hs, u'⟩ := ⟨(Option.some_get hs).symm, hu⟩
  have hblocked : ¬SendFatal full := fun h => h.2.1 ⟨by decide, .inl rfl⟩
  have htaken {n : ℕ} (hn : 0 < n) : ¬SendFatal (takes n) := fun h =>
    absurd h.1 (Int.not_le.mpr (Int.natCast_pos.mpr hn))
  have hreceived (bytes : Bytes) : ∀ a ∈ [.received bytes, .failed eagain], ¬RecvFatal a := by
    rintro a ha ⟨errno, rfl, hagain, -⟩
    rcases List.mem_cons.mp ha with heq | ha
    · cases heq
    · obtain rfl := RecvResult.failed.inj (List.mem_singleton.mp ha)
      exact hagain (.inl rfl)
  have hnothing {α : Type} {p : α → Prop} : ∀ a ∈ ([] : List α), p a := fun a ha =>
    absurd ha List.not_mem_nil
  have hpiece (byte : UInt8) (bytes : Bytes) : Smooth (.handleEvents epollIn
      { recvs := [.received (byte :: bytes), .failed eagain] }) := by
    refine ⟨fun hends => ?_, hreceived _, hnothing⟩
    rcases hends with hflags | hmem
    · exact hflags rfl
    · simp at hmem
  have hwritable : Smooth (.handleEvents epollOut { sends := [takes 75] }) := by
    refine ⟨fun hends => ?_, hnothing, List.forall_mem_singleton.mpr (htaken (by decide))⟩
    rcases hends with hflags | hmem
    · exact hflags rfl
    · cases hmem
  have hrun : Run Step (fun _ => Smooth) ⟨fresh, exampleRequest.text⟩
      [.handleEvents epollIn { recvs := [.received (bytes "GET / "), .failed eagain] },
        .emitPosted {} noFiles [],
        .handleEvents epollIn { recvs := [.received (bytes "HTTP/1.1\r\n\r\n"), .failed eagain] },
        .emitPosted {} noFiles [takes 10, full], .emitPosted {} noFiles [],
        .handleEvents epollOut { sends := [takes 75] },
        .emitPosted {} noFiles []] _ :=
    .cons (hpiece _ _)
      (hstep (bytes "HTTP/1.1\r\n\r\n") (by decide +kernel) (by decide +kernel)) <|
    .cons hnothing (hstep _ (by decide +kernel) rfl) <|
    .cons (hpiece _ _) (hstep [] (by decide +kernel) (by decide +kernel)) <|
    .cons (List.forall_mem_cons.mpr ⟨htaken (by decide), List.forall_mem_singleton.mpr hblocked⟩)
      (hstep [] (by decide +kernel) rfl) <|
    .cons hnothing (hstep [] (by decide +kernel) rfl) <|
    .cons hwritable (hstep [] (by decide +kernel) rfl) <|
    .cons hnothing (hstep [] (by decide +kernel) rfl) <| .nil _
  exact ⟨_, _, hrun, by decide +kernel, request_answered opening_example hrun⟩

end HttpExchange

end SimplyNode
