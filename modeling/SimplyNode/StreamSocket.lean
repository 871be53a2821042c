import SimplyNode.IOEvent
import SimplyNode.HttpRequest

/-!
# Stream Sockets

`TcpSocket` and `LocalSocket` are two copies of one class: a queue of `ByteArray`s to be sent, a
buffer of the bytes received, a state, and an `IOEvent` that tells when the descriptor is ready.
They differ in how they connect, in the interest they register, and in how they emit: a
`TcpSocket` posts each of its signals to its owner, where it is emitted later, and a `LocalSocket`
emits it on the spot. What they share is defined once here, for a `SocketClass`.

Everything is called inside the owner, so a call is not interrupted. What the kernel answers to
`send`, `recv` and the other system calls of a pass is given to it as a script. A script that the
kernel cannot have answered, which is one that takes more bytes than it was given, or goes on when
the pass is over, makes the pass `none`.

## Main results

* `ByteArray.remainingView_advance`: what is left when a cursor has moved.
* `TcpSocket.Step`: the calls of a `TcpSocket`.
-/

open Transition

namespace SimplyNode

/-- An error number. -/
abbrev Errno := ℕ

/-- `EINTR`. -/
def eintr : Errno := 4

/-- `EAGAIN`. -/
def eagain : Errno := 11

/-- `EWOULDBLOCK`. -/
def ewouldblock : Errno := 11

/-- `EINPROGRESS`. -/
def einprogress : Errno := 115

/-- `EHOSTUNREACH`. -/
def ehostunreach : Errno := 113

/-- `EINVAL`. -/
def einval : Errno := 22

/-! ### Byte arrays with a cursor -/

/-- `ByteArray`. The cursor is in the array or at its end. -/
structure ByteArray where
  bytes : Bytes
  offset : ℕ
  offset_le : offset ≤ bytes.length
  deriving DecidableEq

namespace ByteArray

variable (b : ByteArray)

/-- The constructor of a `ByteArray`. -/
def ofBytes (bytes : Bytes) : ByteArray := ⟨bytes, 0, Nat.zero_le _⟩

/-- `ByteArray::remainingView`. -/
def remainingView : Bytes := b.bytes.drop b.offset

/-- `ByteArray::remainingSize`. -/
def remainingSize : ℕ := b.remainingView.length

/-- `ByteArray::fullyConsumed`. -/
def fullyConsumed : Bool := b.remainingSize = 0

theorem offset_add_remainingSize : b.offset + b.remainingSize = b.bytes.length := by
  rw [remainingSize, remainingView, List.length_drop]
  exact Nat.add_sub_cancel' b.offset_le

/-- `ByteArray::advance`. -/
def advance (count : ℕ) : ByteArray where
  bytes := b.bytes
  offset := b.offset + min count b.remainingSize
  offset_le := by
    have hsize := b.offset_add_remainingSize
    omega

theorem fullyConsumed_iff : b.fullyConsumed = true ↔ b.remainingView = [] := by
  rw [fullyConsumed, decide_eq_true_eq, remainingSize, List.length_eq_zero_iff]

/-- The cursor moves over the first bytes of the remaining ones. -/
theorem remainingView_advance (count : ℕ) :
    (b.advance count).remainingView = b.remainingView.drop count := by
  rw [remainingView, remainingView, List.drop_drop]
  change b.bytes.drop (b.offset + min count b.remainingSize) = _
  rcases Nat.le_total count b.remainingSize with hle | hle
  · rw [Nat.min_eq_left hle]
  · have hsize := b.offset_add_remainingSize
    rw [Nat.min_eq_right hle, List.drop_eq_nil_of_le (Nat.le_of_eq hsize.symm),
      List.drop_eq_nil_of_le (by omega)]

end ByteArray

/-! ### The data of a socket -/

/-- The two classes. -/
inductive SocketClass
  | tcpSocket
  | localSocket
  deriving DecidableEq

/-- `TcpSocketState` and `LocalSocketState`. -/
inductive SocketState
  | disconnected
  | connecting
  | connected
  | error
  deriving DecidableEq

/-- What `errorOccurred` tells. -/
inductive SocketError
  /-- A prefix, and the text of an error number. -/
  | system (text : String) (errorCode : Errno)
  /-- `connectToHost` cannot resolve its host. -/
  | unresolved (host resolveError : String)
  /-- The path of `connectToPath` is too long. -/
  | pathTooLong (path : String)
  deriving DecidableEq

/-- The signals of a socket. -/
inductive SocketSignal
  | connected
  | disconnected
  | readyRead
  | bytesWritten (written : ℕ)
  | errorOccurred (message : SocketError)
  deriving DecidableEq

/-- What `send` returns, with `errno`. -/
structure SendResult where
  written : ℤ
  errno : Errno := 0
  deriving DecidableEq

/-- What `recv` returns: it writes bytes into the buffer, none at the end of the stream, or it
fails. -/
inductive RecvResult
  | received (bytes : Bytes)
  | failed (errno : Errno)
  deriving DecidableEq

/-- The data of a connection, from the call that establishes it on. -/
structure ConnectionRecord where
  /-- The socket has been `Connected`. -/
  established : Bool := false
  /-- What calls of `write` have accepted. -/
  accepted : Bytes := []
  /-- What the kernel has taken. -/
  sent : Bytes := []
  /-- The signals that were posted, or emitted. -/
  signals : List SocketSignal := []
  deriving DecidableEq

/-- A `TcpSocket` or `LocalSocket`. -/
structure StreamSocket where
  blocking : Bool := false
  state : SocketState := .disconnected
  readBuffer : Bytes := []
  writeQueue : List ByteArray := []
  descriptor : FileDescriptor := -1
  interest : IOEventFlags := .read ||| .error ||| .hangUp
  active : Bool := false
  /-- What `readAll()` has returned. -/
  obtained : Bytes := []
  connection : ConnectionRecord := {}
  /-- The connections before this one. -/
  past : List ConnectionRecord := []
  deriving DecidableEq

/-- The script of a pass is at its end. -/
def finish {α β : Type} : List α → β → Option β
  | [], b => some b
  | _ :: _, _ => none

theorem finish_eq_some {α β : Type} {l : List α} {b c : β} :
    finish l b = some c ↔ l = [] ∧ b = c := by
  cases l with
  | nil => simp [finish]
  | cons a l => simp [finish]

namespace StreamSocket

variable (c : SocketClass) (s : StreamSocket)

/-! ### Signals -/

/-- `readAll()`. -/
def readAll : StreamSocket := { s with obtained := s.obtained ++ s.readBuffer, readBuffer := [] }

/-- A signal is noted in the record of the connection. -/
def note (signal : SocketSignal) : StreamSocket :=
  { s with connection.signals := s.connection.signals ++ [signal] }

/-- The slots of a signal run. The one of `readyRead` calls `readAll()`. -/
def runSlots : SocketSignal → StreamSocket
  | .readyRead => s.readAll
  | _ => s

/-- `emitConnected` and its siblings: a `TcpSocket` posts the emission to its owner, and a
`LocalSocket` emits the signal. -/
def emit (signal : SocketSignal) : StreamSocket :=
  match c with
  | .tcpSocket => s.note signal
  | .localSocket => (s.note signal).runSlots signal

/-! ### The operations of the watch -/

/-- `IOEvent::setInterest`. -/
def setInterest (flags : IOEventFlags) : StreamSocket := { s with interest := flags }

/-- `IOEvent::start`. -/
def start : StreamSocket := { s with active := true }

/-- `IOEvent::stop`. -/
def stop : StreamSocket := { s with active := false }

/-- `IOEvent::setDescriptor`, which closes the one before. -/
def setDescriptor (fd : FileDescriptor) : StreamSocket := { s with descriptor := fd }

/-- `updateInterestForState`. -/
def updateInterestForState : StreamSocket :=
  let flags := .error ||| .hangUp
  s.setInterest <|
    match c with
    | .tcpSocket =>
        let flags := if s.state = .connecting then flags ||| .write else flags
        if s.state = .connected then
          let flags := flags ||| .read
          if !s.writeQueue.isEmpty then flags ||| .write else flags
        else flags
    | .localSocket =>
        let flags :=
          if s.state = .connected || s.state = .connecting then flags ||| .read else flags
        if !s.writeQueue.isEmpty || s.state = .connecting then flags ||| .write else flags

/-! ### Transitions of the state -/

/-- `failWithErrno`. -/
def failWithErrno (text : String) (errorCode : Errno) : StreamSocket :=
  emit c { s with state := .error } (.errorOccurred (.system text errorCode))

/-- The result of `transitionToDisconnected`. -/
def wasConnected : Bool := s.state = .connected || s.state = .connecting

/-- `transitionToDisconnected`. -/
def transitionToDisconnected : StreamSocket :=
  { s with state := .disconnected, readBuffer := [], writeQueue := [] }

/-- `applyDisconnectedState(emitSignal)`. -/
def applyDisconnectedState (emitSignal : Bool) : StreamSocket :=
  let next := s.transitionToDisconnected.stop.setDescriptor (-1)
  if emitSignal && s.wasConnected then emit c next .disconnected else next

/-- `close()`, inside the owner. -/
def close : StreamSocket := applyDisconnectedState c s true

/-! ### Writing -/

/-- The arrays at the front of the queue that have been consumed are popped. -/
def popConsumed : StreamSocket :=
  { s with writeQueue := s.writeQueue.dropWhile ByteArray.fullyConsumed }

/-- The kernel has taken some bytes of the array at the front of the queue. -/
def advanceFront (front : ByteArray) (rest : List ByteArray) (written : ℕ) : StreamSocket :=
  let next := front.advance written
  { s with
    writeQueue := if next.fullyConsumed then rest else next :: rest
    connection.sent := s.connection.sent ++ front.remainingView.take written }

/-- `send` has failed. -/
def sendFailed (errno : Errno) : StreamSocket :=
  applyDisconnectedState c (failWithErrno c s "send() failed" errno) true

/-- The loop of `flushPendingWrites`. -/
def flushLoop : List SendResult → StreamSocket → Option StreamSocket
  | [], s =>
      match s.popConsumed.writeQueue with
      | [] => some s.popConsumed
      | _ :: _ => none
  | r :: sends, s =>
      match s.popConsumed.writeQueue with
      | [] => none
      | front :: rest =>
          if 0 < r.written then
            if r.written ≤ front.remainingSize then
              let next := s.popConsumed.advanceFront front rest r.written.toNat
              flushLoop sends (emit c next (.bytesWritten r.written.toNat))
            else none
          else if r.written < 0 ∧ (r.errno = eagain ∨ r.errno = ewouldblock) then
            finish sends s.popConsumed
          else if r.written < 0 ∧ r.errno = eintr then flushLoop sends s.popConsumed
          else finish sends (sendFailed c s.popConsumed r.errno)

/-- `flushPendingWrites`. Its callers do not look at what it returns. -/
def flushPendingWrites (sends : List SendResult) : Option StreamSocket :=
  if s.descriptor < 0 then finish sends s else flushLoop c sends s

/-- `handleWritable`. -/
def handleWritable (sends : List SendResult) : Option StreamSocket :=
  (flushPendingWrites c s sends).map (updateInterestForState c)

/-- A call of `write` has put its data into the queue. -/
def accept (data : ByteArray) : StreamSocket :=
  { s with
    writeQueue := s.writeQueue ++ [data]
    connection.accepted := s.connection.accepted ++ data.remainingView }

/-- `write`, inside the owner, with the number of bytes that it accepts. -/
def write (data : ByteArray) (sends : List SendResult) : Option (StreamSocket × ℕ) :=
  if data.remainingSize = 0 then finish sends (s, 0)
  else if s.state ≠ .connected ∧ s.state ≠ .connecting then finish sends (s, 0)
  else (handleWritable c (s.accept data) sends).map fun next => (next, data.remainingSize)

/-! ### Reading -/

/-- `recv` has failed. -/
def recvFailed (errno : Errno) : StreamSocket :=
  applyDisconnectedState c (failWithErrno c s "recv() failed" errno) true

/-- The loop of `handleReadable`. -/
def receiveLoop : List RecvResult → Bool → StreamSocket → Option StreamSocket
  | [], _, _ => none
  | .received [] :: recvs, _, s => finish recvs (applyDisconnectedState c s true)
  | .received bytes :: recvs, _, s =>
      receiveLoop recvs true { s with readBuffer := s.readBuffer ++ bytes }
  | .failed errno :: recvs, appended, s =>
      if errno = eagain ∨ errno = ewouldblock then
        finish recvs (if appended then emit c s .readyRead else s)
      else if errno = eintr then receiveLoop recvs appended s
      else finish recvs (recvFailed c s errno)

/-- `handleReadable`. -/
def handleReadable (recvs : List RecvResult) : Option StreamSocket :=
  if s.descriptor < 0 then finish recvs s else receiveLoop c recvs false s

/-! ### Events -/

/-- `applyConnectedState`. -/
def applyConnectedState (sends : List SendResult) : Option StreamSocket :=
  let next := { s with state := .connected, connection.established := true }
  handleWritable c (emit c (updateInterestForState c next).start .connected) sends

/-- What the kernel answers in a call of `handleEvents`. -/
structure EventAnswers where
  /-- `getsockopt(SO_ERROR)`: the pending error of the socket, if the call succeeds. -/
  socketError : Option Errno := some 0
  /-- The value of `errno` behind it. -/
  errno : Errno := 0
  /-- The flush behind the completion of a connect. -/
  connectSends : List SendResult := []
  recvs : List RecvResult := []
  sends : List SendResult := []

/-- `handleEvents` for a socket that has got an error or hang-up flag. -/
def handleHangUp (answers : EventAnswers) : Option StreamSocket :=
  if s.state = .connecting ∧ 0 ≤ s.descriptor ∧ answers.socketError = some 0 then
    applyConnectedState c s answers.connectSends
  else finish answers.connectSends (applyDisconnectedState c s true)

/-- `handleEvents`: the completion of a connect, and whether it goes on. -/
def completeConnect (nativeEvents : EventMask) (answers : EventAnswers) :
    Option (StreamSocket × Bool) :=
  if s.state = .connecting ∧ nativeEvents &&& epollOut ≠ 0 then
    match (if s.descriptor < 0 then none else answers.socketError) with
    | none =>
        let failed := failWithErrno c s "getsockopt(SO_ERROR) failed" answers.errno
        finish answers.connectSends (applyDisconnectedState c failed true, false)
    | some socketError =>
        if socketError ≠ 0 then
          let failed := failWithErrno c s "connect() async completion failed" socketError
          finish answers.connectSends (applyDisconnectedState c failed true, false)
        else (applyConnectedState c s answers.connectSends).map fun next => (next, true)
  else finish answers.connectSends (s, true)

/-- The reading part of `handleEvents`. -/
def handleInput (nativeEvents : EventMask) (recvs : List RecvResult) : Option StreamSocket :=
  if nativeEvents &&& epollIn ≠ 0 ∧ s.state = .connected then handleReadable c s recvs
  else finish recvs s

/-- The writing part of `handleEvents`. -/
def handleOutput (nativeEvents : EventMask) (sends : List SendResult) : Option StreamSocket :=
  if nativeEvents &&& epollOut ≠ 0 ∧ s.state = .connected then handleWritable c s sends
  else finish sends s

/-- `handleEvents`, behind the signals of `IOEvent`. -/
def handleEvents (nativeEvents : EventMask) (answers : EventAnswers) : Option StreamSocket :=
  if nativeEvents &&& (epollErr ||| epollHup ||| epollRdHup) ≠ 0 then
    (handleHangUp c s answers).bind fun next => finish answers.recvs next >>= finish answers.sends
  else
    (completeConnect c s nativeEvents answers).bind fun p =>
      if p.2 then
        (handleInput c p.1 nativeEvents answers.recvs).bind fun next =>
          handleOutput c next nativeEvents answers.sends
      else finish answers.recvs p.1 >>= finish answers.sends

/-- `setBlocking`, inside the owner, with the error of `fcntl` if it fails. -/
def setBlocking (blocking : Bool) (error : Option Errno) : StreamSocket :=
  let next := { s with blocking := blocking }
  match error with
  | some errno =>
      if 0 ≤ s.descriptor then failWithErrno c next "Failed to set socket mode" errno else next
  | none => next

theorem setBlocking_eq {blocking : Bool} {error : Option Errno} : setBlocking c s blocking error =
    if error ≠ none ∧ 0 ≤ s.descriptor then
      failWithErrno c { s with blocking := blocking } "Failed to set socket mode" (error.getD 0)
    else { s with blocking := blocking } := by
  cases error with
  | none => rfl
  | some errno => simp [setBlocking]

/-! ### A socket that has been disconnected -/

/-- What `applyDisconnectedState` leaves behind. -/
theorem applyDisconnectedState_eq (emitSignal : Bool) :
    ∃ signals, applyDisconnectedState c s emitSignal =
        { s with
          state := .disconnected, readBuffer := [], writeQueue := [], active := false,
          descriptor := -1, connection.signals := s.connection.signals ++ signals } ∧
      signals = if emitSignal && s.wasConnected then [.disconnected] else [] := by
  refine ⟨_, ?_, rfl⟩
  rw [applyDisconnectedState]
  split
  · cases c with
    | _ => rfl
  · rw [List.append_nil]
    rfl

theorem state_applyDisconnectedState (emitSignal : Bool) :
    (applyDisconnectedState c s emitSignal).state = .disconnected := by
  obtain ⟨signals, heq, -⟩ := applyDisconnectedState_eq c s emitSignal
  rw [heq]

/-! ### Rules for the loops -/

/-- `send` has failed for good. -/
def SendFatal (r : SendResult) : Prop :=
  r.written ≤ 0 ∧ ¬ (r.written < 0 ∧ (r.errno = eagain ∨ r.errno = ewouldblock)) ∧
    ¬ (r.written < 0 ∧ r.errno = eintr)

/-- `recv` has failed for good. -/
def RecvFatal (r : RecvResult) : Prop :=
  ∃ errno, r = .failed errno ∧ ¬ (errno = eagain ∨ errno = ewouldblock) ∧ errno ≠ eintr

/-- The loop of `flushPendingWrites`: what holds in front of every `send` is kept by the ones that
take something, and is there at the end. -/
theorem flushLoop_rule {c : SocketClass} {I J : StreamSocket → Prop} {sends : List SendResult}
    (hpop : ∀ s, I s → I s.popConsumed)
    (hsend : ∀ s front rest n, I s → s.writeQueue = front :: rest → 0 < n →
      n ≤ front.remainingSize → I (emit c (s.advanceFront front rest n) (.bytesWritten n)))
    (hdone : (∀ r ∈ sends, ¬ SendFatal r) → ∀ s, I s → J s)
    (hfail : ∀ s, ∀ r ∈ sends, SendFatal r → I s → J (sendFailed c s r.errno))
    {s s' : StreamSocket} (h : I s) (hs : flushLoop c sends s = some s') : J s' := by
  induction sends generalizing s with
  | nil =>
      rw [flushLoop] at hs
      split at hs
      · obtain rfl := Option.some.inj hs
        exact hdone (by simp) _ (hpop s h)
      · cases hs
  | cons r sends ih =>
      have hrest {s : StreamSocket} (hr : ¬ SendFatal r) :=
        ih (s := s) (fun hsends => hdone (List.forall_mem_cons.mpr ⟨hr, hsends⟩))
          fun s r hr => hfail s r (List.mem_cons_of_mem _ hr)
      rw [flushLoop] at hs
      split at hs
      · cases hs
      · rename_i front rest hqueue
        split at hs
        · rename_i hpos
          split at hs
          · rename_i hle
            refine hrest (fun hfatal => absurd hpos (Int.not_lt.mpr hfatal.1)) ?_ hs
            exact hsend _ front rest _ (hpop s h) hqueue (by omega) (by omega)
          · cases hs
        · rename_i hneg
          split at hs
          · rename_i hblock
            obtain ⟨rfl, rfl⟩ := finish_eq_some.mp hs
            refine hdone ?_ _ (hpop s h)
            exact List.forall_mem_singleton.mpr fun hfatal => hfatal.2.1 hblock
          · rename_i hblock
            split at hs
            · rename_i hintr
              exact hrest (fun hfatal => hfatal.2.2 hintr) (hpop s h) hs
            · rename_i hintr
              obtain ⟨-, rfl⟩ := finish_eq_some.mp hs
              exact hfail _ r List.mem_cons_self ⟨Int.not_lt.mp hneg, hblock, hintr⟩ (hpop s h)

/-- **The rule for `handleWritable`.** -/
theorem handleWritable_rule {c : SocketClass} {I J : StreamSocket → Prop} {sends : List SendResult}
    (hpop : ∀ s, I s → I s.popConsumed)
    (hsend : ∀ s front rest n, I s → s.writeQueue = front :: rest → 0 < n →
      n ≤ front.remainingSize → I (emit c (s.advanceFront front rest n) (.bytesWritten n)))
    (hdone : (∀ r ∈ sends, ¬ SendFatal r) → ∀ s, I s → J (updateInterestForState c s))
    (hfail : ∀ s, ∀ r ∈ sends, SendFatal r → I s →
      J (updateInterestForState c (sendFailed c s r.errno)))
    {s s' : StreamSocket} (h : I s) (hs : handleWritable c s sends = some s') : J s' := by
  rw [handleWritable, Option.map_eq_some_iff] at hs
  obtain ⟨v, hv, rfl⟩ := hs
  rw [flushPendingWrites] at hv
  split at hv
  · obtain ⟨rfl, rfl⟩ := finish_eq_some.mp hv
    exact hdone (by simp) s h
  · exact flushLoop_rule (J := fun v => J (updateInterestForState c v)) hpop hsend hdone hfail h hv

/-- The loop of `handleReadable`: what holds in front of every `recv` is kept by the ones that
return something. -/
theorem receiveLoop_rule {c : SocketClass} {I J : StreamSocket → Prop} {recvs : List RecvResult}
    (hdata : ∀ s bytes, I s → I { s with readBuffer := s.readBuffer ++ bytes })
    (hend : (∀ r ∈ recvs, ¬ RecvFatal r) → ∀ s, I s → J (applyDisconnectedState c s true))
    (hblock : (∀ r ∈ recvs, ¬ RecvFatal r) → ∀ s, I s → J s ∧ J (emit c s .readyRead))
    (hfail : ∀ s, ∀ r ∈ recvs, RecvFatal r → I s → ∀ errno, J (recvFailed c s errno))
    {s s' : StreamSocket} {appended : Bool} (h : I s)
    (hs : receiveLoop c recvs appended s = some s') : J s' := by
  induction recvs generalizing s appended with
  | nil => cases hs
  | cons r recvs ih =>
      have hrest {s : StreamSocket} {appended : Bool} (hr : ¬ RecvFatal r) (h : I s)
          (hs : receiveLoop c recvs appended s = some s') : J s' :=
        ih (fun hrecvs => hend (List.forall_mem_cons.mpr ⟨hr, hrecvs⟩))
          (fun hrecvs => hblock (List.forall_mem_cons.mpr ⟨hr, hrecvs⟩))
          (fun s r hr => hfail s r (List.mem_cons_of_mem _ hr)) h hs
      cases r with
      | received bytes =>
          have hr : ¬ RecvFatal (.received bytes) := fun hfatal => by
            obtain ⟨errno, heq, -⟩ := hfatal
            cases heq
          cases bytes with
          | nil =>
              obtain ⟨rfl, rfl⟩ := finish_eq_some.mp hs
              exact hend (List.forall_mem_singleton.mpr hr) s h
          | cons byte bytes => exact hrest hr (hdata s (byte :: bytes) h) hs
      | failed errno =>
          rw [receiveLoop] at hs
          split at hs
          · rename_i hagain
            obtain ⟨rfl, rfl⟩ := finish_eq_some.mp hs
            have hr : ¬ RecvFatal (.failed errno) := fun hfatal => by
              obtain ⟨errno, heq, hne, -⟩ := hfatal
              cases heq
              exact hne hagain
            obtain ⟨hsame, hready⟩ := hblock (List.forall_mem_singleton.mpr hr) s h
            split
            · exact hready
            · exact hsame
          · rename_i hne
            split at hs
            · rename_i hintr
              refine hrest (fun hfatal => ?_) h hs
              obtain ⟨errno, heq, -, hne⟩ := hfatal
              cases heq
              exact hne hintr
            · rename_i hintr
              obtain ⟨-, rfl⟩ := finish_eq_some.mp hs
              exact hfail s _ List.mem_cons_self ⟨errno, rfl, hne, hintr⟩ h errno

/-- **The rule for `handleReadable`.** -/
theorem handleReadable_rule {c : SocketClass} {I J : StreamSocket → Prop} {recvs : List RecvResult}
    (hdata : ∀ s bytes, I s → I { s with readBuffer := s.readBuffer ++ bytes })
    (hend : (∀ r ∈ recvs, ¬ RecvFatal r) → ∀ s, I s → J (applyDisconnectedState c s true))
    (hblock : (∀ r ∈ recvs, ¬ RecvFatal r) → ∀ s, I s → J s ∧ J (emit c s .readyRead))
    (hfail : ∀ s, ∀ r ∈ recvs, RecvFatal r → I s → ∀ errno, J (recvFailed c s errno))
    {s s' : StreamSocket} (h : I s) (hs : handleReadable c s recvs = some s') : J s' := by
  rw [handleReadable] at hs
  split at hs
  · obtain ⟨rfl, rfl⟩ := finish_eq_some.mp hs
    exact (hblock (by simp) s h).1
  · exact receiveLoop_rule hdata hend hblock hfail h hs

/-! ### What the calls come to -/

section Cases

variable {c s} {s' : StreamSocket} {nativeEvents : EventMask} {answers : EventAnswers}
  {sends : List SendResult} {recvs : List RecvResult}

/-- A call of `write` is accepted. -/
def IsOpen (s : StreamSocket) : Prop := s.state = .connected ∨ s.state = .connecting

theorem write_cases {data : ByteArray} {p : StreamSocket × ℕ}
    (hs : write c s data sends = some p) :
    (sends = [] ∧ p = (s, 0)) ∨ (data.remainingView ≠ [] ∧ s.IsOpen ∧
      handleWritable c (s.accept data) sends = some p.1 ∧ p.2 = data.remainingSize) := by
  rw [write] at hs
  split at hs
  · obtain ⟨hsends, rfl⟩ := finish_eq_some.mp hs
    exact Or.inl ⟨hsends, rfl⟩
  · rename_i hsize
    split at hs
    · obtain ⟨hsends, rfl⟩ := finish_eq_some.mp hs
      exact Or.inl ⟨hsends, rfl⟩
    · rename_i hstate
      obtain ⟨v, hv, rfl⟩ := Option.map_eq_some_iff.mp hs
      refine Or.inr ⟨fun hnil => hsize (congrArg List.length hnil), ?_, hv, rfl⟩
      exact (Decidable.not_and_iff_or_not.mp hstate).imp Decidable.not_not.mp Decidable.not_not.mp

theorem handleHangUp_cases (hs : handleHangUp c s answers = some s') :
    (s.state = .connecting ∧ 0 ≤ s.descriptor ∧
      applyConnectedState c s answers.connectSends = some s') ∨
    (answers.connectSends = [] ∧ s' = applyDisconnectedState c s true) := by
  rw [handleHangUp] at hs
  split at hs
  · rename_i hconnecting
    exact Or.inl ⟨hconnecting.1, hconnecting.2.1, hs⟩
  · obtain ⟨hsends, rfl⟩ := finish_eq_some.mp hs
    exact Or.inr ⟨hsends, rfl⟩

theorem completeConnect_cases {p : StreamSocket × Bool}
    (hs : completeConnect c s nativeEvents answers = some p) :
    (s.state = .connecting ∧ answers.connectSends = [] ∧ ∃ text errno,
      p = (applyDisconnectedState c (failWithErrno c s text errno) true, false)) ∨
    (s.state = .connecting ∧ 0 ≤ s.descriptor ∧
      applyConnectedState c s answers.connectSends = some p.1 ∧ p.2 = true) ∨
    (answers.connectSends = [] ∧ p = (s, true)) := by
  rw [completeConnect] at hs
  split at hs
  · rename_i hconnecting
    split at hs
    · obtain ⟨hsends, rfl⟩ := finish_eq_some.mp hs
      exact Or.inl ⟨hconnecting.1, hsends, _, _, rfl⟩
    · rename_i socketError hanswer
      split at hs
      · obtain ⟨hsends, rfl⟩ := finish_eq_some.mp hs
        exact Or.inl ⟨hconnecting.1, hsends, _, _, rfl⟩
      · obtain ⟨v, hv, rfl⟩ := Option.map_eq_some_iff.mp hs
        refine Or.inr (Or.inl ⟨hconnecting.1, Int.not_lt.mp fun hneg => ?_, hv, rfl⟩)
        rw [if_pos hneg] at hanswer
        cases hanswer
  · obtain ⟨hsends, rfl⟩ := finish_eq_some.mp hs
    exact Or.inr (Or.inr ⟨hsends, rfl⟩)

theorem handleInput_cases (hs : handleInput c s nativeEvents recvs = some s') :
    (s.state = .connected ∧ handleReadable c s recvs = some s') ∨ (recvs = [] ∧ s' = s) := by
  rw [handleInput] at hs
  split at hs
  · rename_i hin
    exact Or.inl ⟨hin.2, hs⟩
  · obtain ⟨hrecvs, rfl⟩ := finish_eq_some.mp hs
    exact Or.inr ⟨hrecvs, rfl⟩

theorem handleOutput_cases (hs : handleOutput c s nativeEvents sends = some s') :
    (s.state = .connected ∧ handleWritable c s sends = some s') ∨ (sends = [] ∧ s' = s) := by
  rw [handleOutput] at hs
  split at hs
  · rename_i hout
    exact Or.inl ⟨hout.2, hs⟩
  · obtain ⟨hsends, rfl⟩ := finish_eq_some.mp hs
    exact Or.inr ⟨hsends, rfl⟩

/-- `handleEvents` hangs up, gives up a connect, or reads and writes. -/
theorem handleEvents_cases (hs : handleEvents c s nativeEvents answers = some s') :
    (nativeEvents &&& (epollErr ||| epollHup ||| epollRdHup) ≠ 0 ∧
      handleHangUp c s answers = some s' ∧ answers.recvs = [] ∧ answers.sends = []) ∨
    (completeConnect c s nativeEvents answers = some (s', false) ∧ answers.recvs = [] ∧
      answers.sends = []) ∨
    ∃ v w, nativeEvents &&& (epollErr ||| epollHup ||| epollRdHup) = 0 ∧
      completeConnect c s nativeEvents answers = some (v, true) ∧
      handleInput c v nativeEvents answers.recvs = some w ∧
      handleOutput c w nativeEvents answers.sends = some s' := by
  have hfinish {v : StreamSocket}
      (h : (finish answers.recvs v >>= finish answers.sends) = some s') :
      answers.recvs = [] ∧ answers.sends = [] ∧ v = s' := by
    rw [Option.bind_eq_bind, Option.bind_eq_some_iff] at h
    obtain ⟨w, hw, h⟩ := h
    obtain ⟨hrecvs, rfl⟩ := finish_eq_some.mp hw
    obtain ⟨hsends, heq⟩ := finish_eq_some.mp h
    exact ⟨hrecvs, hsends, heq⟩
  rw [handleEvents] at hs
  split at hs
  · rename_i hflags
    obtain ⟨v, hv, hs⟩ := Option.bind_eq_some_iff.mp hs
    obtain ⟨hrecvs, hsends, rfl⟩ := hfinish hs
    exact Or.inl ⟨hflags, hv, hrecvs, hsends⟩
  · rename_i hflags
    obtain ⟨⟨v, b⟩, hv, hs⟩ := Option.bind_eq_some_iff.mp hs
    cases b with
    | false =>
        obtain ⟨hrecvs, hsends, rfl⟩ := hfinish hs
        exact Or.inr (Or.inl ⟨hv, hrecvs, hsends⟩)
    | true =>
        obtain ⟨w, hw, hs⟩ := Option.bind_eq_some_iff.mp hs
        exact Or.inr (Or.inr ⟨v, w, not_not.mp hflags, hv, hw, hs⟩)

end Cases

end StreamSocket

/-! ### The classes -/

/-- One candidate of `connectToHost`. -/
inductive ConnectAttempt
  /-- `socket` fails, or its mode cannot be set. -/
  | failed (errno : Errno)
  /-- `connect`, with its error. -/
  | connect (fd : ℕ) (error : Option Errno)
  deriving DecidableEq

/-- A call of a socket inside its owner, with what the kernel answers. -/
inductive SocketCall
  | connectToHost (host : String) (resolution : Except String (List ConnectAttempt))
      (sends : List SendResult)
  | close
  | write (data : ByteArray) (sends : List SendResult)
  | readAll
  | setBlocking (blocking : Bool) (error : Option Errno)
  | handleEvents (nativeEvents : EventMask) (answers : StreamSocket.EventAnswers)

namespace TcpSocket

open StreamSocket

/-- `TcpSocket(blocking)`. -/
def create (blocking : Bool) : StreamSocket := { blocking := blocking }

/-- `TcpSocket(adoptedFd, blocking)`, with the error of `fcntl` if it fails. -/
def adopt (fd : FileDescriptor) (blocking : Bool) (error : Option Errno) : StreamSocket :=
  if fd < 0 then failWithErrno .tcpSocket (create blocking) "Invalid adopted descriptor" einval
  else
    match error with
    | some errno =>
        failWithErrno .tcpSocket (create blocking) "Failed to configure adopted socket mode" errno
    | none =>
        let s := (create blocking).setDescriptor fd
        let s := { s with state := .connected, connection.established := true }
        (updateInterestForState .tcpSocket s).start

/-- The loop of `connectToHost` over the candidates. -/
def connectLoop (sends : List SendResult) :
    List ConnectAttempt → Errno → StreamSocket → Option StreamSocket
  | [], lastError, s =>
      finish sends (close .tcpSocket (failWithErrno .tcpSocket s "connect() failed" lastError))
  | .failed errno :: attempts, _, s => connectLoop sends attempts errno s
  | .connect fd none :: attempts, _, s =>
      (applyConnectedState .tcpSocket (s.setDescriptor fd) sends).bind (finish attempts)
  | .connect fd (some errno) :: attempts, _, s =>
      if errno = einprogress ∧ s.blocking = false then
        let next := { s.setDescriptor fd with state := .connecting }
        finish sends (updateInterestForState .tcpSocket next).start >>= finish attempts
      else connectLoop sends attempts errno ((s.setDescriptor fd).setDescriptor (-1))

/-- The loop ends with a connection, with one in progress, or without one. -/
theorem connectLoop_cases {sends : List SendResult} {attempts : List ConnectAttempt}
    {lastError : Errno} {s s' : StreamSocket}
    (hs : connectLoop sends attempts lastError s = some s') :
    (∃ fd : ℕ, applyConnectedState .tcpSocket (s.setDescriptor fd) sends = some s') ∨
    (sends = [] ∧ ∃ fd : ℕ, s' = (updateInterestForState .tcpSocket
      { s.setDescriptor fd with state := .connecting }).start) ∨
    (sends = [] ∧ ∃ fd errno, s' = close .tcpSocket
      (failWithErrno .tcpSocket (s.setDescriptor fd) "connect() failed" errno)) := by
  induction attempts generalizing s lastError with
  | nil =>
      obtain ⟨hsends, rfl⟩ := finish_eq_some.mp hs
      exact Or.inr (Or.inr ⟨hsends, s.descriptor, lastError, rfl⟩)
  | cons attempt attempts ih =>
      cases attempt with
      | failed errno => exact ih hs
      | connect fd error =>
          cases error with
          | none =>
              obtain ⟨v, hv, hs⟩ := Option.bind_eq_some_iff.mp hs
              obtain ⟨-, rfl⟩ := finish_eq_some.mp hs
              exact Or.inl ⟨fd, hv⟩
          | some errno =>
              rw [connectLoop] at hs
              split at hs
              · rw [Option.bind_eq_bind, Option.bind_eq_some_iff] at hs
                obtain ⟨w, hw, hs⟩ := hs
                obtain ⟨hsends, rfl⟩ := finish_eq_some.mp hw
                obtain ⟨-, rfl⟩ := finish_eq_some.mp hs
                exact Or.inr (Or.inl ⟨hsends, fd, rfl⟩)
              · exact ih (s := (s.setDescriptor fd).setDescriptor (-1)) hs

/-- A connection begins. -/
def beginConnection (s : StreamSocket) : StreamSocket :=
  { s with past := s.connection :: s.past, connection := {} }

/-- `TcpSocket::connectToHost`, inside the owner. -/
def connectToHost (s : StreamSocket) (host : String)
    (resolution : Except String (List ConnectAttempt)) (sends : List SendResult) :
    Option StreamSocket :=
  let s := beginConnection (close .tcpSocket s)
  match resolution with
  | .error resolveError =>
      finish sends
        (emit .tcpSocket { s with state := .error }
          (.errorOccurred (.unresolved host resolveError)))
  | .ok attempts => connectLoop sends attempts ehostunreach s

/-- **One call of a `TcpSocket`** inside its owner. -/
def call (s : StreamSocket) : SocketCall → Option StreamSocket
  | .connectToHost host resolution sends => connectToHost s host resolution sends
  | .close => some (s.close .tcpSocket)
  | .write data sends => (write .tcpSocket s data sends).map Prod.fst
  | .readAll => some s.readAll
  | .setBlocking blocking error => some (s.setBlocking .tcpSocket blocking error)
  | .handleEvents nativeEvents answers => s.handleEvents .tcpSocket nativeEvents answers

/-- The kernel can have answered so. -/
def Step (s : StreamSocket) (l : SocketCall) (s' : StreamSocket) : Prop := call s l = some s'

/-- A socket is constructed. -/
inductive Constructed : StreamSocket → Prop
  | create (blocking : Bool) : Constructed (create blocking)
  | adopt (fd : FileDescriptor) (blocking : Bool) (error : Option Errno) :
      Constructed (adopt fd blocking error)

end TcpSocket

end SimplyNode
