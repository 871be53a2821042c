import SimplyNode.StreamSocket
import SimplyNode.Lib.Transition

/-!
# The End of a Connection

A connection ends when the peer closes it, when `close()` is called, or when the kernel reports an
error. All three come to `transitionToDisconnected`, which tells from the state whether the socket
was connected. On the error paths `failWithErrno` has set the state to `Error` before.

## Main results

* `Accounted`: the invariant as long as no connection breaks, `Lost`: what remains when one has.
* `disconnected_once`: every connection that has been established ends with exactly one
  `disconnected`, iff no system call on a connected socket fails.
* `failed_send_silent`: a run in which `send` fails.
-/

open Transition

namespace SimplyNode

/-- How often `disconnected` was posted. -/
def ConnectionRecord.disconnects (r : ConnectionRecord) : ℕ := r.signals.count .disconnected

namespace StreamSocket

variable {s s' : StreamSocket} {l : SocketCall}

/-- **The property**: every established connection whose descriptor is closed has been announced
as disconnected exactly once. -/
def DisconnectedOnce (s : StreamSocket) : Prop :=
  (s.connection.established = true → s.descriptor < 0 → s.connection.disconnects = 1) ∧
    ∀ r ∈ s.past, r.established = true → r.disconnects = 1

/-- A system call of a connected socket fails for good. -/
def Breaks (s : StreamSocket) : SocketCall → Prop
  | .connectToHost _ _ sends => ∃ r ∈ sends, SendFatal r
  | .write _ sends => s.state = .connected ∧ ∃ r ∈ sends, SendFatal r
  | .setBlocking _ error => s.state = .connected ∧ error ≠ none
  | .handleEvents _ answers =>
      (∃ r ∈ answers.connectSends, SendFatal r) ∨ (∃ r ∈ answers.recvs, RecvFatal r) ∨
        ∃ r ∈ answers.sends, SendFatal r
  | _ => False

/-- The connections before this one are accounted for. -/
def PastAccounted (s : StreamSocket) : Prop :=
  ∀ r ∈ s.past, r.established = true → r.disconnects = 1

/-- A connection that is up. -/
structure Up (s : StreamSocket) : Prop where
  state : s.state = .connected
  established : s.connection.established = true
  silent : s.connection.disconnects = 0
  descriptor : 0 ≤ s.descriptor
  past : s.PastAccounted

/-- **The invariant** as long as no connection breaks. -/
structure Accounted (s : StreamSocket) : Prop where
  connected : s.state = .connected → s.Up
  connecting : s.state = .connecting →
    s.connection.established = false ∧ s.connection.disconnects = 0
  disconnected : s.state = .disconnected → s.connection.established = true →
    s.connection.disconnects = 1
  error : s.state = .error → s.connection.established = true → s.connection.disconnects = 1
  past : s.PastAccounted

/-- The connection has come down unannounced. -/
structure Down (s : StreamSocket) : Prop where
  established : s.connection.established = true
  silent : s.connection.disconnects = 0
  state : s.state = .error ∨ s.state = .disconnected

/-- This connection, or one before it, has come down unannounced. -/
def Lost (s : StreamSocket) : Prop :=
  (∃ r ∈ s.past, r.established = true ∧ r.disconnects = 0) ∨ s.Down

/-- A socket that is down is not connected. -/
theorem Down.not_connected (h : s.Down) : s.state ≠ .connected := by
  rcases h.state with hstate | hstate
  · simp [hstate]
  · simp [hstate]

/-- A socket that is down is not connecting. -/
theorem Down.not_connecting (h : s.Down) : s.state ≠ .connecting := by
  rcases h.state with hstate | hstate
  · simp [hstate]
  · simp [hstate]

/-- A socket that is down remembers no connection. -/
theorem Down.wasConnected (h : s.Down) : s.wasConnected = false := by
  simp [StreamSocket.wasConnected, h.not_connected, h.not_connecting]

/-- A socket that is up is accounted for. -/
theorem Up.accounted (h : s.Up) : s.Accounted where
  connected _ := h
  connecting hstate := SocketState.noConfusion (h.state.symm.trans hstate)
  disconnected hstate := SocketState.noConfusion (h.state.symm.trans hstate)
  error hstate := SocketState.noConfusion (h.state.symm.trans hstate)
  past := h.past

/-- What is accounted for has been announced once. -/
theorem Accounted.disconnectedOnce (h : s.Accounted) : s.DisconnectedOnce := by
  refine ⟨fun hestablished hfd => ?_, h.past⟩
  cases hstate : s.state with
  | connected => exact absurd hfd (Int.not_lt.mpr (h.connected hstate).descriptor)
  | connecting => exact absurd ((h.connecting hstate).1.symm.trans hestablished) (by simp)
  | disconnected => exact h.disconnected hstate hestablished
  | error => exact h.error hstate hestablished

/-- A connection that is lost has not been announced. -/
theorem Lost.not_disconnectedOnce (h : s.Lost) (hfd : s.descriptor < 0) :
    ¬ s.DisconnectedOnce := by
  rintro ⟨hcurrent, hpast⟩
  rcases h with ⟨r, hr, hestablished, hzero⟩ | h
  · exact absurd (hzero.symm.trans (hpast r hr hestablished)) (by simp)
  · exact absurd (h.silent.symm.trans (hcurrent h.established hfd)) (by simp)

/-! ### The transitions -/

/-- A signal other than `disconnected` does not count. -/
theorem disconnects_note {signal : SocketSignal} (h : signal ≠ .disconnected) :
    (s.note signal).connection.disconnects = s.connection.disconnects := by
  change (s.connection.signals ++ [signal]).count .disconnected = _
  rw [List.count_append, List.count_singleton, ConnectionRecord.disconnects]
  simp [h]

/-- The end of a connection is announced if there was one. -/
theorem disconnects_applyDisconnectedState :
    (applyDisconnectedState .tcpSocket s true).connection.disconnects =
      s.connection.disconnects + if s.wasConnected then 1 else 0 := by
  obtain ⟨signals, heq, rfl⟩ := applyDisconnectedState_eq .tcpSocket s true
  rw [heq, ConnectionRecord.disconnects, List.count_append, Bool.true_and,
    ConnectionRecord.disconnects]
  cases s.wasConnected with
  | false => simp
  | true => simp

/-- A connection is given up in order. -/
theorem Accounted.applyDisconnectedState (h : s.Accounted) :
    (applyDisconnectedState .tcpSocket s true).Accounted := by
  have hcount := disconnects_applyDisconnectedState (s := s)
  obtain ⟨signals, heq, -⟩ := applyDisconnectedState_eq .tcpSocket s true
  have hstate : (StreamSocket.applyDisconnectedState .tcpSocket s true).state = .disconnected := by
    rw [heq]
  have hpast : (StreamSocket.applyDisconnectedState .tcpSocket s true).past = s.past := by
    rw [heq]
  have hestablished :
      (StreamSocket.applyDisconnectedState .tcpSocket s true).connection.established =
        s.connection.established := by
    rw [heq]
  refine ⟨fun hn => SocketState.noConfusion (hstate.symm.trans hn),
    fun hn => SocketState.noConfusion (hstate.symm.trans hn), fun _ hup => ?_,
    fun hn => SocketState.noConfusion (hstate.symm.trans hn), fun r hr => h.past r (hpast ▸ hr)⟩
  rw [hestablished] at hup
  rw [hcount, wasConnected]
  cases hs : s.state with
  | connected => simp [(h.connected hs).silent]
  | connecting => exact absurd ((h.connecting hs).1.symm.trans hup) (by simp)
  | disconnected => simp [h.disconnected hs hup]
  | error => simp [h.error hs hup]

/-- A socket that is not connected has told about its connection, if it had one. -/
theorem Accounted.announced (h : s.Accounted) (hstate : s.state ≠ .connected)
    (hs : s.connection.established = true) : s.connection.disconnects = 1 := by
  cases heq : s.state with
  | connected => exact absurd heq hstate
  | connecting => exact absurd ((h.connecting heq).1.symm.trans hs) (by simp)
  | disconnected => exact h.disconnected heq hs
  | error => exact h.error heq hs

/-- A socket that is not connected fails. -/
theorem Accounted.failWithErrno (h : s.Accounted) (hstate : s.state ≠ .connected) (text : String)
    (errno : Errno) : (failWithErrno .tcpSocket s text errno).Accounted where
  connected hn := SocketState.noConfusion hn
  connecting hn := SocketState.noConfusion hn
  disconnected hn := SocketState.noConfusion hn
  error _ hs := (disconnects_note SocketSignal.noConfusion).trans (h.announced hstate hs)
  past := h.past

/-- The invariant looks at a few fields only. -/
theorem Accounted.congr (h : s.Accounted) (hstate : s'.state = s.state)
    (hestablished : s'.connection.established = s.connection.established)
    (hcount : s'.connection.disconnects = s.connection.disconnects)
    (hfd : s'.descriptor = s.descriptor) (hpast : s'.past = s.past) : s'.Accounted where
  connected hn := by
    have hup := h.connected (hstate.symm.trans hn)
    exact ⟨hn, hestablished.trans hup.established, hcount.trans hup.silent, hfd ▸ hup.descriptor,
      fun r hr => h.past r (hpast ▸ hr)⟩
  connecting hn := by
    obtain ⟨hs, hsilent⟩ := h.connecting (hstate.symm.trans hn)
    exact ⟨hestablished.trans hs, hcount.trans hsilent⟩
  disconnected hn hs := hcount.trans (h.disconnected (hstate.symm.trans hn)
    (hestablished.symm.trans hs))
  error hn hs := hcount.trans (h.error (hstate.symm.trans hn) (hestablished.symm.trans hs))
  past r hr := h.past r (hpast ▸ hr)

/-- A connection that is up is given up with an error, and nobody is told. -/
theorem Up.down (h : s.Up) {text : String} {errno : Errno} :
    (StreamSocket.applyDisconnectedState .tcpSocket
      (failWithErrno .tcpSocket s text errno) true).Down := by
  have hcount := disconnects_applyDisconnectedState (s := failWithErrno .tcpSocket s text errno)
  have herror : (failWithErrno .tcpSocket s text errno).connection.disconnects = 0 :=
    (disconnects_note SocketSignal.noConfusion).trans h.silent
  refine ⟨h.established, ?_, Or.inr rfl⟩
  rw [hcount, herror]
  rfl

/-! ### A connection that is up -/

/-- A pass keeps the invariant unless it breaks the connection. -/
def Outcome (broken : Prop) (s : StreamSocket) : Prop :=
  (¬ broken → s.Accounted) ∧ (broken → s.Lost)

/-- An event that breaks nothing. -/
theorem Outcome.of_unbroken {broken : Prop} (hbroken : ¬ broken) (h : s.Accounted) :
    Outcome broken s := ⟨fun _ => h, fun hb => absurd hb hbroken⟩

/-- An event that breaks the account. -/
theorem Outcome.of_broken {broken : Prop} (hbroken : broken) (h : s.Lost) : Outcome broken s :=
  ⟨fun hb => absurd hbroken hb, fun _ => h⟩

/-- Two passes one after the other. -/
theorem Outcome.trans {broken broken' : Prop} (h : Outcome broken s)
    (haccounted : s.Accounted → Outcome broken' s') (hlost : s.Lost → s'.Lost) :
    Outcome (broken ∨ broken') s' := by
  by_cases hb : broken
  · exact .of_broken (Or.inl hb) (hlost (h.2 hb))
  · have hnext := haccounted (h.1 hb)
    by_cases hb' : broken'
    · exact .of_broken (Or.inr hb') (hnext.2 hb')
    · exact .of_unbroken (not_or.mpr ⟨hb, hb'⟩) (hnext.1 hb')

/-- A script of `send` results in which none fails for good. -/
theorem not_exists_fatal {α : Type} {p : α → Prop} {l : List α} (h : ∀ a ∈ l, ¬ p a) :
    ¬ ∃ a ∈ l, p a := by
  rintro ⟨a, ha, hp⟩
  exact h a ha hp

/-- A flush fails on a fatal error only. -/
theorem Up.handleWritable (h : s.Up) {sends : List SendResult}
    (hs : handleWritable .tcpSocket s sends = some s') :
    Outcome (∃ r ∈ sends, SendFatal r) s' := by
  refine handleWritable_rule (I := Up) ?_ ?_ ?_ ?_ h hs
  · exact fun v hv => ⟨hv.state, hv.established, hv.silent, hv.descriptor, hv.past⟩
  · intro v front rest n hv _ _ _
    exact ⟨hv.state, hv.established, (disconnects_note SocketSignal.noConfusion).trans hv.silent,
      hv.descriptor, hv.past⟩
  · intro hsends v hv
    have hnext : (updateInterestForState .tcpSocket v).Up :=
      ⟨hv.state, hv.established, hv.silent, hv.descriptor, hv.past⟩
    exact .of_unbroken (not_exists_fatal hsends) hnext.accounted
  · intro v r hr hfatal hv
    have hdown : (sendFailed .tcpSocket v r.errno).Down := hv.down
    exact .of_broken ⟨r, hr, hfatal⟩ (Or.inr ⟨hdown.established, hdown.silent, hdown.state⟩)

/-- A pass of reading fails on a fatal error only. -/
theorem Up.handleReadable (h : s.Up) {recvs : List RecvResult}
    (hs : handleReadable .tcpSocket s recvs = some s') :
    Outcome (∃ r ∈ recvs, RecvFatal r) s' := by
  refine handleReadable_rule (I := Up) ?_ ?_ ?_ ?_ h hs
  · exact fun v bytes hv => ⟨hv.state, hv.established, hv.silent, hv.descriptor, hv.past⟩
  · intro hrecvs v hv
    exact .of_unbroken (not_exists_fatal hrecvs) hv.accounted.applyDisconnectedState
  · intro hrecvs v hv
    have hready : (emit .tcpSocket v .readyRead).Up :=
      ⟨hv.state, hv.established, (disconnects_note SocketSignal.noConfusion).trans hv.silent,
        hv.descriptor, hv.past⟩
    exact ⟨.of_unbroken (not_exists_fatal hrecvs) hv.accounted,
      .of_unbroken (not_exists_fatal hrecvs) hready.accounted⟩
  · exact fun v r hr hfatal hv errno => .of_broken ⟨r, hr, hfatal⟩ (Or.inr hv.down)

/-- A connection is established. -/
theorem outcome_applyConnectedState (hsilent : s.connection.disconnects = 0)
    (hfd : 0 ≤ s.descriptor) (hpast : s.PastAccounted) {sends : List SendResult}
    (hs : applyConnectedState .tcpSocket s sends = some s') :
    Outcome (∃ r ∈ sends, SendFatal r) s' := by
  have hup : (emit .tcpSocket (updateInterestForState .tcpSocket
      { s with state := .connected, connection.established := true }).start .connected).Up :=
    ⟨rfl, rfl, (disconnects_note SocketSignal.noConfusion).trans hsilent, hfd, hpast⟩
  exact hup.handleWritable hs

/-! ### The connections of the past -/

/-- The end of a connection leaves the past. -/
theorem past_applyDisconnectedState :
    (applyDisconnectedState .tcpSocket s true).past = s.past := by
  obtain ⟨signals, heq, -⟩ := applyDisconnectedState_eq .tcpSocket s true
  rw [heq]

/-- A flush leaves the past. -/
theorem past_handleWritable {sends : List SendResult}
    (hs : handleWritable .tcpSocket s sends = some s') : s'.past = s.past :=
  handleWritable_rule (c := .tcpSocket) (I := fun v => v.past = s.past)
    (J := fun v => v.past = s.past)
    (fun _ hv => hv) (fun _ _ _ _ hv _ _ _ => hv) (fun _ _ hv => hv)
    (fun _ _ _ _ hv => past_applyDisconnectedState.trans hv) rfl hs

/-- A pass of reading leaves the past. -/
theorem past_handleReadable {recvs : List RecvResult}
    (hs : handleReadable .tcpSocket s recvs = some s') : s'.past = s.past :=
  handleReadable_rule (I := fun v => v.past = s.past) (J := fun v => v.past = s.past)
    (fun _ _ hv => hv) (fun _ _ hv => past_applyDisconnectedState.trans hv)
    (fun _ _ hv => ⟨hv, hv⟩) (fun _ _ _ _ hv _ => past_applyDisconnectedState.trans hv) rfl hs

/-- A new connection leaves the past. -/
theorem past_applyConnectedState {sends : List SendResult}
    (hs : applyConnectedState .tcpSocket s sends = some s') : s'.past = s.past :=
  (past_handleWritable hs).trans rfl

/-- The events of the kernel leave the past. -/
theorem past_handleEvents {nativeEvents : EventMask} {answers : EventAnswers}
    (hs : handleEvents .tcpSocket s nativeEvents answers = some s') : s'.past = s.past := by
  have hcomplete {p : StreamSocket × Bool}
      (hp : completeConnect .tcpSocket s nativeEvents answers = some p) : p.1.past = s.past := by
    rcases completeConnect_cases hp with ⟨-, -, text, errno, rfl⟩ | ⟨-, -, hp, -⟩ | ⟨-, rfl⟩
    · exact past_applyDisconnectedState
    · exact past_applyConnectedState hp
    · rfl
  rcases handleEvents_cases hs with ⟨-, hs, -, -⟩ | ⟨hp, -, -⟩ | ⟨v, w, -, hp, hinput, houtput⟩
  · rcases handleHangUp_cases hs with ⟨-, -, hs⟩ | ⟨-, rfl⟩
    · exact past_applyConnectedState hs
    · exact past_applyDisconnectedState
  · exact hcomplete hp
  · have hw : w.past = s.past := by
      rcases handleInput_cases hinput with ⟨-, hinput⟩ | ⟨-, rfl⟩
      · exact (past_handleReadable hinput).trans (hcomplete hp)
      · exact hcomplete hp
    rcases handleOutput_cases houtput with ⟨-, houtput⟩ | ⟨-, rfl⟩
    · exact (past_handleWritable houtput).trans hw
    · exact hw

/-- The attempts to connect leave the past. -/
theorem past_connectLoop {sends : List SendResult} {attempts : List ConnectAttempt} {errno : Errno}
    (hs : TcpSocket.connectLoop sends attempts errno s = some s') : s'.past = s.past := by
  rcases TcpSocket.connectLoop_cases hs with ⟨fd, hs⟩ | ⟨-, fd, rfl⟩ | ⟨-, fd, errno, rfl⟩
  · exact past_applyConnectedState (s := s.setDescriptor fd) hs
  · rfl
  · exact past_applyDisconnectedState

/-- `connectToHost` makes a connection one of the past. -/
theorem past_connectToHost {host : String} {resolution : Except String (List ConnectAttempt)}
    {sends : List SendResult}
    (hs : TcpSocket.connectToHost s host resolution sends = some s') :
    s'.past = (close .tcpSocket s).connection :: s.past := by
  have hbegin : (TcpSocket.beginConnection (close .tcpSocket s)).past =
      (close .tcpSocket s).connection :: s.past := congrArg _ past_applyDisconnectedState
  cases resolution with
  | error resolveError =>
      obtain ⟨-, rfl⟩ := finish_eq_some.mp hs
      exact hbegin
  | ok attempts => exact (past_connectLoop hs).trans hbegin

/-- No call forgets a connection. -/
theorem mem_past_step (hst : TcpSocket.Step s l s') {r : ConnectionRecord} (hr : r ∈ s.past) :
    r ∈ s'.past := by
  rw [TcpSocket.Step] at hst
  cases l with
  | connectToHost host resolution sends =>
      rw [past_connectToHost hst]
      exact List.mem_cons_of_mem _ hr
  | close =>
      obtain rfl := Option.some.inj hst
      rwa [close, past_applyDisconnectedState]
  | write data sends =>
      obtain ⟨p, hp, rfl⟩ := Option.map_eq_some_iff.mp hst
      rcases write_cases hp with ⟨-, rfl⟩ | ⟨-, -, hs, -⟩
      · exact hr
      · rwa [past_handleWritable (s := s.accept data) hs]
  | readAll =>
      obtain rfl := Option.some.inj hst
      exact hr
  | setBlocking blocking error =>
      obtain rfl := Option.some.inj hst
      rw [setBlocking_eq]
      split
      · exact hr
      · exact hr
  | handleEvents nativeEvents answers => rwa [past_handleEvents hst]

/-! ### The calls -/

/-- A socket that is down changes nothing any more in the record of its connection. -/
theorem connection_applyDisconnectedState (h : s.wasConnected = false) :
    (applyDisconnectedState .tcpSocket s true).connection = s.connection := by
  obtain ⟨signals, heq, rfl⟩ := applyDisconnectedState_eq .tcpSocket s true
  rw [heq, h]
  simp

/-- The end of a connection brings a socket down. -/
theorem Down.applyDisconnectedState (h : s.Down) :
    (applyDisconnectedState .tcpSocket s true).Down := by
  have hconnection := connection_applyDisconnectedState h.wasConnected
  obtain ⟨signals, heq, -⟩ := applyDisconnectedState_eq .tcpSocket s true
  refine ⟨?_, ?_, Or.inr ?_⟩
  · rw [hconnection]
    exact h.established
  · rw [hconnection]
    exact h.silent
  · rw [heq]

/-- A socket that is down stays down when events come. -/
theorem Down.handleEvents (h : s.Down) {nativeEvents : EventMask} {answers : EventAnswers}
    (hs : handleEvents .tcpSocket s nativeEvents answers = some s') : s'.Down := by
  have hcomplete {p : StreamSocket × Bool}
      (hp : completeConnect .tcpSocket s nativeEvents answers = some p) : p = (s, true) := by
    rcases completeConnect_cases hp with ⟨hstate, -⟩ | ⟨hstate, -⟩ | ⟨-, hp⟩
    · exact absurd hstate h.not_connecting
    · exact absurd hstate h.not_connecting
    · exact hp
  rcases handleEvents_cases hs with ⟨-, hs, -, -⟩ | ⟨hp, -, -⟩ | ⟨v, w, -, hp, hinput, houtput⟩
  · rcases handleHangUp_cases hs with ⟨hstate, -⟩ | ⟨-, rfl⟩
    · exact absurd hstate h.not_connecting
    · exact h.applyDisconnectedState
  · cases hcomplete hp
  · obtain rfl : v = s := congrArg Prod.fst (hcomplete hp)
    rcases handleInput_cases hinput with ⟨hstate, -⟩ | ⟨-, rfl⟩
    · exact absurd hstate h.not_connected
    · rcases handleOutput_cases houtput with ⟨hstate, -⟩ | ⟨-, rfl⟩
      · exact absurd hstate h.not_connected
      · exact h

/-- A connection that has come down unannounced stays so. -/
theorem Lost.step (h : s.Lost) (hst : TcpSocket.Step s l s') : s'.Lost := by
  rcases h with ⟨r, hr, hlost⟩ | h
  · exact Or.inl ⟨r, mem_past_step hst hr, hlost⟩
  · rw [TcpSocket.Step] at hst
    cases l with
    | connectToHost host resolution sends =>
        refine Or.inl ⟨s.connection, ?_, h.established, h.silent⟩
        rw [past_connectToHost hst, close, connection_applyDisconnectedState h.wasConnected]
        exact List.mem_cons_self
    | close =>
        obtain rfl := Option.some.inj hst
        exact Or.inr h.applyDisconnectedState
    | write data sends =>
        obtain ⟨p, hp, rfl⟩ := Option.map_eq_some_iff.mp hst
        rcases write_cases hp with ⟨-, rfl⟩ | ⟨-, hopen, -⟩
        · exact Or.inr h
        · exact absurd hopen (not_or.mpr ⟨h.not_connected, h.not_connecting⟩)
    | readAll =>
        obtain rfl := Option.some.inj hst
        exact Or.inr ⟨h.established, h.silent, h.state⟩
    | setBlocking blocking error =>
        obtain rfl := Option.some.inj hst
        rw [setBlocking_eq]
        split
        · exact Or.inr ⟨h.established, (disconnects_note SocketSignal.noConfusion).trans h.silent,
            Or.inl rfl⟩
        · exact Or.inr ⟨h.established, h.silent, h.state⟩
    | handleEvents nativeEvents answers => exact Or.inr (h.handleEvents hst)

/-- A lost connection stays lost when the input is handled. -/
theorem Lost.handleInput (h : s.Lost) {nativeEvents : EventMask} {recvs : List RecvResult}
    (hs : handleInput .tcpSocket s nativeEvents recvs = some s') : s'.Lost := by
  rcases handleInput_cases hs with ⟨hstate, hs⟩ | ⟨-, rfl⟩
  · rcases h with ⟨r, hr, hlost⟩ | h
    · exact Or.inl ⟨r, past_handleReadable hs ▸ hr, hlost⟩
    · exact absurd hstate h.not_connected
  · exact h

/-- A lost connection stays lost when the output is handled. -/
theorem Lost.handleOutput (h : s.Lost) {nativeEvents : EventMask} {sends : List SendResult}
    (hs : handleOutput .tcpSocket s nativeEvents sends = some s') : s'.Lost := by
  rcases handleOutput_cases hs with ⟨hstate, hs⟩ | ⟨-, rfl⟩
  · rcases h with ⟨r, hr, hlost⟩ | h
    · exact Or.inl ⟨r, past_handleWritable hs ▸ hr, hlost⟩
    · exact absurd hstate h.not_connected
  · exact h

/-- The end of an attempt to connect. -/
theorem Accounted.completeConnect (h : s.Accounted) {nativeEvents : EventMask}
    {answers : EventAnswers} {p : StreamSocket × Bool}
    (hs : completeConnect .tcpSocket s nativeEvents answers = some p) :
    Outcome (∃ r ∈ answers.connectSends, SendFatal r) p.1 := by
  rcases completeConnect_cases hs with ⟨hstate, hsends, text, errno, rfl⟩ |
    ⟨hstate, hfd, hs, -⟩ | ⟨hsends, rfl⟩
  · have hfailed := h.failWithErrno (by simp [hstate]) text errno
    exact .of_unbroken (by simp [hsends]) hfailed.applyDisconnectedState
  · exact outcome_applyConnectedState (h.connecting hstate).2 hfd h.past hs
  · exact .of_unbroken (by simp [hsends]) h

/-- **The events of the kernel.** -/
theorem Accounted.handleEvents (h : s.Accounted) {nativeEvents : EventMask}
    {answers : EventAnswers} (hs : handleEvents .tcpSocket s nativeEvents answers = some s') :
    Outcome (s.Breaks (.handleEvents nativeEvents answers)) s' := by
  have hquiet (hrecvs : answers.recvs = []) (hsends : answers.sends = []) :
      s.Breaks (.handleEvents nativeEvents answers) =
        ∃ r ∈ answers.connectSends, SendFatal r := by
    simp [Breaks, hrecvs, hsends]
  rcases handleEvents_cases hs with ⟨-, hs, hrecvs, hsends⟩ | ⟨hp, hrecvs, hsends⟩ |
    ⟨v, w, -, hp, hinput, houtput⟩
  · rw [hquiet hrecvs hsends]
    rcases handleHangUp_cases hs with ⟨hstate, hfd, hs⟩ | ⟨hnone, rfl⟩
    · exact outcome_applyConnectedState (h.connecting hstate).2 hfd h.past hs
    · exact .of_unbroken (by simp [hnone]) h.applyDisconnectedState
  · rw [hquiet hrecvs hsends]
    exact h.completeConnect hp
  · refine (h.completeConnect hp).trans (fun hv => ?_) fun hv =>
      (hv.handleInput hinput).handleOutput houtput
    have hw : Outcome (∃ r ∈ answers.recvs, RecvFatal r) w := by
      rcases handleInput_cases hinput with ⟨hstate, hinput⟩ | ⟨hnone, rfl⟩
      · exact (hv.connected hstate).handleReadable hinput
      · exact .of_unbroken (by simp [hnone]) hv
    refine hw.trans (fun hw => ?_) fun hw => hw.handleOutput houtput
    rcases handleOutput_cases houtput with ⟨hstate, houtput⟩ | ⟨hnone, rfl⟩
    · exact (hw.connected hstate).handleWritable houtput
    · exact .of_unbroken (by simp [hnone]) hw

/-- A write into a connection that is not established yet. -/
theorem Accounted.handleWritable (h : s.Accounted) (hstate : s.state = .connecting)
    {sends : List SendResult} (hs : handleWritable .tcpSocket s sends = some s') :
    s'.Accounted := by
  refine handleWritable_rule (I := fun v => v.Accounted ∧ v.state = .connecting) ?_ ?_ ?_ ?_
    ⟨h, hstate⟩ hs
  · exact fun v hv => ⟨hv.1.congr rfl rfl rfl rfl rfl, hv.2⟩
  · exact fun v front rest n hv _ _ _ =>
      ⟨hv.1.congr rfl rfl (disconnects_note SocketSignal.noConfusion) rfl rfl, hv.2⟩
  · exact fun _ v hv => hv.1.congr rfl rfl rfl rfl rfl
  · intro v r _ _ hv
    have hfailed : (sendFailed .tcpSocket v r.errno).Accounted :=
      (hv.1.failWithErrno (by simp [hv.2]) _ _).applyDisconnectedState
    exact hfailed.congr rfl rfl rfl rfl rfl

/-- `write`. -/
theorem Accounted.write (h : s.Accounted) {data : ByteArray} {sends : List SendResult}
    {p : StreamSocket × ℕ} (hs : write .tcpSocket s data sends = some p) :
    Outcome (s.Breaks (.write data sends)) p.1 := by
  have hquiet (hstate : s.state ≠ .connected) : ¬ s.Breaks (.write data sends) := fun hb =>
    hstate hb.1
  rcases write_cases hs with ⟨hsends, rfl⟩ | ⟨-, hopen, hs, -⟩
  · exact .of_unbroken (by simp [Breaks, hsends]) h
  · have haccept : (s.accept data).Accounted := h.congr rfl rfl rfl rfl rfl
    rcases hopen with hstate | hstate
    · have hbreaks : s.Breaks (.write data sends) = ∃ r ∈ sends, SendFatal r := by
        simp [Breaks, hstate]
      rw [hbreaks]
      exact (haccept.connected hstate).handleWritable hs
    · exact .of_unbroken (hquiet (by simp [hstate])) (haccept.handleWritable hstate hs)

/-- `setBlocking`. -/
theorem Accounted.setBlocking (h : s.Accounted) {blocking : Bool} {error : Option Errno} :
    Outcome (s.Breaks (.setBlocking blocking error)) (setBlocking .tcpSocket s blocking error) := by
  have hnext : StreamSocket.Accounted { s with blocking := blocking } :=
    h.congr rfl rfl rfl rfl rfl
  rw [setBlocking_eq]
  split
  · rename_i herror
    by_cases hstate : s.state = .connected
    · have hup := h.connected hstate
      refine .of_broken ⟨hstate, herror.1⟩ (Or.inr ⟨hup.established, ?_, Or.inl rfl⟩)
      exact (disconnects_note SocketSignal.noConfusion).trans hup.silent
    · exact .of_unbroken (fun hb => hstate hb.1) (hnext.failWithErrno hstate _ _)
  · rename_i herror
    refine .of_unbroken (fun hb => herror ⟨hb.2, ?_⟩) hnext
    exact (h.connected hb.1).descriptor

/-- `connectToHost`. -/
theorem Accounted.connectToHost (h : s.Accounted) {host : String}
    {resolution : Except String (List ConnectAttempt)} {sends : List SendResult}
    (hs : TcpSocket.connectToHost s host resolution sends = some s') :
    Outcome (s.Breaks (.connectToHost host resolution sends)) s' := by
  -- the connection that ends here becomes one of the past
  have hpast : (TcpSocket.beginConnection (close .tcpSocket s)).PastAccounted := by
    have hclosed := h.applyDisconnectedState
    intro r hr
    rcases List.mem_cons.mp hr with rfl | hr
    · exact hclosed.announced (by simp [state_applyDisconnectedState])
    · exact hclosed.past r hr
  have hblank (fd : FileDescriptor) :
      ((TcpSocket.beginConnection (close .tcpSocket s)).setDescriptor fd).Accounted := by
    have hstate : (close .tcpSocket s).state = .disconnected := state_applyDisconnectedState ..
    refine ⟨fun hn => ?_, fun hn => ?_, fun _ hn => ?_, fun _ hn => ?_, hpast⟩
    · exact SocketState.noConfusion (hstate.symm.trans hn)
    · exact SocketState.noConfusion (hstate.symm.trans hn)
    · exact Bool.noConfusion hn
    · exact Bool.noConfusion hn
  cases resolution with
  | error resolveError =>
      obtain ⟨rfl, rfl⟩ := finish_eq_some.mp hs
      refine .of_unbroken (by simp [Breaks]) ?_
      exact ⟨SocketState.noConfusion, SocketState.noConfusion, SocketState.noConfusion,
        fun _ hn => Bool.noConfusion hn, hpast⟩
  | ok attempts =>
      rcases TcpSocket.connectLoop_cases hs with ⟨fd, hs⟩ | ⟨rfl, fd, rfl⟩ | ⟨rfl, fd, errno, rfl⟩
      · exact outcome_applyConnectedState
          (s := (TcpSocket.beginConnection (close .tcpSocket s)).setDescriptor fd) rfl
          (Int.natCast_nonneg fd) hpast hs
      · refine .of_unbroken (by simp [Breaks]) ?_
        exact ⟨SocketState.noConfusion, fun _ => ⟨rfl, rfl⟩, SocketState.noConfusion,
          SocketState.noConfusion, hpast⟩
      · refine .of_unbroken (by simp [Breaks]) ?_
        have hstate : (close .tcpSocket s).state = .disconnected := state_applyDisconnectedState ..
        have hfailed := (hblank fd).failWithErrno (by simp [TcpSocket.beginConnection,
          StreamSocket.setDescriptor, hstate]) "connect() failed" errno
        exact hfailed.applyDisconnectedState

/-- The step lemma. -/
theorem Accounted.step (h : s.Accounted) (hst : TcpSocket.Step s l s') :
    Outcome (s.Breaks l) s' := by
  rw [TcpSocket.Step] at hst
  cases l with
  | connectToHost host resolution sends => exact h.connectToHost hst
  | close =>
      obtain rfl := Option.some.inj hst
      exact .of_unbroken id h.applyDisconnectedState
  | write data sends =>
      obtain ⟨p, hp, rfl⟩ := Option.map_eq_some_iff.mp hst
      exact h.write hp
  | readAll =>
      obtain rfl := Option.some.inj hst
      exact .of_unbroken id (h.congr rfl rfl rfl rfl rfl)
  | setBlocking blocking error =>
      obtain rfl := Option.some.inj hst
      exact h.setBlocking
  | handleEvents nativeEvents answers => exact h.handleEvents hst

/-- A new socket. -/
theorem Accounted.constructed (h : TcpSocket.Constructed s) : s.Accounted := by
  have hcreate (blocking : Bool) : (TcpSocket.create blocking).Accounted :=
    ⟨SocketState.noConfusion, SocketState.noConfusion, fun _ hn => Bool.noConfusion hn,
      SocketState.noConfusion, fun r hr => absurd hr List.not_mem_nil⟩
  cases h with
  | create blocking => exact hcreate blocking
  | adopt fd blocking error =>
      cases error with
      | none =>
          rw [TcpSocket.adopt]
          split
          · exact (hcreate blocking).failWithErrno SocketState.noConfusion _ _
          · rename_i hfd
            have hup : (updateInterestForState .tcpSocket
                { (TcpSocket.create blocking).setDescriptor fd with
                  state := .connected, connection.established := true }).start.Up :=
              ⟨rfl, rfl, rfl, Int.not_lt.mp hfd, fun r hr => absurd hr List.not_mem_nil⟩
            exact hup.accounted
      | some errno =>
          rw [TcpSocket.adopt]
          split
          · exact (hcreate blocking).failWithErrno SocketState.noConfusion _ _
          · exact (hcreate blocking).failWithErrno SocketState.noConfusion _ _

/-! ### Runs -/

/-- The condition on a call: no connection breaks. -/
def Unbroken (s : StreamSocket) (l : SocketCall) : Prop := ¬ s.Breaks l

/-- A run keeps the invariant as long as it meets the condition, and has lost a connection for good
when it does not. -/
theorem run_accounted_or_lost {ls : List SocketCall} (h : s.Accounted)
    (hrun : Reaches TcpSocket.Step s ls s') :
    (Run TcpSocket.Step Unbroken s ls s' ∧ s'.Accounted) ∨ s'.Lost := by
  rcases hrun.guarded_or_breaks with hok | ⟨u, k, v, ks, ks', hok, hbreaks, hst, hrest⟩
  · refine Or.inl ⟨hok, hok.invariant (I := Accounted) ?_ h⟩
    exact fun u k v hu hk hst => (hu.step hst).1 hk
  · have hu : u.Accounted := by
      refine hok.invariant (I := Accounted) ?_ h
      exact fun u k v hu hk hst => (hu.step hst).1 hk
    refine Or.inr (hrest.invariant (I := Lost) ?_ ((hu.step hst).2 (not_not.mp hbreaks)))
    exact fun u k v hu _ hst => hu.step hst

end StreamSocket

namespace TcpSocket

open StreamSocket

/-- **When a connection ends with exactly one `disconnected`.** In a run in which no system call on
a connected socket fails for good, every established connection whose descriptor is closed has been
announced once. In a run that ends with a closed descriptor, it is so in no other case. -/
theorem disconnected_once {s₀ s : StreamSocket} {ls : List SocketCall} (h₀ : Constructed s₀)
    (hrun : Reaches Step s₀ ls s) :
    (Run Step Unbroken s₀ ls s → s.DisconnectedOnce) ∧
      (s.descriptor < 0 → (s.DisconnectedOnce ↔ Run Step Unbroken s₀ ls s)) := by
  have hok (hrun : Run Step Unbroken s₀ ls s) : s.DisconnectedOnce := by
    have h : s.Accounted := by
      refine hrun.invariant (I := Accounted) ?_ (.constructed h₀)
      exact fun u k v hu hk hst => (hu.step hst).1 hk
    exact h.disconnectedOnce
  refine ⟨hok, fun hfd => ⟨fun honce => ?_, hok⟩⟩
  rcases run_accounted_or_lost (.constructed h₀) hrun with h | h
  · exact h.1
  · exact absurd honce (h.not_disconnectedOnce hfd)

/-- The peer closes the connection, and that is announced. -/
theorem peer_close_announced : ∃ ls s, Reaches Step (adopt 5 false none) ls s ∧
    s.connection.signals = [.disconnected] ∧
    (s.DisconnectedOnce ↔ Run Step Unbroken (adopt 5 false none) ls s) := by
  have hrun : Reaches Step (adopt 5 false none)
      [.handleEvents epollIn { recvs := [.received []] }] _ := .cons trivial rfl <| .nil _
  exact ⟨_, _, hrun, rfl, (disconnected_once (.adopt 5 false none) hrun).2 (by decide)⟩

/-- **A `send` fails**, as the peer has reset the connection: the socket gives it up, reports the
error, and does not tell that it is disconnected. -/
theorem failed_send_silent : ∃ ls s, Reaches Step (adopt 5 false none) ls s ∧
    s.state = .disconnected ∧ s.descriptor = -1 ∧
    s.connection.signals = [.errorOccurred (.system "send() failed" 32)] ∧
    ¬ s.DisconnectedOnce := by
  have hrun : Reaches Step (adopt 5 false none)
      [.write (.ofBytes [1]) [{ written := -1, errno := 32 }]] _ := .cons trivial rfl <| .nil _
  refine ⟨_, _, hrun, rfl, rfl, rfl, fun honce => ?_⟩
  exact absurd (honce.1 rfl (by decide)) (by decide)

end TcpSocket

end SimplyNode
