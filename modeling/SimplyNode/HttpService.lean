import SimplyNode.HttpExchange
import SimplyNode.TcpServer
import Mathlib.Data.List.Count

/-!
# The Clients of an HTTP Server

An `HttpServer` owns a `TcpServer`. The slot of `newConnection` takes the connections out of its
queue and connects the slots of their sockets. All signals, those of the server and those of the
sockets, are tasks in the one queue of the owner, and run in the order in which they were posted.

Each client that is accepted sends one request and waits. The kernel may accept connections,
hand over bytes and take bytes at any time, and the server may be closed and listen again.

## Main results

* `HttpService.Step`: the events of the descriptors, and the tasks of the owner.
* `Inv.step`: a socket has its slots before the first of its signals is emitted.
* `every_client_answered`: **every client is answered**, unless its connection was refused or the
  server was closed before it was taken.
-/

open Transition

namespace SimplyNode

open StreamSocket HttpExchange

/-- A task of the owner: it emits a signal of the server, or the next one of a socket. -/
inductive ServiceTask
  | server (signal : TcpServerSignal)
  | socket (number : ℕ)
  deriving DecidableEq

/-- An `HttpServer` with its `TcpServer`, its connections by their numbers and the tasks of the
owner. -/
structure HttpService where
  tcpServer : TcpServer := {}
  /-- How many slots `newConnection` has: `HttpServer::listen` connects one. -/
  slots : ℕ := 0
  clients : ℕ → HttpExchange
  tasks : List ServiceTask := []

/-- What happens: calls of the server, events of the descriptors, and the next task with the routes
and files of that time. -/
inductive ServiceEvent
  | listen (host : String) (resolution : Except String (List ListenAttempt))
      (name : Except Errno ℕ)
  | close
  | serverEvents (nativeEvents : EventMask) (answers : List AcceptAnswer)
  | socketEvents (number : ℕ) (nativeEvents : EventMask) (answers : EventAnswers)
  | runTask (server : HttpServer) (fs : FileSystem) (sends : List SendResult)

namespace HttpService

variable (requests : ℕ → SizedRequest) (s : HttpService)

/-- The socket of a connection that has been accepted, and what its client sends. -/
def newcomer (r : SizedRequest) (fd : ℕ) : HttpExchange where
  connection := { socket := TcpSocket.adopt fd false none, state := none }
  unread := r.text

/-- A call of the `TcpServer` is over. There are sockets for what it has accepted, and tasks for
what it has posted. -/
def afterCall (tcpServer : TcpServer) : HttpService :=
  { s with
    tcpServer := tcpServer
    clients := fun number =>
      if s.tcpServer.accepted.length ≤ number then
        newcomer (requests number) (tcpServer.accepted.getD number 0)
      else s.clients number
    tasks :=
      s.tasks ++ (tcpServer.signals.drop s.tcpServer.signals.length).map ServiceTask.server }

/-- A connection has changed. There are tasks for the signals that its socket has posted. -/
def setClient (number : ℕ) (x : HttpExchange) : HttpService :=
  let posted := x.connection.socket.connection.signals.length -
    (s.clients number).connection.socket.connection.signals.length
  { s with
    clients := Function.update s.clients number x
    tasks := s.tasks ++ List.replicate posted (.socket number) }

/-- `HttpServer::_onNewConnection`: the loop body. -/
def takeNext : HttpService :=
  match s.tcpServer.nextPendingConnection with
  | (_, none) => s
  | (tcpServer, some number) =>
      let x := s.clients number
      { s with
        tcpServer := tcpServer
        clients := Function.update s.clients number { x with connection.state := some {} } }

/-- `HttpServer::_onNewConnection`. -/
def onNewConnection : HttpService :=
  s.tcpServer.pendingConnections.foldl (fun s _ => s.takeNext) s

/-- The next task of the owner. A socket that has been deleted emits nothing, and one that waits in
the queue has no slots. -/
def runTask (server : HttpServer) (fs : FileSystem) (sends : List SendResult) :
    Option HttpService :=
  match s.tasks with
  | [] => none
  | .server .newConnection :: tasks =>
      finish sends (onNewConnection^[s.slots] { s with tasks := tasks })
  | .server (.errorOccurred _) :: tasks => finish sends { s with tasks := tasks }
  | .socket number :: tasks =>
      let x := s.clients number
      let next := { s with tasks := tasks }
      if number ∈ s.tcpServer.handed then
        (x.connection.call (.emitPosted server fs sends)).map fun c =>
          next.setClient number { x with connection := c }
      else if number ∈ s.tcpServer.pendingConnections then
        finish sends (next.setClient number { x with connection := x.connection.emitNext })
      else finish sends next

/-- **One step.** A socket that lives has an event, the server is called, or a task runs. -/
inductive Step : HttpService → ServiceEvent → HttpService → Prop
  | listen {s : HttpService} {host : String} {resolution : Except String (List ListenAttempt)}
      {name : Except Errno ℕ} {p : TcpServer × Bool} :
      s.tcpServer.listen host resolution name = some p →
      Step s (.listen host resolution name)
        (afterCall requests { s with slots := s.slots + 1 } p.1)
  | close {s : HttpService} : Step s .close (s.afterCall requests s.tcpServer.close)
  | serverEvents {s : HttpService} {nativeEvents : EventMask} {answers : List AcceptAnswer}
      {tcpServer : TcpServer} :
      s.tcpServer.handleEvents nativeEvents answers = some tcpServer →
      Step s (.serverEvents nativeEvents answers) (s.afterCall requests tcpServer)
  | socketEvents {s : HttpService} {number : ℕ} {nativeEvents : EventMask}
      {answers : EventAnswers} {x : HttpExchange} :
      number ∈ s.tcpServer.handed ++ s.tcpServer.pendingConnections →
      HttpExchange.Step (s.clients number) (.handleEvents nativeEvents answers) x →
      Step s (.socketEvents number nativeEvents answers) (s.setClient number x)
  | runTask {s s' : HttpService} {server : HttpServer} {fs : FileSystem}
      {sends : List SendResult} :
      s.runTask server fs sends = some s' → Step s (.runTask server fs sends) s'

/-- No call on a connection fails, no client hangs up, and no thread changes the limit. -/
def Smooth : ServiceEvent → Prop
  | .socketEvents _ nativeEvents answers =>
      HttpExchange.Smooth (.handleEvents nativeEvents answers)
  | .runTask server fs sends => HttpExchange.Smooth (.emitPosted server fs sends)
  | .serverEvents nativeEvents answers =>
      TcpServer.limits (.handleEvents nativeEvents answers) = []
  | _ => True

/-- The routes and files of a run. -/
def siteOf (es : List ServiceEvent) (server : HttpServer) (fs : FileSystem) : Prop :=
  ∃ sends, .runTask server fs sends ∈ es

variable {requests : ℕ → SizedRequest} {s s' : HttpService}
  {site : HttpServer → FileSystem → Prop}

/-! ### What a call of the server does -/

/-- What a call leaves of the connections, and what it announces. -/
structure Accepts (s t : TcpServer) : Prop where
  handed : t.handed = s.handed
  accepted : s.accepted.length ≤ t.accepted.length
  signals : ∃ more, t.signals = s.signals ++ more ∧ ∀ number ∈ t.pendingConnections,
    number ∈ s.pendingConnections ∨ s.accepted.length ≤ number ∧ .newConnection ∈ more

/-- Nothing need have happened. -/
theorem Accepts.refl (t : TcpServer) : Accepts t t :=
  ⟨rfl, Nat.le_refl _, [], (List.append_nil _).symm, fun _ hmem => .inl hmem⟩

/-- A failure accepts nothing. -/
theorem Accepts.fail {t₀ t : TcpServer} (h : Accepts t₀ t) (message : TcpServerError) :
    Accepts t₀ (t.emit (.errorOccurred message)) := by
  obtain ⟨hhanded, haccepted, more, hsignals, hpending⟩ := h
  refine ⟨hhanded, haccepted, more ++ [.errorOccurred message], ?_, fun number hmem => ?_⟩
  · rw [TcpServer.emit, hsignals, List.append_assoc]
  · exact (hpending number hmem).imp_right fun hnew => ⟨hnew.1, List.mem_append_left _ hnew.2⟩

/-- Closing the server accepts nothing. -/
theorem Accepts.close {t₀ t : TcpServer} (h : Accepts t₀ t) : Accepts t₀ t.close := by
  obtain ⟨hhanded, haccepted, more, hsignals, -⟩ := h
  exact ⟨hhanded, haccepted, more, hsignals, fun _ hmem => absurd hmem List.not_mem_nil⟩

/-- One more connection. -/
theorem Accepts.acceptOne {t₀ t : TcpServer} (h : Accepts t₀ t) (fd : ℕ) :
    Accepts t₀ (t.acceptOne fd) := by
  obtain ⟨hhanded, haccepted, more, hsignals, hpending⟩ := h
  have hlength : t₀.accepted.length ≤ (t.accepted ++ [fd]).length := by
    rw [List.length_append]
    omega
  rw [TcpServer.acceptOne]
  dsimp only
  split
  · refine ⟨hhanded, hlength, more ++ [.newConnection], ?_, fun number hmem => ?_⟩
    · rw [TcpServer.emit, hsignals, List.append_assoc]
    · rcases List.mem_append.mp hmem with hmem | hmem
      · exact (hpending number hmem).imp_right fun hnew =>
          ⟨hnew.1, List.mem_append_left _ hnew.2⟩
      · rw [List.mem_singleton.mp hmem]
        exact .inr ⟨haccepted, List.mem_append_right _ List.mem_cons_self⟩
  · exact ⟨hhanded, hlength, more, hsignals, hpending⟩

/-- `listen` accepts nothing. -/
theorem accepts_listen {t : TcpServer} {host : String}
    {resolution : Except String (List ListenAttempt)} {name : Except Errno ℕ}
    {p : TcpServer × Bool} (hs : t.listen host resolution name = some p) : Accepts t p.1 := by
  rcases TcpServer.listen_cases hs with ⟨message, rfl⟩ | ⟨fd, port, rfl⟩
  · exact (Accepts.refl t).close.fail message
  · obtain ⟨hhanded, haccepted, hsignals⟩ := (Accepts.refl t).close
    exact ⟨hhanded, haccepted, hsignals⟩

/-- **A pass over the connections** at the descriptor. -/
theorem accepts_handleEvents {t t' : TcpServer} {nativeEvents : EventMask}
    {answers : List AcceptAnswer} (hs : t.handleEvents nativeEvents answers = some t') :
    Accepts t t' := by
  refine TcpServer.handleEvents_rule ?_ (.refl t) (fun _ => Accepts.close) hs
  intro t' _ ht'
  refine TcpServer.acceptLoop_rule (I := Accepts t) ?_ ?_ ?_ (.refl t) ht'
  · exact fun v fd hv => hv.acceptOne fd
  · exact fun v n _ hv => ⟨hv.handed, hv.accepted, hv.signals⟩
  · exact fun v message hv => hv.fail message

/-- A server that does not listen does not begin to. -/
theorem listening_handleEvents {t t' : TcpServer} {nativeEvents : EventMask}
    {answers : List AcceptAnswer} (hs : t.handleEvents nativeEvents answers = some t')
    (hlistening : t'.listening = true) : t.listening = true := by
  refine TcpServer.handleEvents_rule (I := fun v => v.listening = true → t.listening = true) ?_ id
    (fun v _ hfalse => Bool.noConfusion hfalse) hs hlistening
  intro t' _ ht'
  refine TcpServer.acceptLoop_rule (I := fun v => v.listening = true → t.listening = true) ?_ ?_ ?_
    id ht'
  · intro v fd hv hone
    rw [TcpServer.acceptOne] at hone
    dsimp only at hone
    split at hone
    · exact hv hone
    · exact hv hone
  · exact fun v n _ hv => hv
  · exact fun v message hv => hv

/-! ### The invariant -/

/-- The client of a connection that nobody has taken: when it is taken, the parser starts afresh.
No signal of its socket has been emitted. -/
structure Waiting (r : SizedRequest) (x : HttpExchange) : Prop where
  reading : HttpExchange.Reading r [] {} { x with connection.state := some {} }
  emitted : x.connection.emitted = 0

/-- A task of `newConnection` runs before the first task of the socket. -/
def Announced (tasks : List ServiceTask) (number : ℕ) : Prop :=
  ∃ before after, tasks = before ++ .server .newConnection :: after ∧ .socket number ∉ before

/-- **The invariant.** -/
structure Inv (requests : ℕ → SizedRequest) (site : HttpServer → FileSystem → Prop)
    (s : HttpService) : Prop where
  tcpServer : s.tcpServer.Sound 30
  slots : s.tcpServer.listening = true → 0 < s.slots
  served : ∀ number ∈ s.tcpServer.handed, Phase site (requests number) (s.clients number)
  waiting : ∀ number ∈ s.tcpServer.pendingConnections,
    Waiting (requests number) (s.clients number) ∧ Announced s.tasks number
  posted : ∀ number ∈ s.tcpServer.handed ++ s.tcpServer.pendingConnections,
    s.tasks.count (.socket number) + (s.clients number).connection.emitted =
      (s.clients number).connection.socket.connection.signals.length
  unknown : ∀ number, s.tcpServer.accepted.length ≤ number → .socket number ∉ s.tasks

/-- What is announced stays so when tasks are added. -/
theorem Announced.append {tasks : List ServiceTask} {number : ℕ} (h : Announced tasks number)
    (more : List ServiceTask) : Announced (tasks ++ more) number := by
  obtain ⟨before, after, rfl, hbefore⟩ := h
  exact ⟨before, after ++ more, by rw [List.append_assoc, List.cons_append], hbefore⟩

/-- The task at the front is not the one that is waited for. -/
theorem Announced.tail {task : ServiceTask} {tasks : List ServiceTask} {number : ℕ}
    (h : Announced (task :: tasks) number) (hne : task ≠ .server .newConnection) :
    task ≠ .socket number ∧ Announced tasks number := by
  obtain ⟨before, after, heq, hbefore⟩ := h
  cases before with
  | nil => exact absurd (List.cons.inj heq).1 hne
  | cons first before =>
      obtain ⟨rfl, rfl⟩ := List.cons.inj heq
      rw [List.mem_cons, not_or] at hbefore
      exact ⟨Ne.symm hbefore.1, before, after, rfl, hbefore.2⟩

/-- A server's signal is no task of a socket. -/
theorem socket_notMem_map (number : ℕ) (signals : List TcpServerSignal) :
    .socket number ∉ signals.map ServiceTask.server := by
  simp

/-- A connection that has been taken can be read from the start. -/
theorem opening_newcomer (r : SizedRequest) (fd : ℕ) :
    Opening r { newcomer r fd with connection.state := some {} } :=
  ⟨⟨fd, false, Int.natCast_nonneg fd, rfl⟩, rfl⟩

/-- A new connection has emitted nothing. -/
theorem signals_newcomer (r : SizedRequest) (fd : ℕ) :
    (newcomer r fd).connection.socket.connection.signals = [] := by
  have hfd : ¬(fd : FileDescriptor) < 0 := Int.not_lt.mpr (Int.natCast_nonneg fd)
  change (TcpSocket.adopt fd false none).connection.signals = []
  rw [TcpSocket.adopt, if_neg hfd]
  rfl

/-- What the server calls leaves the earlier connections as they are. -/
theorem clients_afterCall {t : TcpServer} {number : ℕ} (h : number < s.tcpServer.accepted.length) :
    (s.afterCall requests t).clients number = s.clients number :=
  if_neg (Nat.not_le.mpr h)

/-- **A call of the server.** -/
theorem Inv.afterCall (h : Inv requests site s) {t : TcpServer} (ht : Accepts s.tcpServer t)
    (hsound : t.Sound 30) (hslots : t.listening = true → 0 < s.slots) :
    Inv requests site (s.afterCall requests t) := by
  obtain ⟨hhanded, haccepted, more, hsignals, hpending⟩ := ht
  have htasks : (s.afterCall requests t).tasks = s.tasks ++ more.map ServiceTask.server := by
    rw [HttpService.afterCall, hsignals, List.drop_left]
  have hcount (number : ℕ) : (s.afterCall requests t).tasks.count (.socket number) =
      s.tasks.count (.socket number) := by
    rw [htasks, List.count_append, List.count_eq_zero_of_not_mem (socket_notMem_map number more),
      Nat.add_zero]
  have hnew {number : ℕ} (hnumber : s.tcpServer.accepted.length ≤ number) :
      (s.afterCall requests t).clients number =
        newcomer (requests number) (t.accepted.getD number 0) := if_pos hnumber
  have hold {number : ℕ} (hmem : number ∈ s.tcpServer.handed ++ s.tcpServer.pendingConnections) :
      (s.afterCall requests t).clients number = s.clients number :=
    clients_afterCall (h.tcpServer.books.lt_accepted hmem)
  have hhanded' {number : ℕ} (hmem : number ∈ t.handed) :
      number ∈ s.tcpServer.handed ++ s.tcpServer.pendingConnections :=
    List.mem_append_left _ (hhanded ▸ hmem)
  refine ⟨hsound, hslots, fun number hmem => ?_, fun number hmem => ?_, fun number hmem => ?_,
    fun number hnumber => ?_⟩
  · rw [hold (hhanded' hmem)]
    exact h.served number (hhanded ▸ hmem)
  · rcases hpending number hmem with hbefore | ⟨hnumber, hannounced⟩
    · obtain ⟨hwaiting, hannounced⟩ := h.waiting number hbefore
      rw [hold (List.mem_append_right _ hbefore), htasks]
      exact ⟨hwaiting, hannounced.append _⟩
    · obtain ⟨before, after, rfl⟩ := List.append_of_mem hannounced
      rw [hnew hnumber]
      refine ⟨⟨(opening_newcomer _ _).reading, rfl⟩, s.tasks ++ before.map ServiceTask.server,
        after.map ServiceTask.server, ?_, ?_⟩
      · rw [htasks, List.map_append, List.map_cons, List.append_assoc]
      · rw [List.mem_append, not_or]
        exact ⟨h.unknown number hnumber, socket_notMem_map number before⟩
  · rw [hcount]
    have hcases : number ∈ s.tcpServer.handed ++ s.tcpServer.pendingConnections ∨
        s.tcpServer.accepted.length ≤ number := by
      rcases List.mem_append.mp hmem with hmem | hmem
      · exact .inl (hhanded' hmem)
      · exact (hpending number hmem).imp (List.mem_append_right _) And.left
    rcases hcases with hbefore | hnumber
    · rw [hold hbefore]
      exact h.posted number hbefore
    · rw [hnew hnumber, List.count_eq_zero_of_not_mem (h.unknown number hnumber),
        signals_newcomer]
      rfl
  · rw [htasks, List.mem_append, not_or]
    exact ⟨h.unknown number (haccepted.trans hnumber), socket_notMem_map number more⟩

/-! ### A connection changes -/

/-- The connection that has been changed. -/
theorem clients_setClient_self (number : ℕ) (x : HttpExchange) :
    (s.setClient number x).clients number = x := Function.update_self ..

/-- The others stay as they are. -/
theorem clients_setClient_of_ne {number other : ℕ} (hne : other ≠ number) (x : HttpExchange) :
    (s.setClient number x).clients other = s.clients other := Function.update_of_ne hne ..

/-- A socket that lives posts signals, and `gone` of them are emitted. -/
structure Posts (x y : HttpExchange) (gone : ℕ) : Prop where
  signals : x.connection.socket.connection.signals.length ≤
    y.connection.socket.connection.signals.length
  emitted : y.connection.emitted = x.connection.emitted + gone

/-- The tasks of a connection that changes, when those in front have run. -/
theorem posted_setClient {number gone : ℕ} {x : HttpExchange} {tasks : List ServiceTask}
    (hx : Posts (s.clients number) x gone)
    (hposted : tasks.count (.socket number) + gone + (s.clients number).connection.emitted =
      (s.clients number).connection.socket.connection.signals.length) :
    (({ s with tasks := tasks } : HttpService).setClient number x).tasks.count (.socket number) +
        x.connection.emitted = x.connection.socket.connection.signals.length := by
  have hlonger := hx.signals
  rw [setClient, List.count_append, List.count_replicate_self, hx.emitted]
  dsimp only
  omega

/-- A change of one connection posts nothing for another. -/
theorem count_setClient_of_ne {number other : ℕ} (hne : other ≠ number) (x : HttpExchange) :
    (s.setClient number x).tasks.count (.socket other) = s.tasks.count (.socket other) := by
  rw [setClient, List.count_append, List.count_replicate, if_neg]
  · rfl
  · simpa using Ne.symm hne

/-- Nor does it bring a task of another one. -/
theorem notMem_setClient {number other : ℕ} (hne : other ≠ number) {x : HttpExchange}
    (h : .socket other ∉ s.tasks) : .socket other ∉ (s.setClient number x).tasks := by
  have hcount := count_setClient_of_ne (s := s) hne x
  rw [List.count_eq_zero_of_not_mem h] at hcount
  exact List.count_eq_zero.mp hcount

/-- **An event of a socket.** -/
theorem Inv.socketEvents (h : Inv requests site s) {number : ℕ} {nativeEvents : EventMask}
    {answers : EventAnswers} {x : HttpExchange}
    (hmem : number ∈ s.tcpServer.handed ++ s.tcpServer.pendingConnections)
    (hsmooth : HttpExchange.Smooth (.handleEvents nativeEvents answers))
    (hst : HttpExchange.Step (s.clients number) (.handleEvents nativeEvents answers) x) :
    Inv requests site (s.setClient number x) := by
  obtain ⟨socket, hs, hconnection⟩ := Option.map_eq_some_iff.mp hst.call
  have hposts : Posts (s.clients number) x 0 :=
    ⟨hconnection ▸ (Continues.handleEvents hs).signals.length_le, hconnection ▸ rfl⟩
  refine ⟨h.tcpServer, h.slots, fun other hother => ?_, fun other hother => ?_,
    fun other hother => ?_, fun other hother => ?_⟩
  · by_cases hne : other = number
    · subst hne
      rw [clients_setClient_self]
      exact (h.served other hother).handleEvents hsmooth hst
    · rw [clients_setClient_of_ne hne]
      exact h.served other hother
  · obtain ⟨hwaiting, hannounced⟩ := h.waiting other hother
    refine ⟨?_, hannounced.append _⟩
    by_cases hne : other = number
    · subst hne
      rw [clients_setClient_self]
      refine ⟨hwaiting.reading.handleEvents hsmooth hst.unread hs ?_, ?_⟩
      · rw [← hconnection]
      · rw [hposts.emitted]
        exact hwaiting.emitted
    · rw [clients_setClient_of_ne hne]
      exact hwaiting
  · by_cases hne : other = number
    · subst hne
      rw [clients_setClient_self]
      exact posted_setClient hposts (h.posted other hother)
    · rw [clients_setClient_of_ne hne, count_setClient_of_ne hne]
      exact h.posted other hother
  · have hknown := h.tcpServer.books.lt_accepted hmem
    exact notMem_setClient (Nat.ne_of_gt (hknown.trans_le hother)) (h.unknown other hother)

/-! ### The connections are taken -/

/-- The slots of a socket are connected. -/
def taken (x : HttpExchange) : HttpExchange := { x with connection.state := some {} }

/-- What the loop of `_onNewConnection` leaves. -/
structure Taken (numbers : List ℕ) (s s' : HttpService) : Prop where
  pending : s'.tcpServer.pendingConnections = []
  handed : s'.tcpServer.handed = s.tcpServer.handed ++ numbers
  accepted : s'.tcpServer.accepted = s.tcpServer.accepted
  listening : s'.tcpServer.listening = s.tcpServer.listening
  slots : s'.slots = s.slots
  tasks : s'.tasks = s.tasks
  clients : ∀ number, s'.clients number =
    if number ∈ numbers then taken (s.clients number) else s.clients number

/-- The induction is on the queue. -/
theorem taken_foldl {numbers : List ℕ} (h : s.tcpServer.pendingConnections = numbers)
    (hsound : s.tcpServer.Sound 30) :
    Taken numbers s (numbers.foldl (fun s _ => s.takeNext) s) ∧
      (numbers.foldl (fun s _ => s.takeNext) s).tcpServer.Sound 30 := by
  induction numbers generalizing s with
  | nil => exact ⟨⟨h, (List.append_nil _).symm, rfl, rfl, rfl, rfl, fun _ => rfl⟩, hsound⟩
  | cons number rest ih =>
      have hnext : s.tcpServer.nextPendingConnection = ({ s.tcpServer with
          pendingConnections := rest, handed := s.tcpServer.handed ++ [number] }, some number) := by
        rw [TcpServer.nextPendingConnection, h]
      have hsound' := hsound.nextPendingConnection
      rw [hnext] at hsound'
      have htake : s.takeNext = { s with
          tcpServer := { s.tcpServer with
            pendingConnections := rest, handed := s.tcpServer.handed ++ [number] }
          clients := Function.update s.clients number (taken (s.clients number)) } := by
        rw [takeNext, hnext]
        rfl
      have hpending : s.takeNext.tcpServer.pendingConnections = rest := by rw [htake]
      have hkept : s.takeNext.tcpServer.Sound 30 := by
        rw [htake]
        exact hsound'
      obtain ⟨htaken, hlast⟩ := ih hpending hkept
      rw [List.foldl_cons]
      refine ⟨⟨htaken.pending, htaken.handed.trans ?_, htaken.accepted.trans (by rw [htake]),
        htaken.listening.trans (by rw [htake]), htaken.slots.trans (by rw [htake]),
        htaken.tasks.trans (by rw [htake]), fun other => (htaken.clients other).trans ?_⟩, hlast⟩
      · rw [htake, List.append_assoc, List.singleton_append]
      · rw [htake]
        dsimp only
        by_cases hne : other = number
        · subst hne
          rw [Function.update_self, if_pos List.mem_cons_self]
          split <;> rfl
        · simp only [Function.update_of_ne hne, List.mem_cons, hne, false_or]

/-- `onNewConnection` takes all that is pending. -/
theorem taken_onNewConnection (hsound : s.tcpServer.Sound 30) :
    Taken s.tcpServer.pendingConnections s s.onNewConnection ∧
      s.onNewConnection.tcpServer.Sound 30 :=
  taken_foldl rfl hsound

/-- Every slot runs the loop, and there is something to do for the first one only. -/
theorem iterate_onNewConnection (hsound : s.tcpServer.Sound 30) {n : ℕ}
    (h : s.tcpServer.pendingConnections = [] ∨ 0 < n) :
    onNewConnection^[n] s = s.onNewConnection := by
  have hidle {u : HttpService} (hu : u.tcpServer.pendingConnections = []) :
      u.onNewConnection = u := by
    rw [onNewConnection, hu, List.foldl_nil]
  cases n with
  | zero =>
      rw [hidle (h.resolve_right (Nat.lt_irrefl 0))]
      rfl
  | succ n =>
      rw [Function.iterate_succ_apply]
      exact Function.iterate_fixed (hidle (taken_onNewConnection hsound).1.pending) n

/-- **The slots of `newConnection`.** -/
theorem Inv.newConnection (h : Inv requests site s) {tasks : List ServiceTask}
    (htasks : s.tasks = .server .newConnection :: tasks) :
    Inv requests site (onNewConnection^[s.slots] { s with tasks := tasks }) := by
  have hsound : ({ s with tasks := tasks } : HttpService).tcpServer.Sound 30 := h.tcpServer
  have hslots : s.tcpServer.pendingConnections = [] ∨ 0 < s.slots := by
    by_cases hlistening : s.tcpServer.listening = true
    · exact .inr (h.slots hlistening)
    · exact .inl (h.tcpServer.posture.closed (Bool.eq_false_iff.mpr hlistening)).1
  have hcount (number : ℕ) : tasks.count (.socket number) = s.tasks.count (.socket number) := by
    rw [htasks, List.count_cons_of_ne ServiceTask.noConfusion]
  rw [iterate_onNewConnection hsound hslots]
  obtain ⟨htaken, hlast⟩ := taken_onNewConnection hsound
  have hclient {number : ℕ} (hnumber : number ∈ s.tcpServer.handed) :
      number ∉ s.tcpServer.pendingConnections := fun hpending => by
    have hlt := (List.pairwise_append.mp h.tcpServer.books.inOrder).2.2 _ hnumber _ hpending
    exact Nat.lt_irrefl _ hlt
  refine ⟨hlast, fun hlistening => ?_, fun number hmem => ?_, fun number hmem => ?_,
    fun number hmem => ?_, fun number hnumber => ?_⟩
  · rw [htaken.slots]
    exact h.slots (htaken.listening ▸ hlistening)
  · rw [htaken.handed] at hmem
    rw [htaken.clients]
    rcases List.mem_append.mp hmem with hmem | hmem
    · rw [if_neg (hclient hmem)]
      exact h.served number hmem
    · rw [if_pos hmem]
      exact .reading (h.waiting number hmem).1.reading
  · rw [htaken.pending] at hmem
    exact absurd hmem List.not_mem_nil
  · rw [htaken.handed, htaken.pending, List.append_nil] at hmem
    have hposted := h.posted number hmem
    rw [htaken.clients, htaken.tasks, hcount]
    split
    · exact hposted
    · exact hposted
  · rw [htaken.accepted] at hnumber
    have hunknown := h.unknown number hnumber
    rw [htasks, List.mem_cons, not_or] at hunknown
    rw [htaken.tasks]
    exact hunknown.2

/-! ### The task of a socket -/

section Slots

open HttpConnection

variable {c c' : HttpConnection} {server : HttpServer} {fs : FileSystem} {sends : List SendResult}

/-- A slot posts signals, and emits none. -/
structure SlotPosts (c c' : HttpConnection) : Prop where
  signals : c.socket.connection.signals <+: c'.socket.connection.signals
  emitted : c'.emitted = c.emitted

/-- Sending posts signals of its socket only. -/
theorem slotPosts_send {state : HttpServer.SocketState} {response : Bytes}
    (hs : c.send state response sends = some c') : SlotPosts c c' := by
  obtain ⟨p, hp, rfl⟩ := Option.map_eq_some_iff.mp hs
  rcases write_cases hp with ⟨-, rfl⟩ | ⟨-, -, hp, -⟩
  · exact ⟨List.prefix_rfl, rfl⟩
  · exact ⟨(Continues.handleWritable hp).signals, rfl⟩

/-- So does reading. -/
theorem slotPosts_onSocketReadyRead (hs : c.onSocketReadyRead server fs sends = some c') :
    SlotPosts c c' := by
  rw [onSocketReadyRead] at hs
  dsimp only at hs
  split at hs
  · obtain ⟨-, rfl⟩ := finish_eq_some.mp hs
    exact ⟨List.prefix_rfl, rfl⟩
  · split at hs
    · obtain ⟨-, rfl⟩ := finish_eq_some.mp hs
      exact ⟨List.prefix_rfl, rfl⟩
    · split at hs
      · obtain ⟨-, rfl⟩ := finish_eq_some.mp hs
        exact ⟨List.prefix_rfl, rfl⟩
      · have hsend := slotPosts_send hs
        exact ⟨hsend.signals, hsend.emitted⟩

/-- So does closing. -/
theorem slotPosts_closeSocket (c : HttpConnection) : SlotPosts c c.closeSocket :=
  ⟨continues_applyDisconnectedState.signals, rfl⟩

/-- So does the slot of `bytesWritten`. -/
theorem slotPosts_onBytesWritten (c : HttpConnection) (n : ℕ) :
    SlotPosts c (c.onBytesWritten n) := by
  cases hstate : c.state with
  | none =>
      rw [onBytesWritten_none hstate]
      exact ⟨List.prefix_rfl, rfl⟩
  | some state =>
      rw [onBytesWritten_some hstate]
      split
      · exact ⟨(slotPosts_closeSocket c).signals, rfl⟩
      · exact ⟨List.prefix_rfl, rfl⟩

/-- So does every slot of the connection. -/
theorem slotPosts_runSlot {signal : SocketSignal}
    (hs : c.runSlot server fs sends signal = some c') : SlotPosts c c' := by
  cases signal with
  | readyRead => exact slotPosts_onSocketReadyRead hs
  | bytesWritten n =>
      obtain ⟨-, rfl⟩ := finish_eq_some.mp hs
      exact slotPosts_onBytesWritten c n
  | connected =>
      obtain ⟨-, rfl⟩ := finish_eq_some.mp hs
      exact ⟨List.prefix_rfl, rfl⟩
  | disconnected =>
      obtain ⟨-, rfl⟩ := finish_eq_some.mp hs
      exact slotPosts_closeSocket c
  | errorOccurred message =>
      obtain ⟨-, rfl⟩ := finish_eq_some.mp hs
      exact slotPosts_closeSocket c

/-- The task of a socket emits one signal, which its slot may follow by others. -/
theorem posts_emitPosted {x : HttpExchange}
    (hs : x.connection.call (.emitPosted server fs sends) = some c) :
    Posts x { x with connection := c } 1 ∧
      ∃ signal, x.connection.socket.connection.signals[x.connection.emitted]? = some signal ∧
        x.connection.emitNext.runSlot server fs sends signal = some c := by
  rw [call] at hs
  split at hs
  · cases hs
  · rename_i signal hsignal
    obtain ⟨hsignals, hemitted⟩ := slotPosts_runSlot hs
    exact ⟨⟨hsignals.length_le, hemitted⟩, signal, hsignal, hs⟩

end Slots

/-- The first task is gone, and connection `number` may have changed. -/
theorem Inv.socketTask (h : Inv requests site s) {number : ℕ} {tasks : List ServiceTask}
    (htasks : s.tasks = .socket number :: tasks) (hmem : number ∈ s.tcpServer.handed)
    {x : HttpExchange} (hposts : Posts (s.clients number) x 1)
    (hserved : Phase site (requests number) x) :
    Inv requests site (({ s with tasks := tasks } : HttpService).setClient number x) := by
  have hcount {other : ℕ} (hne : other ≠ number) :
      tasks.count (.socket other) = s.tasks.count (.socket other) := by
    rw [htasks, List.count_cons_of_ne fun heq => hne (ServiceTask.socket.inj heq).symm]
  have hapart {other : ℕ} (hother : other ∈ s.tcpServer.pendingConnections) : other ≠ number :=
    Nat.ne_of_gt ((List.pairwise_append.mp h.tcpServer.books.inOrder).2.2 _ hmem _ hother)
  refine ⟨h.tcpServer, h.slots, fun other hother => ?_, fun other hother => ?_,
    fun other hother => ?_, fun other hother => ?_⟩
  · by_cases hne : other = number
    · subst hne
      rw [clients_setClient_self]
      exact hserved
    · rw [clients_setClient_of_ne hne]
      exact h.served other hother
  · obtain ⟨hwaiting, hannounced⟩ := h.waiting other hother
    rw [htasks] at hannounced
    rw [clients_setClient_of_ne (hapart hother)]
    exact ⟨hwaiting, (hannounced.tail ServiceTask.noConfusion).2.append _⟩
  · by_cases hne : other = number
    · subst hne
      have hposted := h.posted other hother
      rw [htasks, List.count_cons_self] at hposted
      rw [clients_setClient_self]
      exact posted_setClient hposts hposted
    · rw [clients_setClient_of_ne hne, count_setClient_of_ne hne]
      change tasks.count _ + _ = _
      rw [hcount hne]
      exact h.posted other hother
  · have hknown := h.tcpServer.books.lt_accepted (List.mem_append_left _ hmem)
    have hunknown := h.unknown other hother
    rw [htasks, List.mem_cons, not_or] at hunknown
    exact notMem_setClient (Nat.ne_of_gt (hknown.trans_le hother)) hunknown.2

/-- The first task is gone, and it was about nothing that lives. -/
theorem Inv.idleTask (h : Inv requests site s) {task : ServiceTask} {tasks : List ServiceTask}
    (htasks : s.tasks = task :: tasks) (hne : task ≠ .server .newConnection)
    (hgone : ∀ number ∈ s.tcpServer.handed ++ s.tcpServer.pendingConnections,
      task ≠ .socket number) : Inv requests site { s with tasks := tasks } := by
  refine ⟨h.tcpServer, h.slots, h.served, fun number hmem => ?_, fun number hmem => ?_,
    fun number hnumber => ?_⟩
  · obtain ⟨hwaiting, hannounced⟩ := h.waiting number hmem
    rw [htasks] at hannounced
    exact ⟨hwaiting, (hannounced.tail hne).2⟩
  · have hposted := h.posted number hmem
    rwa [htasks, List.count_cons_of_ne (hgone number hmem)] at hposted
  · have hunknown := h.unknown number hnumber
    rw [htasks, List.mem_cons, not_or] at hunknown
    exact hunknown.2

/-- **The next task of the owner.** -/
theorem Inv.runTask (h : Inv requests site s) {server : HttpServer} {fs : FileSystem}
    {sends : List SendResult} (hsite : site server fs) (hsends : ∀ a ∈ sends, ¬SendFatal a)
    (hs : s.runTask server fs sends = some s') : Inv requests site s' := by
  rw [HttpService.runTask] at hs
  split at hs
  · cases hs
  · rename_i tasks htasks
    obtain ⟨-, rfl⟩ := finish_eq_some.mp hs
    exact h.newConnection htasks
  · rename_i message tasks htasks
    obtain ⟨-, rfl⟩ := finish_eq_some.mp hs
    exact h.idleTask htasks (fun heq => by cases heq) fun _ _ => ServiceTask.noConfusion
  · rename_i number tasks htasks
    dsimp only at hs
    split at hs
    · rename_i hmem
      obtain ⟨c, hc, rfl⟩ := Option.map_eq_some_iff.mp hs
      obtain ⟨hposts, signal, hsignal, hslot⟩ := posts_emitPosted hc
      exact h.socketTask htasks hmem hposts ((h.served number hmem).emit hsite hsends hsignal hslot)
    · rename_i hhanded
      split at hs
      · -- a task of `newConnection` would have run before
        rename_i hpending
        have hannounced := (h.waiting number hpending).2
        rw [htasks] at hannounced
        exact absurd rfl (hannounced.tail ServiceTask.noConfusion).1
      · rename_i hpending
        obtain ⟨-, rfl⟩ := finish_eq_some.mp hs
        refine h.idleTask htasks ServiceTask.noConfusion fun other hother heq => ?_
        obtain rfl := ServiceTask.socket.inj heq
        exact (List.mem_append.mp hother).elim hhanded hpending

/-- **The step lemma.** -/
theorem Inv.step (h : Inv requests site s) {e : ServiceEvent} (hsmooth : Smooth e)
    (hsite : ∀ server fs sends, e = .runTask server fs sends → site server fs)
    (hst : Step requests s e s') : Inv requests site s' := by
  cases hst with
  | @listen host resolution name p hp =>
      have hsound := h.tcpServer.step (l := .listen host resolution name)
        (fun n hn => absurd hn List.not_mem_nil)
        (show TcpServer.call _ _ = _ by rw [TcpServer.call, hp]; rfl)
      have hslots : Inv requests site { s with slots := s.slots + 1 } :=
        ⟨h.tcpServer, fun _ => Nat.succ_pos _, h.served, h.waiting, h.posted, h.unknown⟩
      exact hslots.afterCall (accepts_listen hp) hsound fun _ => Nat.succ_pos _
  | close =>
      exact h.afterCall (Accepts.refl _).close h.tcpServer.close
        fun hfalse => Bool.noConfusion hfalse
  | @serverEvents nativeEvents answers t ht =>
      have hnone : TcpServer.limits (.handleEvents nativeEvents answers) = [] := hsmooth
      have hsound := h.tcpServer.step (l := .handleEvents nativeEvents answers)
        (fun n hn => absurd (hnone ▸ hn) List.not_mem_nil) ht
      exact h.afterCall (accepts_handleEvents ht) hsound fun hlistening =>
        h.slots (listening_handleEvents ht hlistening)
  | socketEvents hmem hclient => exact h.socketEvents hmem hsmooth hclient
  | @runTask _ server fs sends hs => exact h.runTask (hsite server fs sends rfl) hsmooth hs

/-! ### Runs -/

/-- At the start there is no connection. -/
theorem inv_start (requests : ℕ → SizedRequest) (site : HttpServer → FileSystem → Prop)
    (clients : ℕ → HttpExchange) : Inv requests site { clients := clients } where
  tcpServer :=
    ⟨⟨List.Perm.refl [], List.Pairwise.nil, rfl⟩,
      ⟨rfl, iff_of_false (Int.not_le.mpr (Int.negSucc_lt_zero 0)) Bool.false_ne_true,
        fun _ => ⟨rfl, rfl, rfl⟩⟩, Nat.le_refl 30, Nat.zero_le _⟩
  slots hfalse := Bool.noConfusion hfalse
  served _ hmem := absurd hmem List.not_mem_nil
  waiting _ hmem := absurd hmem List.not_mem_nil
  posted _ hmem := absurd hmem List.not_mem_nil
  unknown _ _ := List.not_mem_nil

/-- **What the clients get.** Every connection was refused, discarded by a call of `close()` or
taken, or it is in the queue. One that was taken has what its client is to get. Where no task is
left, the queue is empty; and those connections whose bytes have all gone through have sent the
response to the request, and are closed. -/
structure Serves (requests : ℕ → SizedRequest) (site : HttpServer → FileSystem → Prop)
    (s : HttpService) : Prop where
  books : s.tcpServer.Books
  answered : ∀ number ∈ s.tcpServer.handed, Answered site (requests number) (s.clients number)
  atRest : s.tasks = [] → s.tcpServer.pendingConnections = [] ∧
    ∀ number ∈ s.tcpServer.handed, (s.clients number).unread = [] →
      (s.clients number).connection.socket.writeQueue = [] →
      (s.clients number).connection.socket.state = .disconnected ∧
        Answers site (requests number) (s.clients number).connection.socket.connection.sent

/-- In every state the invariant gives what the clients are owed. -/
theorem Inv.serves (h : Inv requests site s) : Serves requests site s where
  books := h.tcpServer.books
  answered number hmem := (h.served number hmem).answered
  atRest hnone := by
    constructor
    · refine List.eq_nil_iff_forall_not_mem.mpr fun number hmem => ?_
      obtain ⟨before, after, heq, -⟩ := (h.waiting number hmem).2
      rw [hnone] at heq
      cases before with
      | nil => cases heq
      | cons _ _ => cases heq
    · intro number hmem hunread hqueue
      have hposted := h.posted number (List.mem_append_left _ hmem)
      rw [hnone, List.count_nil, Nat.zero_add] at hposted
      cases h.served number hmem with
      | reading hreading => exact (hreading.not_at_rest hunread hposted).elim
      | writing _ hwriting => exact (hwriting.not_at_rest hqueue hposted).elim
      | closed hanswers hclosed => exact ⟨hclosed.disconnected, hclosed.sent.symm ▸ hanswers⟩

/-- **Every client is answered**, in every run in which nothing fails. -/
theorem every_client_answered {clients : ℕ → HttpExchange} {es : List ServiceEvent}
    (h : Run (Step requests) (fun _ => Smooth) { clients := clients } es s) :
    Serves requests (siteOf es) s := by
  have hinv : Inv requests (siteOf es) s := by
    refine h.labelled.invariant ?_ (inv_start requests (siteOf es) clients)
    rintro u e v hu ⟨hsmooth, hmem⟩ hst
    exact hu.step hsmooth (fun server fs sends heq => ⟨sends, heq ▸ hmem⟩) hst
  exact hinv.serves

open HttpConnection (noFiles takes fresh) in
/-- The request comes before the connection is taken. A second one is accepted while the first one
is answered, and its client says nothing. -/
theorem every_client_answered_example : ∃ es s,
    Run (Step fun _ => exampleRequest) (fun _ => Smooth) { clients := fun _ => ⟨fresh, []⟩ } es s ∧
      s.tasks = [] ∧ s.tcpServer.handed = [0, 1] ∧
      (s.clients 0).connection.closings = [⟨85, 85⟩] ∧
      Serves (fun _ => exampleRequest) (siteOf es) s := by
  have hevent {s : HttpService} (number : ℕ) (bytes rest : Bytes)
      (hmem : number ∈ s.tcpServer.handed ++ s.tcpServer.pendingConnections)
      (hcall : ((s.clients number).connection.call
        (.handleEvents epollIn { recvs := [.received bytes, .failed eagain] })).isSome = true)
      (hbytes : (s.clients number).unread = bytes ++ rest) :
      Step (fun _ => exampleRequest) s (.socketEvents number epollIn
        { recvs := [.received bytes, .failed eagain] })
        (s.setClient number ⟨_, rest⟩) :=
    .socketEvents hmem ⟨(Option.some_get hcall).symm, by simpa [receivedBytes, recvs] using hbytes⟩
  have htask {s : HttpService} (sends : List SendResult)
      (hrun : (s.runTask {} noFiles sends).isSome = true) :
      Step (fun _ => exampleRequest) s (.runTask {} noFiles sends) _ :=
    .runTask (Option.some_get hrun).symm
  have hnothing : ∀ a ∈ ([] : List SendResult), ¬SendFatal a := fun a ha =>
    absurd ha List.not_mem_nil
  have htaken : ¬SendFatal (takes 85) := fun h => absurd h.1 (by decide)
  have hpiece : Smooth (.socketEvents 0 epollIn
      { recvs := [.received exampleRequest.text, .failed eagain] }) := by
    refine ⟨fun hends => ?_, ?_, hnothing⟩
    · rcases hends with hflags | hmem
      · exact hflags rfl
      · have hne := exampleRequest.text_ne_nil
        simp [Ne.symm hne] at hmem
    · rintro a ha ⟨errno, rfl, hagain, -⟩
      rcases List.mem_cons.mp ha with heq | ha
      · cases heq
      · obtain rfl := RecvResult.failed.inj (List.mem_singleton.mp ha)
        exact hagain (.inl rfl)
  have hrun : Run (Step fun _ => exampleRequest) (fun _ => Smooth)
      { clients := fun _ => ⟨fresh, []⟩ }
      [.listen "::" (.ok [.listening 5]) (.ok 80),
        .serverEvents epollIn [.accepted 7, .failed eagain],
        .socketEvents 0 epollIn { recvs := [.received exampleRequest.text, .failed eagain] },
        .runTask {} noFiles [], .serverEvents epollIn [.accepted 8, .failed eagain],
        .runTask {} noFiles [takes 85], .runTask {} noFiles [], .runTask {} noFiles [],
        .runTask {} noFiles []] _ :=
    .cons trivial (.listen rfl) <| .cons rfl (.serverEvents rfl) <|
    .cons hpiece (hevent 0 _ [] (by decide +kernel) (by decide +kernel) (by decide +kernel)) <|
    .cons hnothing (htask [] (by decide +kernel)) <| .cons rfl (.serverEvents rfl) <|
    .cons (List.forall_mem_singleton.mpr htaken) (htask _ (by decide +kernel)) <|
    .cons hnothing (htask [] (by decide +kernel)) <|
    .cons hnothing (htask [] (by decide +kernel)) <|
    .cons hnothing (htask [] (by decide +kernel)) <| .nil _
  exact ⟨_, _, hrun, by decide +kernel, by decide +kernel, by decide +kernel,
    every_client_answered hrun⟩

end HttpService

end SimplyNode
