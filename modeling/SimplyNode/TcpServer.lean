import SimplyNode.TcpWrites
import Mathlib.Data.List.Range
import Mathlib.Data.List.Perm.Basic

/-!
# The Connections That a Server Accepts

A `TcpServer` accepts connections when its descriptor is readable, and keeps them in a queue until
somebody takes them. A connection that finds the queue full is closed at once. `close()` deletes
those that nobody has taken. The limit of the queue may be set by any thread, also between two calls
of `accept4`.

Connections are numbered in the order in which they are accepted. A number goes into one of four
lists, and the lists are the books that the theorem is about.

## Main results

* `TcpServer.Step`: the calls of a server.
* `Accepts.acceptLoop`: what a pass over the connections at the descriptor does.
* `TcpServer.one_fate`: **every connection has one fate**, in every run.
-/

open Transition

namespace SimplyNode

/-- What `errorOccurred` tells. -/
inductive TcpServerError
  /-- A prefix, and the text of an error number. -/
  | system (text : String) (errorCode : Errno)
  /-- `listen` cannot resolve its host. -/
  | unresolved (host resolveError : String)
  deriving DecidableEq

/-- The signals of a server, which it posts to its owner. -/
inductive TcpServerSignal
  | newConnection
  | errorOccurred (message : TcpServerError)
  deriving DecidableEq

/-- One candidate of `listen`: a call fails, and the descriptor is closed, or they all succeed. -/
inductive ListenAttempt
  | failed (errno : Errno)
  | listening (fd : ℕ)
  deriving DecidableEq

/-- What comes in the loop over `accept4`: a descriptor, an error, or a thread that calls
`setMaxPendingConnections` in between. -/
inductive AcceptAnswer
  | accepted (fd : ℕ)
  | failed (errno : Errno)
  | limited (maxPendingConnections : ℕ)
  deriving DecidableEq

/-- `EADDRNOTAVAIL`. -/
def eaddrnotavail : Errno := 99

/-- A `TcpServer`, with the books of its connections. -/
structure TcpServer where
  pendingConnections : List ℕ := []
  maxPendingConnections : ℕ := 30
  listening : Bool := false
  serverPort : ℕ := 0
  serverAddress : String := ""
  descriptor : FileDescriptor := -1
  active : Bool := false
  /-- What `accept4` has returned. -/
  accepted : List ℕ := []
  /-- The connections that have been closed at once. -/
  refused : List ℕ := []
  /-- The connections that `nextPendingConnection` has returned. -/
  handed : List ℕ := []
  /-- The connections that `close()` has deleted. -/
  discarded : List ℕ := []
  /-- The signals that were posted. -/
  signals : List TcpServerSignal := []
  deriving DecidableEq

namespace TcpServer

variable (s : TcpServer)

/-- `emitNewConnection` and `emitErrorOccurred`. -/
def emit (signal : TcpServerSignal) : TcpServer := { s with signals := s.signals ++ [signal] }

/-- `failWithErrno`. -/
def failWithErrno (text : String) (errorCode : Errno) : TcpServer :=
  s.emit (.errorOccurred (.system text errorCode))

/-- `TcpServer::setMaxPendingConnections`. -/
def setMaxPendingConnections (maxPendingConnections : ℕ) : TcpServer :=
  { s with maxPendingConnections :=
      if maxPendingConnections = 0 then 1 else maxPendingConnections }

/-- `TcpServer::close`, inside the owner. -/
def close : TcpServer :=
  { s with
    active := false
    descriptor := -1
    listening := false
    serverPort := 0
    serverAddress := ""
    pendingConnections := []
    discarded := s.discarded ++ s.pendingConnections }

/-- The loop of `listen` over the candidates. -/
def listenLoop : List ListenAttempt → Errno → Option (Except Errno ℕ)
  | [], lastError => some (.error lastError)
  | .failed errno :: attempts, _ => listenLoop attempts errno
  | .listening fd :: attempts, _ => finish attempts (.ok fd)

/-- `TcpServer::listen`, inside the owner, with the port that `getsockname` tells or its error, and
what it returns. -/
def listen (host : String) (resolution : Except String (List ListenAttempt))
    (name : Except Errno ℕ) : Option (TcpServer × Bool) :=
  let s := s.close
  match resolution with
  | .error resolveError => some (s.emit (.errorOccurred (.unresolved host resolveError)), false)
  | .ok attempts =>
      (listenLoop attempts eaddrnotavail).map fun outcome =>
        match outcome, name with
        | .error lastError, _ => (s.failWithErrno "listen() failed" lastError, false)
        | .ok _, .error errno => (s.failWithErrno "getsockname() failed" errno, false)
        | .ok fd, .ok port =>
            ({ s with
                descriptor := fd
                active := true
                listening := true
                serverPort := port
                serverAddress := host }, true)

/-- `TcpServer::nextPendingConnection`, inside the owner, and what it returns. -/
def nextPendingConnection : TcpServer × Option ℕ :=
  match s.pendingConnections with
  | [] => (s, none)
  | number :: rest =>
      ({ s with pendingConnections := rest, handed := s.handed ++ [number] }, some number)

/-- `accept4` has returned a descriptor. -/
def acceptOne (fd : ℕ) : TcpServer :=
  let number := s.accepted.length
  let next := { s with accepted := s.accepted ++ [fd] }
  if s.pendingConnections.length < s.maxPendingConnections then
    emit { next with pendingConnections := s.pendingConnections ++ [number] } .newConnection
  else { next with refused := s.refused ++ [number] }

/-- The loop of `acceptPendingConnections`. -/
def acceptLoop : List AcceptAnswer → TcpServer → Option TcpServer
  | [], _ => none
  | .accepted fd :: answers, s => acceptLoop answers (s.acceptOne fd)
  | .limited maxPendingConnections :: answers, s =>
      acceptLoop answers (s.setMaxPendingConnections maxPendingConnections)
  | .failed errno :: answers, s =>
      if errno = eagain ∨ errno = ewouldblock then finish answers s
      else if errno = eintr then acceptLoop answers s
      else finish answers (s.failWithErrno "accept4() failed" errno)

/-- `TcpServer::acceptPendingConnections`. -/
def acceptPendingConnections (answers : List AcceptAnswer) : Option TcpServer :=
  if s.descriptor < 0 then finish answers s else acceptLoop answers s

/-- `TcpServer::handleEvents`, behind the signals of `IOEvent`. -/
def handleEvents (nativeEvents : EventMask) (answers : List AcceptAnswer) : Option TcpServer :=
  (if nativeEvents &&& epollIn ≠ 0 then s.acceptPendingConnections answers
    else finish answers s).map fun next =>
      if nativeEvents &&& (epollErr ||| epollHup ||| epollRdHup) ≠ 0 then next.close else next

end TcpServer

/-- A call of a server, with what the kernel answers. Any thread may call
`setMaxPendingConnections`, and the others are called inside the owner. -/
inductive TcpServerCall
  | listen (host : String) (resolution : Except String (List ListenAttempt))
      (name : Except Errno ℕ)
  | close
  | nextPendingConnection
  | setMaxPendingConnections (maxPendingConnections : ℕ)
  | handleEvents (nativeEvents : EventMask) (answers : List AcceptAnswer)

namespace TcpServer

/-- **One call of a server.** -/
def call (s : TcpServer) : TcpServerCall → Option TcpServer
  | .listen host resolution name => (s.listen host resolution name).map Prod.fst
  | .close => some s.close
  | .nextPendingConnection => some s.nextPendingConnection.1
  | .setMaxPendingConnections maxPendingConnections =>
      some (s.setMaxPendingConnections maxPendingConnections)
  | .handleEvents nativeEvents answers => s.handleEvents nativeEvents answers

/-- The kernel can have answered so. -/
def Step (s : TcpServer) (l : TcpServerCall) (s' : TcpServer) : Prop := s.call l = some s'

/-- The limits that a call sets. -/
def limits : TcpServerCall → List ℕ
  | .setMaxPendingConnections maxPendingConnections => [maxPendingConnections]
  | .handleEvents _ answers =>
      answers.filterMap fun answer =>
        match answer with
        | .limited maxPendingConnections => some maxPendingConnections
        | _ => none
  | _ => []

variable {s s' : TcpServer} {l : TcpServerCall}

/-! ### The books -/

/-- **The books of the connections.** Every number is in one of the lists, and the queue keeps the
order. A connection is announced when it is put into the queue. -/
structure Books (s : TcpServer) : Prop where
  fates : (s.refused ++ s.discarded ++ s.handed ++ s.pendingConnections).Perm
    (List.range s.accepted.length)
  inOrder : (s.handed ++ s.pendingConnections).Pairwise (· < ·)
  announced : s.signals.count .newConnection =
    (s.discarded ++ s.handed ++ s.pendingConnections).length

/-- A server that listens has a descriptor, and one that does not has nothing. -/
structure Posture (s : TcpServer) : Prop where
  active : s.active = s.listening
  descriptor : 0 ≤ s.descriptor ↔ s.listening = true
  closed : s.listening = false →
    s.pendingConnections = [] ∧ s.serverPort = 0 ∧ s.serverAddress = ""

theorem Books.lt_accepted (h : s.Books) {number : ℕ}
    (hmem : number ∈ s.handed ++ s.pendingConnections) : number < s.accepted.length := by
  refine List.mem_range.mp (h.fates.mem_iff.mp ?_)
  rw [List.append_assoc]
  exact List.mem_append_right _ hmem

/-- A signal other than `newConnection` leaves the books alone. -/
theorem Books.fail (h : s.Books) (message : TcpServerError) :
    (s.emit (.errorOccurred message)).Books where
  fates := h.fates
  inOrder := h.inOrder
  announced := by
    rw [emit, List.count_append, h.announced]
    rfl

theorem Books.close (h : s.Books) : s.close.Books where
  fates := by
    have hfates := h.fates
    rw [TcpServer.close]
    dsimp only
    rw [List.append_nil]
    refine List.Perm.trans ?_ hfates
    simp only [List.append_assoc]
    exact ((List.perm_append_comm).append_left _).append_left _
  inOrder := by
    rw [TcpServer.close]
    dsimp only
    rw [List.append_nil]
    exact (List.pairwise_append.mp h.inOrder).1
  announced := by
    have hannounced := h.announced
    rw [TcpServer.close]
    dsimp only
    rw [hannounced]
    simp only [List.length_append, List.length_nil]
    omega

theorem Posture.close (s : TcpServer) : s.close.Posture where
  active := rfl
  descriptor := iff_of_false (Int.not_le.mpr (Int.negSucc_lt_zero 0)) Bool.false_ne_true
  closed _ := ⟨rfl, rfl, rfl⟩

/-- The queue is taken from at its front. -/
theorem Books.nextPendingConnection (h : s.Books) : s.nextPendingConnection.1.Books := by
  rw [TcpServer.nextPendingConnection]
  split
  · exact h
  · rename_i number rest hpending
    obtain ⟨hfates, hinOrder, hannounced⟩ := h
    rw [hpending] at hfates hinOrder hannounced
    refine ⟨?_, ?_, ?_⟩
    · simpa only [List.append_assoc, List.singleton_append] using hfates
    · simpa only [List.append_assoc, List.singleton_append] using hinOrder
    · dsimp only
      rw [hannounced]
      simp only [List.length_append, List.length_cons, List.length_nil]
      omega

/-! ### A pass over the connections -/

/-- A connection is accepted: it is put into the queue, or closed at once. -/
theorem Books.acceptOne (h : s.Books) (fd : ℕ) : (s.acceptOne fd).Books := by
  have hlength : (s.accepted ++ [fd]).length = s.accepted.length + 1 := List.length_append
  have hrange : List.range (s.accepted ++ [fd]).length =
      List.range s.accepted.length ++ [s.accepted.length] := by
    rw [hlength, List.range_succ]
  rw [TcpServer.acceptOne]
  dsimp only
  split
  · refine ⟨?_, ?_, ?_⟩
    · rw [emit]
      dsimp only
      rw [hrange, ← List.append_assoc]
      exact h.fates.append_right _
    · rw [emit]
      dsimp only
      rw [← List.append_assoc]
      refine List.pairwise_append.mpr ⟨h.inOrder, List.pairwise_singleton _ _, ?_⟩
      intro number hmem last hlast
      rw [List.mem_singleton.mp hlast]
      exact h.lt_accepted hmem
    · have hannounced := h.announced
      rw [emit, List.count_append, hannounced]
      simp only [List.length_append, List.length_singleton, List.count_singleton_self]
      omega
  · refine ⟨?_, h.inOrder, h.announced⟩
    dsimp only
    rw [hrange]
    refine List.Perm.trans ?_ (h.fates.append_right _)
    simp only [List.append_assoc]
    refine List.Perm.append_left _ ?_
    refine List.perm_append_comm.trans (List.Perm.of_eq ?_)
    simp only [List.append_assoc]

/-- **The rule for the loop over `accept4`.** -/
theorem acceptLoop_rule {I : TcpServer → Prop} {answers : List AcceptAnswer}
    (hone : ∀ s fd, I s → I (s.acceptOne fd))
    (hlimit : ∀ s n, .limited n ∈ answers → I s → I (s.setMaxPendingConnections n))
    (hfail : ∀ s message, I s → I (s.emit (.errorOccurred message))) (h : I s)
    (hs : acceptLoop answers s = some s') : I s' := by
  induction answers generalizing s with
  | nil => cases hs
  | cons answer answers ih =>
      have hrest {v : TcpServer} (hv : I v) (hs : acceptLoop answers v = some s') : I s' :=
        ih (fun s n hmem => hlimit s n (List.mem_cons_of_mem _ hmem)) hv hs
      cases answer with
      | accepted fd => exact hrest (hone s fd h) hs
      | limited n => exact hrest (hlimit s n List.mem_cons_self h) hs
      | failed errno =>
          rw [acceptLoop] at hs
          split at hs
          · obtain ⟨-, rfl⟩ := finish_eq_some.mp hs
            exact h
          · split at hs
            · exact hrest h hs
            · obtain ⟨-, rfl⟩ := finish_eq_some.mp hs
              exact hfail s _ h

/-- An event: a pass over the connections, and the end. -/
theorem handleEvents_rule {I : TcpServer → Prop} {nativeEvents : EventMask}
    {answers : List AcceptAnswer}
    (hpass : ∀ s', 0 ≤ s.descriptor → acceptLoop answers s = some s' → I s') (hsame : I s)
    (hclose : ∀ s, I s → I s.close) (hs : s.handleEvents nativeEvents answers = some s') :
    I s' := by
  obtain ⟨next, hnext, rfl⟩ := Option.map_eq_some_iff.mp hs
  have hI : I next := by
    split at hnext
    · rw [acceptPendingConnections] at hnext
      split at hnext
      · obtain ⟨-, rfl⟩ := finish_eq_some.mp hnext
        exact hsame
      · rename_i hdescriptor
        exact hpass next (Int.not_lt.mp hdescriptor) hnext
    · obtain ⟨-, rfl⟩ := finish_eq_some.mp hnext
      exact hsame
  split
  · exact hclose next hI
  · exact hI

/-! ### Listening -/

/-- `listen` fails with a message, or the server has a descriptor. -/
theorem listen_cases {host : String} {resolution : Except String (List ListenAttempt)}
    {name : Except Errno ℕ} {p : TcpServer × Bool} (hs : s.listen host resolution name = some p) :
    (∃ message, p = (s.close.emit (.errorOccurred message), false)) ∨
      ∃ fd port : ℕ, p = ({ s.close with
        descriptor := fd, active := true, listening := true, serverPort := port,
        serverAddress := host }, true) := by
  cases resolution with
  | error resolveError =>
      obtain rfl := Option.some.inj hs
      exact .inl ⟨_, rfl⟩
  | ok attempts =>
      obtain ⟨outcome, -, rfl⟩ := Option.map_eq_some_iff.mp hs
      cases outcome with
      | error lastError => exact .inl ⟨_, rfl⟩
      | ok fd =>
          cases name with
          | error errno => exact .inl ⟨_, rfl⟩
          | ok port => exact .inr ⟨fd, port, rfl⟩

/-! ### Runs -/

/-- The books and the posture, and a bound on the queue. -/
structure Sound (bound : ℕ) (s : TcpServer) : Prop where
  books : s.Books
  posture : s.Posture
  limit : s.maxPendingConnections ≤ bound
  pending : s.pendingConnections.length ≤ bound

variable {bound : ℕ}

theorem Sound.fail (h : s.Sound bound) (message : TcpServerError) :
    (s.emit (.errorOccurred message)).Sound bound :=
  ⟨h.books.fail message, ⟨h.posture.active, h.posture.descriptor, h.posture.closed⟩, h.limit,
    h.pending⟩

theorem Sound.close (h : s.Sound bound) : s.close.Sound bound :=
  ⟨h.books.close, .close s, h.limit, Nat.zero_le _⟩

theorem Sound.setMaxPendingConnections (h : s.Sound bound) {n : ℕ} (hn : max 1 n ≤ bound) :
    (s.setMaxPendingConnections n).Sound bound := by
  refine ⟨⟨h.books.fates, h.books.inOrder, h.books.announced⟩,
    ⟨h.posture.active, h.posture.descriptor, h.posture.closed⟩, ?_, h.pending⟩
  rw [TcpServer.setMaxPendingConnections]
  dsimp only
  split <;> omega

theorem Sound.nextPendingConnection (h : s.Sound bound) :
    s.nextPendingConnection.1.Sound bound := by
  have hbooks := h.books.nextPendingConnection
  rw [TcpServer.nextPendingConnection] at hbooks ⊢
  split at hbooks
  · exact h
  · rename_i number rest hpending
    have hshort := h.pending
    rw [hpending, List.length_cons] at hshort
    refine ⟨hbooks, ⟨h.posture.active, h.posture.descriptor, fun hclosed => ?_⟩, h.limit, ?_⟩
    · have hnone := (h.posture.closed hclosed).1
      rw [hpending] at hnone
      cases hnone
    · exact Nat.le_of_succ_le hshort

theorem Sound.acceptOne (h : s.Sound bound) (hlistening : s.listening = true) (fd : ℕ) :
    (s.acceptOne fd).Sound bound ∧ (s.acceptOne fd).listening = true := by
  have hbooks := h.books.acceptOne fd
  by_cases hfree : s.pendingConnections.length < s.maxPendingConnections
  · rw [TcpServer.acceptOne, if_pos hfree] at hbooks ⊢
    have hlimit := h.limit
    refine ⟨⟨hbooks, ⟨h.posture.active, h.posture.descriptor, fun hclosed => ?_⟩, hlimit, ?_⟩,
      hlistening⟩
    · exact Bool.noConfusion (hlistening.symm.trans hclosed)
    · rw [emit, List.length_append, List.length_singleton]
      omega
  · rw [TcpServer.acceptOne, if_neg hfree] at hbooks ⊢
    exact ⟨⟨hbooks, ⟨h.posture.active, h.posture.descriptor, h.posture.closed⟩, h.limit,
      h.pending⟩, hlistening⟩

/-- **The step lemma.** -/
theorem Sound.step (h : s.Sound bound) (hlimits : ∀ n ∈ limits l, max 1 n ≤ bound)
    (hst : Step s l s') : s'.Sound bound := by
  rw [Step] at hst
  cases l with
  | listen host resolution name =>
      obtain ⟨p, hp, rfl⟩ := Option.map_eq_some_iff.mp hst
      rcases listen_cases hp with ⟨message, rfl⟩ | ⟨fd, port, rfl⟩
      · exact h.close.fail message
      · have hclosed := h.close
        refine ⟨⟨hclosed.books.fates, hclosed.books.inOrder, hclosed.books.announced⟩,
          ⟨rfl, iff_of_true (Int.natCast_nonneg fd) rfl, fun hfalse => Bool.noConfusion hfalse⟩,
          h.limit, Nat.zero_le _⟩
  | close =>
      obtain rfl := Option.some.inj hst
      exact h.close
  | nextPendingConnection =>
      obtain rfl := Option.some.inj hst
      exact h.nextPendingConnection
  | setMaxPendingConnections n =>
      obtain rfl := Option.some.inj hst
      exact h.setMaxPendingConnections (hlimits n (List.mem_singleton.mpr rfl))
  | handleEvents nativeEvents answers =>
      refine handleEvents_rule ?_ h (fun _ => Sound.close) hst
      intro s' hdescriptor hs'
      have hpass : s'.Sound bound ∧ s'.listening = true := by
        refine acceptLoop_rule (I := fun s => s.Sound bound ∧ s.listening = true) ?_ ?_ ?_
          ⟨h, h.posture.descriptor.mp hdescriptor⟩ hs'
        · exact fun s fd hs => hs.1.acceptOne hs.2 fd
        · refine fun s n hmem hs => ⟨hs.1.setMaxPendingConnections (hlimits n ?_), hs.2⟩
          exact List.mem_filterMap.mpr ⟨_, hmem, rfl⟩
        · exact fun s message hs => ⟨hs.1.fail message, hs.2⟩
      exact hpass.1

/-- **Every connection has one fate.** The numbers of all that `accept4` has returned are those that
were refused, discarded or handed out, and those in the queue, each of them once. Connections are
handed out in the order in which they were accepted, and each one that was put into the queue is
announced once. The queue is never longer than the largest limit there was. A server that does not
listen has neither connections nor a descriptor. -/
theorem one_fate {ls : List TcpServerCall} (hbound : 30 ≤ bound)
    (hlimits : ∀ l ∈ ls, ∀ n ∈ limits l, max 1 n ≤ bound) (h : Reaches Step {} ls s) :
    s.Books ∧ s.Posture ∧ s.pendingConnections.length ≤ bound := by
  have h₀ : Sound bound {} :=
    ⟨⟨List.Perm.refl [], List.Pairwise.nil, rfl⟩,
      ⟨rfl, iff_of_false (Int.not_le.mpr (Int.negSucc_lt_zero 0)) Bool.false_ne_true,
        fun _ => ⟨rfl, rfl, rfl⟩⟩, hbound, Nat.zero_le _⟩
  have hsound : s.Sound bound := by
    refine h.labelled.invariant (I := Sound bound) ?_ h₀
    exact fun u l v hu hmem hst => hu.step (hlimits l hmem.2) hst
  exact ⟨hsound.books, hsound.posture, hsound.pending⟩

/-- A queue of one connection: the second one is refused, the first one is handed out, and the third
one is still in the queue when the server is closed. -/
theorem one_fate_example : ∃ ls s, Reaches Step {} ls s ∧ s.accepted = [7, 8, 9] ∧
    s.refused = [1] ∧ s.handed = [0] ∧ s.discarded = [2] ∧
      s.Books ∧ s.Posture ∧ s.pendingConnections.length ≤ 30 := by
  have hrun : Reaches Step {}
      [.setMaxPendingConnections 0, .listen "::" (.ok [.failed 98, .listening 5]) (.ok 80),
        .handleEvents epollIn [.accepted 7, .accepted 8, .failed eagain], .nextPendingConnection,
        .handleEvents epollIn [.failed eintr, .accepted 9, .failed eagain], .close] _ :=
    .cons trivial rfl <| .cons trivial rfl <| .cons trivial rfl <| .cons trivial rfl <|
      .cons trivial rfl <| .cons trivial rfl <| .nil _
  refine ⟨_, _, hrun, rfl, rfl, rfl, rfl, one_fate (Nat.le_refl 30) ?_ hrun⟩
  decide

end TcpServer

end SimplyNode
