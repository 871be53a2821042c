import SimplyNode.Lib.Callbacks
import SimplyNode.SqlTableModel
import Mathlib.Data.List.Chain
import Mathlib.Data.List.Range

/-!
# A Database Connection That Calls Back

A `MySqlDatabase` emits its signals on the spot, so that their slots run in the middle of `open()`,
`close()` or the handling of a lost connection. A slot may call anything of the database again: it
may open what is just being closed, or close what is just being opened. The pieces of code between
two emissions are those of `DatabaseCode`, and what the library answers comes with each of them.

A piece of code runs on the thread of an executor. When a slot has moved the database, what is left
of the call still runs on the old one, and its calls of the timer are posted to the new owner. The
tasks of an executor run in order. Code of two threads meets between two pieces of code only; a race
inside of one is not modelled.

## Main results

* `mySqlDatabase`: the calls and their code.
* `handles_closed_once`: no handle is lost, and none is closed twice.
* `ping_timer_runs`: an open database with `PingTimeout` has its timer running, wherever no call is
  still under way, as long as all code runs on the owner. `ping_timer_stopped`: not without that.
* `changes_tell_iff`: **what `connectionChanged` tells** is true throughout a run, if and only if no
  `open()` finds the database open when it is to connect.
-/

open Transition

namespace SimplyNode

/-- `MySqlDatabase::ConnectionOptions`. -/
structure ConnectionOptions where
  hostName : String := "127.0.0.1"
  port : ℕ := 3306
  databaseName : String := ""
  userName : String := ""
  password : String := ""
  deriving DecidableEq

/-- A call of the ping timer. -/
inductive PingTimerCall
  | setInterval (interval : ℤ)
  | start
  | stop
  deriving DecidableEq

/-- A task that is posted for the database. -/
inductive OwnerTask
  /-- A call of the timer, made on another executor than the owner. -/
  | timer (call : PingTimerCall)
  /-- The task of `onMovedToThread`. -/
  | configure
  /-- A move, called on another executor than the owner. -/
  | move (target : ℕ) (hasEventLoop : Bool)
  deriving DecidableEq

/-- `MySqlDatabase`, with the books of its handles and of what it has emitted. -/
structure MySqlDatabase where
  /-- The executor that owns the database and its timer. -/
  owner : ℕ := 0
  options : ConnectionOptions := {}
  /-- The number of the handle. -/
  handle : Option ℕ := none
  pingInterval : ℤ := 30000
  featureFlags : BitVec 32 := 0
  restartPingAfterMove : Bool := false
  /-- `m_pingTimer->isActive()`. -/
  pingActive : Bool := false
  /-- What `m_pingTimer->setInterval` was called with. -/
  timerInterval : Option ℤ := none
  lastError : DatabaseError := .noError
  errorString : String := ""
  /-- What a call has returned last. -/
  returned : Option Bool := none
  /-- The tasks that wait, each with its executor. -/
  posted : List (ℕ × OwnerTask) := []
  /-- How many handles `mysql_init` has returned. -/
  created : ℕ := 0
  /-- The handles that `mysql_close` was called for. -/
  closed : List ℕ := []
  /-- What `connectionChanged` was emitted with. -/
  changes : List Bool := []
  /-- What `errorOccurred` was emitted with. -/
  errors : List String := []
  deriving DecidableEq

/-- One of the setters. -/
inductive OptionUpdate
  | hostName (hostName : String)
  | port (port : ℕ)
  | databaseName (databaseName : String)
  | userName (userName : String)
  | password (password : String)
  | connectionOptions (options : ConnectionOptions)
  deriving DecidableEq

/-- What a query comes to: a number and a text where it fails. -/
inductive QueryOutcome
  | succeeded
  | failed (error : ℕ) (text : String)
  | storeFailed (error : ℕ) (text : String)
  deriving DecidableEq

/-- What the library answers to a piece of code. -/
structure MySqlAnswers where
  /-- `mysql_ping`, with the text of its error. -/
  ping : Option String := none
  /-- `mysql_init` returns a handle. -/
  allocated : Bool := true
  /-- `mysql_real_connect`, with the text of its error. -/
  connect : Option String := none
  query : QueryOutcome := .succeeded
  /-- `mysql_fetch_row` returns a row, or the number and the text of the error behind the last
  one. -/
  fetch : Option (ℕ × String) := none

/-- A piece of code between two emissions. -/
inductive DatabaseCode
  | openDatabase
  /-- The rest of `open()`, from the second call of `closeHandle` on. -/
  | connect
  /-- The rest of `open()` behind `connectionChanged`. -/
  | opened
  | close
  /-- A setter begins. -/
  | closeIfOpen
  | assign (update : OptionUpdate)
  | ping
  | onPingTimeout
  | returns (result : Bool)
  /-- `handleConnectionLost` behind `connectionChanged`. -/
  | lostReport (errorString : String)
  /-- `handleConnectionLost` behind `errorOccurred`. -/
  | lostReconnect
  | execute
  /-- `SqlQuery` reports the error of its driver. -/
  | queryFailed (errorString : String)
  | next
  | setPingInterval (interval : ℤ)
  | setFeatureFlags (flags : BitVec 32)
  | enableFeature (feature : BitVec 32)
  | disableFeature (feature : BitVec 32)
  | moveToThread (target : ℕ) (hasEventLoop : Bool)
  | task
  deriving DecidableEq

/-- A call, by the application, the timer or an executor. -/
inductive DatabaseCall
  | openDatabase
  | close
  | set (update : OptionUpdate)
  | setPingInterval (interval : ℤ)
  | setFeatureFlags (flags : BitVec 32)
  | enableFeature (feature : BitVec 32)
  | disableFeature (feature : BitVec 32)
  | ping
  | onPingTimeout
  /-- `SqlDatabase::execute`. -/
  | execute
  /-- `SqlQuery::next`, for a query that has a result. -/
  | next
  | moveToThread (target : ℕ) (hasEventLoop : Bool)
  /-- The executor runs the first of its tasks. -/
  | task
  deriving DecidableEq

/-- `MySqlDatabase::PingTimeout`. -/
def pingTimeout : BitVec 32 := 1

/-- `MySqlDatabase::AutoReconnect`. -/
def autoReconnect : BitVec 32 := 2

/-- `mysqlError`. -/
def mysqlError (text fallback : String) : String := if text ≠ "" then text else fallback

/-- `isConnectionError`: `CR_SERVER_GONE_ERROR`, `CR_SERVER_LOST`, `CR_CONN_HOST_ERROR` and
`CR_CONNECTION_ERROR`. -/
def isConnectionError (error : ℕ) : Bool :=
  error = 2006 || error = 2013 || error = 2003 || error = 2002

namespace MySqlDatabase

variable (s : MySqlDatabase)

/-- `MySqlDatabase::isOpen`. -/
def isOpen : Bool := s.handle.isSome

/-- `MySqlDatabase::hasFeature`. -/
def hasFeature (feature : BitVec 32) : Bool := s.featureFlags &&& feature ≠ 0

/-- `SqlDatabase::clearError`. -/
def clearError : MySqlDatabase := { s with lastError := .noError, errorString := "" }

/-- `SqlDatabase::setError`. -/
def setError (error : DatabaseError) (errorString : String) : MySqlDatabase :=
  { s with lastError := error, errorString := errorString }

/-- A call returns. -/
def returning (result : Bool) : MySqlDatabase := { s with returned := some result }

/-- What a call of the timer does. -/
def applyTimer : PingTimerCall → MySqlDatabase
  | .setInterval interval => { s with timerInterval := some interval }
  | .start => { s with pingActive := true }
  | .stop => { s with pingActive := false }

/-- `Timer::setInterval`, `Timer::start` and `Timer::stop` of `m_pingTimer`, on an executor. -/
def callTimer (on : ℕ) (call : PingTimerCall) : MySqlDatabase :=
  if on = s.owner then s.applyTimer call
  else { s with posted := s.posted ++ [(s.owner, .timer call)] }

/-- `MySqlDatabase::closeHandle`, up to the slots of its signal. -/
def closeHandle (emitSignal : Bool) : MySqlDatabase × List (Item DatabaseCode) :=
  match s.handle with
  | none => (s, [])
  | some handle =>
      let next := { s with handle := none, closed := s.closed ++ [handle] }
      if emitSignal then ({ next with changes := s.changes ++ [false] }, [.slots]) else (next, [])

/-- `MySqlDatabase::configurePingTimer`. -/
def configurePingTimer (on : ℕ) : MySqlDatabase :=
  if !s.isOpen || !s.hasFeature pingTimeout then s.callTimer on .stop
  else
    let next := s.callTimer on (.setInterval s.pingInterval)
    if next.pingActive then next else next.callTimer on .start

/-- `MySqlDatabase::handleConnectionLost`, up to its first emission. -/
def handleConnectionLost (on : ℕ) (errorString : String) :
    MySqlDatabase × List (Item DatabaseCode) :=
  let (next, slots) := (s.callTimer on .stop).closeHandle s.isOpen
  (next, slots ++ [.code (.lostReport errorString)])

/-- `MySqlDatabase::close`. -/
def close (on : ℕ) : MySqlDatabase × List (Item DatabaseCode) :=
  (s.callTimer on .stop).closeHandle true

/-- `MySqlDatabase::open`, from the second call of `closeHandle` on, up to its emission. -/
def connect (answers : MySqlAnswers) : MySqlDatabase × List (Item DatabaseCode) :=
  let s := (s.closeHandle false).1
  if s.options.databaseName = "" then
    ((s.setError .openFailed "MySQL database name is empty").returning false, [])
  else if !answers.allocated then
    ((s.setError .openFailed "Failed to initialize MySQL connection").returning false, [])
  else
    let handle := s.created
    let s := { s with created := s.created + 1 }
    match answers.connect with
    | some text =>
        let message := mysqlError text "Failed to open MySQL database"
        let s := { s with closed := s.closed ++ [handle] }.setError .openFailed message
        ({ s with errors := s.errors ++ [message] }, [.slots, .code (.returns false)])
    | none =>
        let s := { s with handle := some handle }.clearError
        ({ s with changes := s.changes ++ [true] }, [.slots, .code .opened])

/-- `MySqlDatabase::open`, up to its first emission. -/
def openDatabase (on : ℕ) (answers : MySqlAnswers) : MySqlDatabase × List (Item DatabaseCode) :=
  if s.isOpen then
    match answers.ping with
    | none => ((s.clearError.configurePingTimer on).returning true, [])
    | some text =>
        let (next, slots) :=
          (s.setError .openFailed (mysqlError text "MySQL ping failed")).closeHandle true
        (next, slots ++ [.code .connect])
  else (s, [.code .connect])

/-- `MySqlDatabase::ping`, up to its first emission. -/
def ping (on : ℕ) (answers : MySqlAnswers) : MySqlDatabase × List (Item DatabaseCode) :=
  if !s.isOpen then
    ((s.setError .invalidOperation "MySQL database is not open").returning false, [])
  else
    match answers.ping with
    | none => (s.clearError.returning true, [])
    | some text =>
        let message := mysqlError text "MySQL ping failed"
        let (next, rest) := (s.setError .openFailed message).handleConnectionLost on message
        (next, rest ++ [.code (.returns false)])

/-- The driver of a query has failed, so that `SqlQuery` sets the error of the database. -/
def failQuery (on error : ℕ) (message : String) : MySqlDatabase × List (Item DatabaseCode) :=
  if isConnectionError error then
    let (next, rest) := s.handleConnectionLost on message
    (next, rest ++ [.code (.queryFailed message)])
  else (s, [.code (.queryFailed message)])

/-- `SqlDatabase::execute` with `SqlQuery::exec` and `MySqlQueryDriver::exec`, up to their first
emission. -/
def execute (on : ℕ) (answers : MySqlAnswers) : MySqlDatabase × List (Item DatabaseCode) :=
  if !s.isOpen then
    ((s.setError .invalidOperation "MySQL database is not open").returning false, [])
  else
    match answers.query with
    | .succeeded => (s.clearError.returning true, [])
    | .failed error text => s.failQuery on error (mysqlError text "MySQL query failed")
    | .storeFailed error text =>
        s.failQuery on error (mysqlError text "Failed to store MySQL result")

/-- `SqlQuery::next` with `MySqlQueryDriver::next`, up to their first emission. -/
def next (on : ℕ) (answers : MySqlAnswers) : MySqlDatabase × List (Item DatabaseCode) :=
  match answers.fetch with
  | none => (s.returning true, [])
  | some (error, text) =>
      if s.isOpen ∧ error ≠ 0 then
        s.failQuery on error (mysqlError text "Failed to fetch MySQL row")
      else (s.returning false, [])

/-- The assignment in a setter. -/
def assign : OptionUpdate → MySqlDatabase
  | .hostName hostName => { s with options.hostName := hostName }.clearError
  | .port port => { s with options.port := port }.clearError
  | .databaseName databaseName => { s with options.databaseName := databaseName }.clearError
  | .userName userName => { s with options.userName := userName }.clearError
  | .password password => { s with options.password := password }.clearError
  | .connectionOptions options => { s with options := options }.clearError

/-- `MySqlDatabase::setPingInterval`. -/
def setPingInterval (on : ℕ) (interval : ℤ) : MySqlDatabase :=
  configurePingTimer { s with pingInterval := if interval < 0 then 0 else interval } on

/-- `MySqlDatabase::setFeatureFlags`. -/
def setFeatureFlags (on : ℕ) (flags : BitVec 32) : MySqlDatabase :=
  configurePingTimer { s with featureFlags := flags } on

/-- `Node::applyMoveTo` with `onAboutToMoveToThread` and `onMovedToThread`, which posts a task if
the target has an event loop. The timer moves along. -/
def applyMoveTo (target : ℕ) (hasEventLoop : Bool) : MySqlDatabase :=
  if s.owner = target then s
  else
    { s with
      owner := target
      restartPingAfterMove := s.pingActive
      pingActive := false
      posted := if s.pingActive && hasEventLoop then s.posted ++ [(target, .configure)]
        else s.posted }

/-- `Node::moveToThread` to an executor that takes the database, or a task of it. -/
def moveToThread (on target : ℕ) (hasEventLoop : Bool) : MySqlDatabase :=
  if on = s.owner then s.applyMoveTo target hasEventLoop
  else { s with posted := s.posted ++ [(s.owner, .move target hasEventLoop)] }

/-- What a task does on its executor. If the database has another owner by then, it is posted again,
or its calls of the timer are. -/
def runTask (on : ℕ) : OwnerTask → MySqlDatabase
  | .timer call => s.callTimer on call
  | .configure => s.configurePingTimer on
  | .move target hasEventLoop => s.moveToThread on target hasEventLoop

/-- The tasks without the first one of an executor. -/
def withoutTask (on : ℕ) : MySqlDatabase :=
  { s with posted := s.posted.eraseP fun task => task.1 = on }

/-- What a piece of code does on an executor. -/
def exec (on : ℕ) (answers : MySqlAnswers) :
    DatabaseCode → Option (MySqlDatabase × List (Item DatabaseCode))
  | .openDatabase => some (s.openDatabase on answers)
  | .connect => some (s.connect answers)
  | .opened => some ((s.configurePingTimer on).returning true, [])
  | .close => some (s.close on)
  | .closeIfOpen => some (if s.isOpen then s.close on else (s, []))
  | .assign update => some (s.assign update, [])
  | .ping => some (s.ping on answers)
  | .onPingTimeout =>
      some (if !s.hasFeature pingTimeout || !s.isOpen then (s.configurePingTimer on, [])
        else s.ping on answers)
  | .returns result => some (s.returning result, [])
  | .lostReport errorString =>
      some ({ s with errors := s.errors ++ [errorString] }, [.slots, .code .lostReconnect])
  | .lostReconnect =>
      some (s, if s.hasFeature autoReconnect then [.code .openDatabase] else [])
  | .execute => some (s.execute on answers)
  | .queryFailed errorString => some ((s.setError .queryFailed errorString).returning false, [])
  | .next => some (s.next on answers)
  | .setPingInterval interval => some (s.setPingInterval on interval, [])
  | .setFeatureFlags flags => some (s.setFeatureFlags on flags, [])
  | .enableFeature feature => some (s.setFeatureFlags on (s.featureFlags ||| feature), [])
  | .disableFeature feature => some (s.setFeatureFlags on (s.featureFlags &&& ~~~feature), [])
  | .moveToThread target hasEventLoop => some (s.moveToThread on target hasEventLoop, [])
  | .task => (s.posted.lookup on).map fun task => ((s.withoutTask on).runTask on task, [])

/-- The code of a call. -/
def entry : DatabaseCall → List (Item DatabaseCode)
  | .openDatabase => [.code .openDatabase]
  | .close => [.code .close]
  | .set update => [.code .closeIfOpen, .code (.assign update)]
  | .setPingInterval interval => [.code (.setPingInterval interval)]
  | .setFeatureFlags flags => [.code (.setFeatureFlags flags)]
  | .enableFeature feature => [.code (.enableFeature feature)]
  | .disableFeature feature => [.code (.disableFeature feature)]
  | .ping => [.code .ping]
  | .onPingTimeout => [.code .onPingTimeout]
  | .execute => [.code .execute]
  | .next => [.code .next]
  | .moveToThread target hasEventLoop => [.code (.moveToThread target hasEventLoop)]
  | .task => [.code .task]

end MySqlDatabase

/-- **The component.** Calls and code are on executors, and what is left of a call stays where it
is. -/
def mySqlDatabase :
    Component MySqlDatabase (ℕ × DatabaseCall) (ℕ × DatabaseCode) MySqlAnswers where
  entry call := (MySqlDatabase.entry call.2).map (Item.tag call.1)
  exec s code answers :=
    (s.exec code.1 answers code.2).map fun next => (next.1, next.2.map (Item.tag code.1))

namespace MySqlDatabase

variable {s s' : MySqlDatabase} {on : ℕ} {code : DatabaseCode} {answers : MySqlAnswers}
  {more : List (Item DatabaseCode)}

/-- What the component does. -/
theorem exec_mySqlDatabase {work : ℕ × DatabaseCode} {rest : List (Item (ℕ × DatabaseCode))}
    (h : mySqlDatabase.exec s work answers = some (s', rest)) :
    ∃ more, s.exec work.1 answers work.2 = some (s', more) ∧
      rest = more.map (Item.tag work.1) := by
  obtain ⟨⟨next, more⟩, hexec, heq⟩ := Option.map_eq_some_iff.mp h
  obtain ⟨rfl, rfl⟩ := Prod.mk.inj heq
  exact ⟨more, hexec, rfl⟩

/-! ### What a piece of code does to the connection -/

/-- The connection is as it was. -/
structure SameConnection (s s' : MySqlDatabase) : Prop where
  handle : s'.handle = s.handle
  created : s'.created = s.created
  closed : s'.closed = s.closed
  changes : s'.changes = s.changes

/-- The connection is closed, and this is told. -/
structure Closes (s s' : MySqlDatabase) (n : ℕ) : Prop where
  before : s.handle = some n
  handle : s'.handle = none
  created : s'.created = s.created
  closed : s'.closed = s.closed ++ [n]
  changes : s'.changes = s.changes ++ [false]

/-- **What code other than `connect` does.** -/
inductive Changes (s s' : MySqlDatabase) : Prop
  | same : SameConnection s s' → Changes s s'
  | closes {n : ℕ} : Closes s s' n → Changes s s'

/-- A database has its own connection. -/
theorem SameConnection.refl (s : MySqlDatabase) : SameConnection s s := ⟨rfl, rfl, rfl, rfl⟩

/-- What keeps the connection twice keeps it. -/
theorem SameConnection.trans {v : MySqlDatabase} (h : SameConnection s v)
    (h' : SameConnection v s') : SameConnection s s' :=
  ⟨h'.handle.trans h.handle, h'.created.trans h.created, h'.closed.trans h.closed,
    h'.changes.trans h.changes⟩

/-- A call of the timer, wherever it is made. -/
theorem sameConnection_callTimer (s : MySqlDatabase) (on : ℕ) (call : PingTimerCall) :
    SameConnection s (s.callTimer on call) := by
  rw [callTimer]
  split
  · cases call with
    | _ => exact ⟨rfl, rfl, rfl, rfl⟩
  · exact ⟨rfl, rfl, rfl, rfl⟩

/-- `configurePingTimer` does not touch the connection. -/
theorem sameConnection_configurePingTimer (s : MySqlDatabase) (on : ℕ) :
    SameConnection s (s.configurePingTimer on) := by
  rw [configurePingTimer]
  split
  · exact sameConnection_callTimer s on .stop
  · have hinterval := sameConnection_callTimer s on (.setInterval s.pingInterval)
    dsimp only
    split
    · exact hinterval
    · exact hinterval.trans (sameConnection_callTimer _ on .start)

/-- A move does not touch the connection. -/
theorem sameConnection_moveToThread (s : MySqlDatabase) (on target : ℕ) (hasEventLoop : Bool) :
    SameConnection s (s.moveToThread on target hasEventLoop) := by
  rw [moveToThread]
  split
  · rw [applyMoveTo]
    split
    · exact .refl s
    · exact ⟨rfl, rfl, rfl, rfl⟩
  · exact ⟨rfl, rfl, rfl, rfl⟩

/-- A posted task does not touch the connection. -/
theorem sameConnection_runTask (s : MySqlDatabase) (on : ℕ) (task : OwnerTask) :
    SameConnection s (s.runTask on task) := by
  cases task with
  | timer call => exact sameConnection_callTimer s on call
  | configure => exact sameConnection_configurePingTimer s on
  | move target hasEventLoop => exact sameConnection_moveToThread s on target hasEventLoop

/-- What comes before a change and leaves the connection as it is. -/
theorem SameConnection.changes_trans {v : MySqlDatabase} (h : SameConnection s v)
    (h' : Changes v s') : Changes s s' := by
  rcases h' with h' | h'
  · exact .same ⟨h'.handle.trans h.handle, h'.created.trans h.created, h'.closed.trans h.closed,
      h'.changes.trans h.changes⟩
  · exact .closes ⟨h.handle ▸ h'.before, h'.handle, h'.created.trans h.created,
      h.closed ▸ h'.closed, h.changes ▸ h'.changes⟩

/-- `closeHandle` closes the handle, if there is one. -/
theorem changes_closeHandle (s : MySqlDatabase) : Changes s (s.closeHandle true).1 := by
  cases hhandle : s.handle with
  | none =>
      rw [closeHandle, hhandle]
      exact .same (.refl s)
  | some handle =>
      rw [closeHandle, hhandle]
      exact .closes ⟨hhandle, rfl, rfl, rfl, rfl⟩

/-- `close` closes the handle, if there is one. -/
theorem changes_close (s : MySqlDatabase) (on : ℕ) : Changes s (s.close on).1 :=
  (sameConnection_callTimer s on .stop).changes_trans (changes_closeHandle _)

/-- A lost connection is closed. -/
theorem changes_handleConnectionLost (s : MySqlDatabase) (on : ℕ) (errorString : String) :
    Changes s (s.handleConnectionLost on errorString).1 := by
  have hstop := sameConnection_callTimer s on .stop
  cases hhandle : s.handle with
  | none =>
      rw [handleConnectionLost, closeHandle, hstop.handle, hhandle]
      exact .same hstop
  | some handle =>
      have hopen : s.isOpen = true := by rw [isOpen, hhandle]; rfl
      rw [handleConnectionLost, hopen]
      exact changes_close s on

/-- `ping` closes the connection where it is lost. -/
theorem changes_ping (s : MySqlDatabase) (on : ℕ) (answers : MySqlAnswers) :
    Changes s (s.ping on answers).1 := by
  rw [ping]
  split
  · exact .same ⟨rfl, rfl, rfl, rfl⟩
  · cases answers.ping with
    | none => exact .same ⟨rfl, rfl, rfl, rfl⟩
    | some text =>
        have hsame : SameConnection s
            (s.setError .openFailed (mysqlError text "MySQL ping failed")) :=
          ⟨rfl, rfl, rfl, rfl⟩
        exact hsame.changes_trans
          (changes_handleConnectionLost _ on (mysqlError text "MySQL ping failed"))

/-- The rest of `open` closes the connection where it fails. -/
theorem changes_openDatabase (s : MySqlDatabase) (on : ℕ) (answers : MySqlAnswers) :
    Changes s (s.openDatabase on answers).1 := by
  rw [openDatabase]
  split
  · cases answers.ping with
    | none =>
        obtain ⟨hhandle, hcreated, hclosed, hchanges⟩ :=
          sameConnection_configurePingTimer s.clearError on
        exact .same ⟨hhandle, hcreated, hclosed, hchanges⟩
    | some text =>
        have hsame : SameConnection s
            (s.setError .openFailed (mysqlError text "MySQL ping failed")) :=
          ⟨rfl, rfl, rfl, rfl⟩
        exact hsame.changes_trans (changes_closeHandle _)
  · exact .same (.refl s)

/-- A query that fails closes the connection where it is lost. -/
theorem changes_failQuery (s : MySqlDatabase) (on error : ℕ) (message : String) :
    Changes s (s.failQuery on error message).1 := by
  rw [failQuery]
  split
  · exact changes_handleConnectionLost s on message
  · exact .same (.refl s)

/-- `execute` closes the connection where it is lost. -/
theorem changes_execute (s : MySqlDatabase) (on : ℕ) (answers : MySqlAnswers) :
    Changes s (s.execute on answers).1 := by
  rw [execute]
  split
  · exact .same ⟨rfl, rfl, rfl, rfl⟩
  · cases answers.query with
    | succeeded => exact .same ⟨rfl, rfl, rfl, rfl⟩
    | failed error text => exact changes_failQuery s on error _
    | storeFailed error text => exact changes_failQuery s on error _

/-- `next` closes the connection where it is lost. -/
theorem changes_next (s : MySqlDatabase) (on : ℕ) (answers : MySqlAnswers) :
    Changes s (s.next on answers).1 := by
  rw [next]
  cases answers.fetch with
  | none => exact .same ⟨rfl, rfl, rfl, rfl⟩
  | some failure =>
      dsimp only
      split
      · exact changes_failQuery s on _ _
      · exact .same ⟨rfl, rfl, rfl, rfl⟩

/-- **The step lemma for the connection.** -/
theorem exec_changes (hs : s.exec on answers code = some (s', more)) (hcode : code ≠ .connect) :
    Changes s s' := by
  cases code with
  | connect => exact absurd rfl hcode
  | openDatabase =>
      have heq : (s.openDatabase on answers).1 = s' := congrArg Prod.fst (Option.some.inj hs)
      exact heq ▸ changes_openDatabase s on answers
  | close =>
      have heq : (s.close on).1 = s' := congrArg Prod.fst (Option.some.inj hs)
      exact heq ▸ changes_close s on
  | ping =>
      have heq : (s.ping on answers).1 = s' := congrArg Prod.fst (Option.some.inj hs)
      exact heq ▸ changes_ping s on answers
  | execute =>
      have heq : (s.execute on answers).1 = s' := congrArg Prod.fst (Option.some.inj hs)
      exact heq ▸ changes_execute s on answers
  | next =>
      have heq : (s.next on answers).1 = s' := congrArg Prod.fst (Option.some.inj hs)
      exact heq ▸ changes_next s on answers
  | closeIfOpen =>
      have heq : (if s.isOpen then s.close on else (s, [])).1 = s' :=
        congrArg Prod.fst (Option.some.inj hs)
      rw [← heq]
      split
      · exact changes_close s on
      · exact .same (.refl s)
  | onPingTimeout =>
      have heq : (if !s.hasFeature pingTimeout || !s.isOpen then (s.configurePingTimer on, [])
          else s.ping on answers).1 = s' := congrArg Prod.fst (Option.some.inj hs)
      rw [← heq]
      split
      · exact .same (sameConnection_configurePingTimer s on)
      · exact changes_ping s on answers
  | assign update =>
      obtain ⟨rfl, -⟩ := Prod.mk.inj (Option.some.inj hs)
      cases update with
      | _ => exact .same ⟨rfl, rfl, rfl, rfl⟩
  | opened | setPingInterval _ | setFeatureFlags _ | enableFeature _ | disableFeature _ =>
      obtain ⟨rfl, -⟩ := Prod.mk.inj (Option.some.inj hs)
      obtain ⟨hhandle, hcreated, hclosed, hchanges⟩ := sameConnection_configurePingTimer _ on
      exact .same ⟨hhandle, hcreated, hclosed, hchanges⟩
  | moveToThread target hasEventLoop =>
      obtain ⟨rfl, -⟩ := Prod.mk.inj (Option.some.inj hs)
      exact .same (sameConnection_moveToThread s on target hasEventLoop)
  | task =>
      obtain ⟨task, -, heq⟩ := Option.map_eq_some_iff.mp hs
      obtain ⟨rfl, -⟩ := Prod.mk.inj heq
      obtain ⟨hhandle, hcreated, hclosed, hchanges⟩ :=
        sameConnection_runTask (s.withoutTask on) on task
      exact .same ⟨hhandle, hcreated, hclosed, hchanges⟩
  | returns _ | lostReport _ | lostReconnect | queryFailed _ =>
      obtain ⟨rfl, -⟩ := Prod.mk.inj (Option.some.inj hs)
      exact .same ⟨rfl, rfl, rfl, rfl⟩

/-- **What `connect` comes to.** A handle that is still there is closed, and nobody is told. -/
inductive Connects (s s' : MySqlDatabase) (more : List (Item DatabaseCode)) : Prop
  | refused : s'.handle = none → s'.created = s.created →
      s'.closed = s.closed ++ s.handle.toList → s'.changes = s.changes → Connects s s' more
  | failed : s'.handle = none → s'.created = s.created + 1 →
      s'.closed = s.closed ++ s.handle.toList ++ [s.created] → s'.changes = s.changes →
      Connects s s' more
  | opened : s'.handle = some s.created → s'.created = s.created + 1 →
      s'.closed = s.closed ++ s.handle.toList → s'.changes = s.changes ++ [true] →
      more = [.slots, .code .opened] → Connects s s' more

/-- `closeHandle` without a signal changes the handle only. -/
theorem closeHandle_silent (s : MySqlDatabase) : (s.closeHandle false).1 =
    { s with handle := none, closed := s.closed ++ s.handle.toList } := by
  obtain ⟨owner, options, handle⟩ := s
  cases handle with
  | none => simp [closeHandle]
  | some handle => simp [closeHandle]

/-- `connect` makes a connection or none. -/
theorem connects_connect (s : MySqlDatabase) (answers : MySqlAnswers) :
    Connects s (s.connect answers).1 (s.connect answers).2 := by
  rw [connect, closeHandle_silent]
  dsimp only
  split
  · exact .refused rfl rfl rfl rfl
  · split
    · exact .refused rfl rfl rfl rfl
    · cases answers.connect with
      | some text => exact .failed rfl rfl rfl rfl
      | none => exact .opened rfl rfl rfl rfl rfl

/-- **The step lemma**, for all code. -/
theorem exec_cases (hs : s.exec on answers code = some (s', more)) :
    code ≠ .connect ∧ Changes s s' ∨ code = .connect ∧ Connects s s' more := by
  by_cases hcode : code = .connect
  · subst hcode
    have heq : s.connect answers = (s', more) := Option.some.inj hs
    have hconnects := connects_connect s answers
    rw [heq] at hconnects
    exact .inr ⟨rfl, hconnects⟩
  · exact .inl ⟨hcode, exec_changes hs hcode⟩

/-! ### The handles -/

/-- Every handle there was has been closed once, but for the one that is open. -/
def HandlesKept (s : MySqlDatabase) : Prop :=
  (s.closed ++ s.handle.toList).Perm (List.range s.created)

/-- Every piece of code keeps the handles. -/
theorem HandlesKept.exec (h : s.HandlesKept) (hs : s.exec on answers code = some (s', more)) :
    s'.HandlesKept := by
  rw [HandlesKept] at h ⊢
  rcases exec_cases hs with ⟨-, hsame | hcloses⟩ | ⟨-, hconnects⟩
  · rwa [hsame.handle, hsame.created, hsame.closed]
  · rw [hcloses.before] at h
    rw [hcloses.handle, hcloses.created, hcloses.closed, Option.toList_none, List.append_nil]
    exact h
  · cases hconnects with
    | refused hhandle hcreated hclosed _ =>
        rw [hhandle, hcreated, hclosed, Option.toList_none, List.append_nil]
        exact h
    | failed hhandle hcreated hclosed _ =>
        rw [hhandle, hcreated, hclosed, Option.toList_none, List.append_nil, List.range_succ]
        exact h.append_right _
    | opened hhandle hcreated hclosed _ _ =>
        rw [hhandle, hcreated, hclosed, Option.toList_some, List.range_succ]
        exact h.append_right _

/-- `~MySqlDatabase`, on the owner. -/
def destroy (s : MySqlDatabase) : MySqlDatabase :=
  ((s.callTimer s.owner .stop).closeHandle false).1

/-- **No handle is lost, and none is closed twice**, however the slots call back. When the database
is destroyed, all have been closed. -/
theorem handles_closed_once {options : ConnectionOptions}
    {c : Activity MySqlDatabase (ℕ × DatabaseCode)}
    {es : List (Activity.Event (ℕ × DatabaseCall) MySqlAnswers)}
    (h : Reaches mySqlDatabase.Step ⟨{ options := options }, []⟩ es c) :
    c.state.HandlesKept ∧ c.state.destroy.handle = none ∧
      c.state.destroy.closed.Perm (List.range c.state.created) := by
  have hkept : c.state.HandlesKept := by
    refine Component.invariant (P := mySqlDatabase) (I := HandlesKept) ?_ h (List.Perm.refl [])
    intro s work answers s' rest hs hexec
    obtain ⟨more, hexec, -⟩ := exec_mySqlDatabase hexec
    exact hs.exec hexec
  have hstop := sameConnection_callTimer c.state c.state.owner .stop
  rw [destroy, closeHandle_silent, hstop.closed, hstop.handle]
  exact ⟨hkept, rfl, hkept⟩

/-- The options of a database with a name. -/
def exampleOptions : ConnectionOptions := { databaseName := "test" }

/-- What the library answers when the connection is gone. -/
def lost : MySqlAnswers := { ping := some "gone" }

/-- An `open()` that finds its connection gone, with a slot that opens the database before it does:
three handles are created, and what the signal tells at last is none of a change. -/
theorem handles_closed_once_example : ∃ es c,
    Reaches mySqlDatabase.Step ⟨{ options := exampleOptions }, []⟩ es c ∧
      c.state.changes = [true, false, true, true] ∧ c.state.closed = [0, 1] ∧
      (c.state.HandlesKept ∧ c.state.destroy.handle = none ∧
        c.state.destroy.closed.Perm (List.range c.state.created)) := by
  have hnil := @Component.idle_nil (ℕ × DatabaseCode)
  have hslots := @Component.idle_slots (ℕ × DatabaseCode)
  have hrun : Reaches mySqlDatabase.Step ⟨{ options := exampleOptions }, []⟩
      [.call (0, .openDatabase), .exec {}, .exec {}, .slotsReturn, .exec {},
        .call (0, .openDatabase), .exec lost, .call (0, .openDatabase), .exec {}, .exec {},
        .slotsReturn, .exec {}, .slotsReturn, .exec {}] _ :=
    .cons trivial (.call _ hnil) <|
    .cons trivial (.exec rfl) <| .cons trivial (.exec rfl) <|
    .cons trivial .slotsReturn <| .cons trivial (.exec rfl) <|
    .cons trivial (.call _ hnil) <| .cons trivial (.exec rfl) <|
    .cons trivial (.call _ (hslots _)) <|
    .cons trivial (.exec rfl) <| .cons trivial (.exec rfl) <|
    .cons trivial .slotsReturn <| .cons trivial (.exec rfl) <|
    .cons trivial .slotsReturn <| .cons trivial (.exec rfl) <| .nil _
  exact ⟨_, _, hrun, rfl, rfl, handles_closed_once hrun⟩

/-! ### The timer -/

/-- A database that is open and wants to be pinged has its timer running, with its interval, or a
task waits that starts the timer. -/
def PingRuns (s : MySqlDatabase) : Prop :=
  s.isOpen = true → s.hasFeature pingTimeout = true →
    s.pingActive = true ∧ s.timerInterval = some s.pingInterval ∨
      ∃ on, (on, OwnerTask.configure) ∈ s.posted

/-- The tasks that wait are those of moves. -/
def PostsConfigure (s : MySqlDatabase) : Prop := ∀ task ∈ s.posted, task.2 = .configure

/-- A closed database needs no ping timer. -/
theorem pingRuns_of_closed (h : s.handle = none) : s.PingRuns := fun hopen => by
  rw [isOpen, h] at hopen
  cases hopen

/-- The owner calls its timer at once. -/
theorem callTimer_owner (hon : on = s.owner) (call : PingTimerCall) :
    s.callTimer on call = s.applyTimer call := if_pos hon

/-- On its owner `configurePingTimer` acts at once. -/
theorem configurePingTimer_owner (hon : on = s.owner) : s.configurePingTimer on =
    if !s.isOpen || !s.hasFeature pingTimeout then { s with pingActive := false }
    else { s with timerInterval := some s.pingInterval, pingActive := true } := by
  have hinterval : s.callTimer on (.setInterval s.pingInterval) =
      { s with timerInterval := some s.pingInterval } := callTimer_owner hon _
  have hstart : callTimer { s with timerInterval := some s.pingInterval } on .start =
      { s with timerInterval := some s.pingInterval, pingActive := true } := if_pos hon
  rw [configurePingTimer, callTimer_owner hon, hinterval]
  dsimp only
  rw [hstart]
  split
  · rfl
  · split
    · rename_i hactive
      rw [← hactive]
    · rfl

/-- Behind it the ping timer runs as it should. -/
theorem pingRuns_configurePingTimer (hon : on = s.owner) : (s.configurePingTimer on).PingRuns := by
  rw [configurePingTimer_owner hon]
  split
  · rename_i hoff
    intro hopen hfeature
    have hwanted : s.isOpen = true ∧ s.hasFeature pingTimeout = true := ⟨hopen, hfeature⟩
    rw [hwanted.1, hwanted.2] at hoff
    cases hoff
  · exact fun _ _ => .inl ⟨rfl, rfl⟩

/-- It posts nothing there. -/
theorem posted_configurePingTimer (hon : on = s.owner) :
    (s.configurePingTimer on).posted = s.posted := by
  rw [configurePingTimer_owner hon]
  split
  · rfl
  · rfl

/-- A handle that is closed, silently or not. -/
theorem closeHandle_fst (s : MySqlDatabase) (emitSignal : Bool) :
    (s.closeHandle emitSignal).1.handle = none ∧
      (s.closeHandle emitSignal).1.posted = s.posted := by
  cases hhandle : s.handle with
  | none =>
      rw [closeHandle, hhandle]
      exact ⟨hhandle, rfl⟩
  | some handle =>
      rw [closeHandle, hhandle]
      cases emitSignal with
      | _ => exact ⟨rfl, rfl⟩

/-- **What code of the owner keeps**: no task waits but those of moves, and the timer runs. -/
structure KeepsPing (s s' : MySqlDatabase) : Prop where
  posted : s'.posted = s.posted
  runs : s.PingRuns → s'.PingRuns

/-- A database keeps its own ping timer. -/
theorem KeepsPing.refl (s : MySqlDatabase) : KeepsPing s s := ⟨rfl, id⟩

/-- On its owner `configurePingTimer` keeps the ping timer right. -/
theorem keepsPing_configurePingTimer (hon : on = s.owner) :
    KeepsPing s (s.configurePingTimer on) :=
  ⟨posted_configurePingTimer hon, fun _ => pingRuns_configurePingTimer hon⟩

/-- So does `closeHandle`. -/
theorem keepsPing_closeHandle (s : MySqlDatabase) (emitSignal : Bool) :
    KeepsPing s (s.closeHandle emitSignal).1 :=
  ⟨(closeHandle_fst s emitSignal).2, fun _ => pingRuns_of_closed (closeHandle_fst s emitSignal).1⟩

/-- The timer is stopped for a database that is about to be closed. -/
theorem keepsPing_stop_closeHandle (hon : on = s.owner) (emitSignal : Bool) :
    KeepsPing s ((s.callTimer on .stop).closeHandle emitSignal).1 := by
  obtain ⟨hhandle, hposted⟩ := closeHandle_fst (s.callTimer on .stop) emitSignal
  rw [callTimer_owner hon] at *
  exact ⟨hposted, fun _ => pingRuns_of_closed hhandle⟩

/-- So does `ping`. -/
theorem keepsPing_ping (hon : on = s.owner) : KeepsPing s (s.ping on answers).1 := by
  rw [ping]
  split
  · exact ⟨rfl, id⟩
  · cases answers.ping with
    | none => exact ⟨rfl, id⟩
    | some text =>
        have hlost := @keepsPing_stop_closeHandle
          (s.setError .openFailed (mysqlError text "MySQL ping failed")) on hon s.isOpen
        exact ⟨hlost.posted, hlost.runs⟩

/-- So does the rest of `open`. -/
theorem keepsPing_openDatabase (hon : on = s.owner) :
    KeepsPing s (s.openDatabase on answers).1 := by
  rw [openDatabase]
  split
  · cases answers.ping with
    | none =>
        have hconfigured := @keepsPing_configurePingTimer s.clearError on hon
        exact ⟨hconfigured.posted, hconfigured.runs⟩
    | some text =>
        have hclosed := keepsPing_closeHandle
          (s.setError .openFailed (mysqlError text "MySQL ping failed")) true
        exact ⟨hclosed.posted, hclosed.runs⟩
  · exact .refl s

/-- So does a query that fails. -/
theorem keepsPing_failQuery (hon : on = s.owner) (error : ℕ) (message : String) :
    KeepsPing s (s.failQuery on error message).1 := by
  rw [failQuery]
  split
  · exact keepsPing_stop_closeHandle hon s.isOpen
  · exact .refl s

/-- So does `execute`. -/
theorem keepsPing_execute (hon : on = s.owner) : KeepsPing s (s.execute on answers).1 := by
  rw [execute]
  split
  · exact ⟨rfl, id⟩
  · cases answers.query with
    | succeeded => exact ⟨rfl, id⟩
    | failed error text => exact keepsPing_failQuery hon error _
    | storeFailed error text => exact keepsPing_failQuery hon error _

/-- So does `next`. -/
theorem keepsPing_next (hon : on = s.owner) : KeepsPing s (s.next on answers).1 := by
  rw [next]
  cases answers.fetch with
  | none => exact ⟨rfl, id⟩
  | some failure =>
      dsimp only
      split
      · exact keepsPing_failQuery hon _ _
      · exact ⟨rfl, id⟩

/-- A timer that is to be started again by a task. -/
theorem pingRuns_applyMoveTo (h : s.PingRuns) (target : ℕ) :
    (s.applyMoveTo target true).PingRuns := by
  rw [applyMoveTo]
  split
  · exact h
  · intro hopen hfeature
    refine .inr ?_
    dsimp only
    rw [Bool.and_true]
    rcases h hopen hfeature with ⟨hactive, -⟩ | ⟨on, hwaits⟩
    · rw [if_pos hactive]
      exact ⟨target, List.mem_append_right _ List.mem_cons_self⟩
    · split
      · exact ⟨on, List.mem_append_left _ hwaits⟩
      · exact ⟨on, hwaits⟩

/-- A move posts tasks that configure the timer only. -/
theorem postsConfigure_applyMoveTo (h : s.PostsConfigure) (target : ℕ) (hasEventLoop : Bool) :
    (s.applyMoveTo target hasEventLoop).PostsConfigure := by
  rw [applyMoveTo]
  split
  · exact h
  · intro task hmem
    dsimp only at hmem
    split at hmem
    · rcases List.mem_append.mp hmem with hold | hnew
      · exact h task hold
      · rw [List.mem_singleton.mp hnew]
    · exact h task hmem

/-- The first task of an executor. -/
theorem mem_of_lookup {task : OwnerTask} (h : s.posted.lookup on = some task) :
    (on, task) ∈ s.posted := by
  obtain ⟨before, after, heq, -⟩ := List.lookup_eq_some_iff.mp h
  rw [heq]
  exact List.mem_append_right _ List.mem_cons_self

/-- **Code of the owner keeps the timer running**, or leaves code that starts it. -/
theorem PostsConfigure.exec (hposts : s.PostsConfigure) (hon : on = s.owner)
    (hmove : ∀ target, code ≠ .moveToThread target false)
    (hs : s.exec on answers code = some (s', more)) :
    s'.PostsConfigure ∧ (s.PingRuns ∨ code = .opened → s'.PingRuns ∨ .code .opened ∈ more) := by
  have hconfigured {v : MySqlDatabase} (hv : on = v.owner) (heq : v.posted = s.posted) :
      (v.configurePingTimer on).PostsConfigure ∧ (s.PingRuns ∨ code = .opened →
        (v.configurePingTimer on).PingRuns ∨ .code .opened ∈ more) := by
    refine ⟨fun task hmem => hposts task ?_, fun _ => .inl (pingRuns_configurePingTimer hv)⟩
    rwa [posted_configurePingTimer hv, heq] at hmem
  by_cases hopened : code = .opened
  · subst hopened
    obtain ⟨rfl, -⟩ := Prod.mk.inj (Option.some.inj hs)
    exact hconfigured hon rfl
  have hkept {v : MySqlDatabase} (hk : KeepsPing s v) : v.PostsConfigure ∧
      (s.PingRuns ∨ code = .opened → v.PingRuns ∨ .code .opened ∈ more) :=
    ⟨fun task hmem => hposts task (hk.posted ▸ hmem),
      fun h => .inl (hk.runs (h.resolve_right hopened))⟩
  cases code with
  | opened => exact absurd rfl hopened
  | connect =>
      have hposted : s'.posted = s.posted := by
        have heq : (s.connect answers).1 = s' := congrArg Prod.fst (Option.some.inj hs)
        rw [← heq, connect, closeHandle_silent]
        dsimp only
        split
        · rfl
        · split
          · rfl
          · cases answers.connect with
            | _ => rfl
      refine ⟨fun task hmem => hposts task (hposted ▸ hmem), fun _ => ?_⟩
      rcases exec_cases hs with ⟨hne, -⟩ | ⟨-, hconnects⟩
      · exact absurd rfl hne
      · cases hconnects with
        | refused hhandle _ _ _ => exact .inl (pingRuns_of_closed hhandle)
        | failed hhandle _ _ _ => exact .inl (pingRuns_of_closed hhandle)
        | opened _ _ _ _ hmore => exact .inr (hmore ▸ List.mem_cons_of_mem _ List.mem_cons_self)
  | openDatabase =>
      have heq : (s.openDatabase on answers).1 = s' := congrArg Prod.fst (Option.some.inj hs)
      exact heq ▸ hkept (keepsPing_openDatabase hon)
  | close =>
      have heq : (s.close on).1 = s' := congrArg Prod.fst (Option.some.inj hs)
      exact heq ▸ hkept (keepsPing_stop_closeHandle hon true)
  | closeIfOpen =>
      have heq : (if s.isOpen then s.close on else (s, [])).1 = s' :=
        congrArg Prod.fst (Option.some.inj hs)
      rw [← heq]
      split
      · exact hkept (keepsPing_stop_closeHandle hon true)
      · exact hkept (.refl s)
  | ping =>
      have heq : (s.ping on answers).1 = s' := congrArg Prod.fst (Option.some.inj hs)
      exact heq ▸ hkept (keepsPing_ping hon)
  | onPingTimeout =>
      have heq : (if !s.hasFeature pingTimeout || !s.isOpen then (s.configurePingTimer on, [])
          else s.ping on answers).1 = s' := congrArg Prod.fst (Option.some.inj hs)
      rw [← heq]
      split
      · exact hconfigured hon rfl
      · exact hkept (keepsPing_ping hon)
  | execute =>
      have heq : (s.execute on answers).1 = s' := congrArg Prod.fst (Option.some.inj hs)
      exact heq ▸ hkept (keepsPing_execute hon)
  | next =>
      have heq : (s.next on answers).1 = s' := congrArg Prod.fst (Option.some.inj hs)
      exact heq ▸ hkept (keepsPing_next hon)
  | assign update =>
      obtain ⟨rfl, -⟩ := Prod.mk.inj (Option.some.inj hs)
      cases update with
      | _ => exact hkept ⟨rfl, id⟩
  | setPingInterval _ | setFeatureFlags _ | enableFeature _ | disableFeature _ =>
      obtain ⟨rfl, -⟩ := Prod.mk.inj (Option.some.inj hs)
      exact hconfigured hon rfl
  | task =>
      obtain ⟨task, hfirst, heq⟩ := Option.map_eq_some_iff.mp hs
      obtain ⟨rfl, -⟩ := Prod.mk.inj heq
      obtain rfl : task = .configure := hposts _ (mem_of_lookup hfirst)
      have hrest : on = (s.withoutTask on).owner := hon
      refine ⟨fun task hmem => hposts task ?_, fun _ => .inl (pingRuns_configurePingTimer hrest)⟩
      rw [runTask, posted_configurePingTimer hrest] at hmem
      exact List.mem_of_mem_eraseP hmem
  | moveToThread target hasEventLoop =>
      obtain ⟨rfl, -⟩ := Prod.mk.inj (Option.some.inj hs)
      rw [moveToThread, if_pos hon]
      refine ⟨postsConfigure_applyMoveTo hposts target hasEventLoop, fun h => ?_⟩
      cases hasEventLoop with
      | false => exact absurd rfl (hmove target)
      | true => exact .inl (pingRuns_applyMoveTo (h.resolve_right hopened) target)
  | returns _ | lostReport _ | lostReconnect | queryFailed _ =>
      obtain ⟨rfl, -⟩ := Prod.mk.inj (Option.some.inj hs)
      exact hkept ⟨rfl, id⟩

/-- A piece of code runs on the owner, and the database does not move to an executor without an
event loop. -/
def OnOwner (s : MySqlDatabase) (work : ℕ × DatabaseCode) : Prop :=
  work.1 = s.owner ∧ ∀ target, work.2 ≠ .moveToThread target false

/-- **The timer runs.** In every run in which all code runs on the owner and the database moves only
to executors with an event loop, where no call is under way and no task waits: if the database is
open and wants to be pinged, its timer is running, with its interval. -/
theorem ping_timer_runs {options : ConnectionOptions} {s : MySqlDatabase}
    {es : List (Activity.Event (ℕ × DatabaseCall) MySqlAnswers)}
    (h : Run mySqlDatabase.Step (Component.Meets OnOwner) ⟨{ options := options }, []⟩ es ⟨s, []⟩)
    (hposted : s.posted = []) (hopen : s.isOpen = true)
    (hfeature : s.hasFeature pingTimeout = true) :
    s.pingActive = true ∧ s.timerInterval = some s.pingInterval := by
  -- the tasks that wait are those of moves throughout the run
  have hposts : Run mySqlDatabase.Step
      (fun c e => Component.Meets OnOwner c e ∧ c.state.PostsConfigure)
      ⟨{ options := options }, []⟩ es ⟨s, []⟩ := by
    refine h.strengthen (I := fun c => c.state.PostsConfigure) ?_ (List.forall_mem_nil _)
    intro c e c' hc hmeets hst
    refine ⟨?_, hmeets, hc⟩
    cases hst with
    | call => exact hc
    | slotsReturn => exact hc
    | @exec _ _ work _ _ stack hexec =>
        obtain ⟨more, hexec, -⟩ := exec_mySqlDatabase hexec
        obtain ⟨hon, hmove⟩ := hmeets work stack rfl
        exact (hc.exec hon hmove hexec).1
  have howed : Component.Owed PingRuns
      (fun work : ℕ × DatabaseCode => work.2 = .opened) ⟨s, []⟩ := by
    refine Component.owed ?_ hposts (.inl (pingRuns_of_closed rfl))
    rintro c work answers s' rest stack ⟨hmeets, hc⟩ hstack hpays hexec
    obtain ⟨more, hcode, rfl⟩ := exec_mySqlDatabase hexec
    obtain ⟨hon, hmove⟩ := hmeets work stack hstack
    refine ((hc.exec hon hmove hcode).2 hpays).imp_right fun hmem => ?_
    exact ⟨(work.1, .opened), rfl, Component.mem_map_tag work.1 hmem⟩
  rcases howed with hruns | ⟨work, -, hmem⟩
  · refine (hruns hopen hfeature).resolve_right fun ⟨on, hwaits⟩ => ?_
    rw [hposted] at hwaits
    exact absurd hwaits List.not_mem_nil
  · exact absurd hmem List.not_mem_nil

/-- The timer runs when the database has been opened in a slot of the signal that it was closed, and
has moved to another executor, which has run the task of the move. -/
theorem ping_timer_runs_example : ∃ es s,
    Run mySqlDatabase.Step (Component.Meets OnOwner) ⟨{ options := exampleOptions }, []⟩ es
        ⟨s, []⟩ ∧
      s.changes = [true, false, true] ∧ s.owner = 1 ∧
      (s.pingActive = true ∧ s.timerInterval = some s.pingInterval) := by
  have hnil := @Component.idle_nil (ℕ × DatabaseCode)
  have hslots := @Component.idle_slots (ℕ × DatabaseCode)
  have hidle {c : Activity MySqlDatabase (ℕ × DatabaseCode)}
      (e : Activity.Event (ℕ × DatabaseCall) MySqlAnswers) (hstack : Component.Idle c.stack) :
      Component.Meets OnOwner c e := Component.meets_of_idle hstack e
  have hcode {c : Activity MySqlDatabase (ℕ × DatabaseCode)} {k : DatabaseCode}
      {rest : List (Item (ℕ × DatabaseCode))}
      (e : Activity.Event (ℕ × DatabaseCall) MySqlAnswers)
      (hstack : c.stack = .code (c.state.owner, k) :: rest)
      (hk : ∀ target, k ≠ .moveToThread target false) : Component.Meets OnOwner c e :=
    Component.meets_code hstack ⟨rfl, hk⟩ e
  have hrun : Run mySqlDatabase.Step (Component.Meets OnOwner)
      ⟨{ options := exampleOptions }, []⟩
      [.call (0, .enableFeature pingTimeout), .exec {}, .call (0, .openDatabase), .exec {},
        .exec {}, .slotsReturn, .exec {}, .call (0, .close), .exec {}, .call (0, .openDatabase),
        .exec {}, .exec {}, .slotsReturn, .exec {}, .slotsReturn, .call (0, .moveToThread 1 true),
        .exec {}, .call (1, .task), .exec {}] _ :=
    .cons (hidle _ hnil) (.call _ hnil) <|
    .cons (hcode _ rfl fun _ => DatabaseCode.noConfusion) (.exec rfl) <|
    .cons (hidle _ hnil) (.call _ hnil) <|
    .cons (hcode _ rfl fun _ => DatabaseCode.noConfusion) (.exec rfl) <|
    .cons (hcode _ rfl fun _ => DatabaseCode.noConfusion) (.exec rfl) <|
    .cons (hidle _ (hslots _)) .slotsReturn <|
    .cons (hcode _ rfl fun _ => DatabaseCode.noConfusion) (.exec rfl) <|
    .cons (hidle _ hnil) (.call _ hnil) <|
    .cons (hcode _ rfl fun _ => DatabaseCode.noConfusion) (.exec rfl) <|
    .cons (hidle _ (hslots _)) (.call _ (hslots _)) <|
    .cons (hcode _ rfl fun _ => DatabaseCode.noConfusion) (.exec rfl) <|
    .cons (hcode _ rfl fun _ => DatabaseCode.noConfusion) (.exec rfl) <|
    .cons (hidle _ (hslots _)) .slotsReturn <|
    .cons (hcode _ rfl fun _ => DatabaseCode.noConfusion) (.exec rfl) <|
    .cons (hidle _ (hslots _)) .slotsReturn <|
    .cons (hidle _ hnil) (.call _ hnil) <|
    .cons (hcode _ rfl fun _ heq => Bool.noConfusion (DatabaseCode.moveToThread.inj heq).2)
      (.exec rfl) <|
    .cons (hidle _ hnil) (.call _ hnil) <|
    .cons (hcode _ rfl fun _ => DatabaseCode.noConfusion) (.exec rfl) <| .nil _
  exact ⟨_, _, hrun, rfl, rfl, ping_timer_runs hrun rfl rfl rfl⟩

/-- **Code beside the owner stops the timer for good.** A slot moves the database and closes it,
both on the old executor; the new owner opens it before it has run the calls of the timer that the
old one has posted. -/
theorem ping_timer_stopped : ∃ es s,
    Reaches mySqlDatabase.Step ⟨{ options := exampleOptions }, []⟩ es ⟨s, []⟩ ∧ s.posted = [] ∧
      s.isOpen = true ∧ s.hasFeature pingTimeout = true ∧ s.pingActive = false := by
  have hnil := @Component.idle_nil (ℕ × DatabaseCode)
  have hslots := @Component.idle_slots (ℕ × DatabaseCode)
  have hrun : Reaches mySqlDatabase.Step ⟨{ options := exampleOptions }, []⟩
      [.call (0, .enableFeature pingTimeout), .exec {}, .call (0, .openDatabase), .exec {},
        .exec {}, .call (0, .moveToThread 1 true), .exec {}, .call (0, .close), .exec {},
        .slotsReturn, .slotsReturn, .exec {}, .call (1, .openDatabase), .exec {}, .exec {},
        .slotsReturn, .exec {}, .call (1, .task), .exec {}, .call (1, .task), .exec {}] _ :=
    .cons trivial (.call _ hnil) <| .cons trivial (.exec rfl) <|
    .cons trivial (.call _ hnil) <| .cons trivial (.exec rfl) <| .cons trivial (.exec rfl) <|
    .cons trivial (.call _ (hslots _)) <| .cons trivial (.exec rfl) <|
    .cons trivial (.call _ (hslots _)) <| .cons trivial (.exec rfl) <|
    .cons trivial .slotsReturn <| .cons trivial .slotsReturn <| .cons trivial (.exec rfl) <|
    .cons trivial (.call _ hnil) <| .cons trivial (.exec rfl) <| .cons trivial (.exec rfl) <|
    .cons trivial .slotsReturn <| .cons trivial (.exec rfl) <|
    .cons trivial (.call _ hnil) <| .cons trivial (.exec rfl) <|
    .cons trivial (.call _ hnil) <| .cons trivial (.exec rfl) <| .nil _
  exact ⟨_, _, hrun, rfl, rfl, rfl, rfl⟩

/-! ### What the signal tells -/

/-- **What `connectionChanged` has told**: the values alternate, beginning with `true`, and the last
one says whether the database is open. -/
structure ChangesTell (s : MySqlDatabase) : Prop where
  alternate : (false :: s.changes).IsChain (· ≠ ·)
  last : s.changes.getLast?.getD false = s.isOpen

/-- One more change alternates exactly if it differs from the last one. -/
theorem alternate_snoc {changes : List Bool} {b : Bool} :
    (false :: (changes ++ [b])).IsChain (· ≠ ·) ↔
      (false :: changes).IsChain (· ≠ ·) ∧ changes.getLast?.getD false ≠ b := by
  rw [← List.cons_append, List.isChain_append]
  have hlast : (false :: changes).getLast? = some (changes.getLast?.getD false) :=
    List.getLast?_cons
  rw [hlast]
  simp

/-- Nothing is told where the database is opened or closed for good. -/
theorem ChangesTell.exec_iff (h : s.ChangesTell) (hs : s.exec on answers code = some (s', more)) :
    s'.ChangesTell ↔ (code = .connect → s.handle = none) := by
  obtain ⟨halternate, hlast⟩ := h
  rcases exec_cases hs with ⟨hne, hsame | hcloses⟩ | ⟨rfl, hconnects⟩
  · refine iff_of_true ⟨?_, ?_⟩ fun heq => absurd heq hne
    · rw [hsame.changes]
      exact halternate
    · rw [hsame.changes, isOpen, hsame.handle]
      exact hlast
  · refine iff_of_true ⟨?_, ?_⟩ fun heq => absurd heq hne
    · rw [hcloses.changes, alternate_snoc, hlast, isOpen, hcloses.before]
      exact ⟨halternate, Bool.true_eq_false.mp⟩
    · rw [hcloses.changes, isOpen, hcloses.handle, List.getLast?_concat]
      rfl
  · have hopen : s.changes.getLast?.getD false = false ↔ s.handle = none := by
      rw [hlast, isOpen]
      cases s.handle with
      | none => exact iff_of_true rfl rfl
      | some _ => exact iff_of_false Bool.true_eq_false.mp fun heq => by cases heq
    cases hconnects with
    | refused hhandle _ _ hchanges | failed hhandle _ _ hchanges =>
        constructor
        · intro h' _
          have hnow := h'.last
          rwa [hchanges, isOpen, hhandle, Option.isSome_none, hopen] at hnow
        · intro hguard
          refine ⟨hchanges ▸ halternate, ?_⟩
          rw [hchanges, isOpen, hhandle, Option.isSome_none, hopen]
          exact hguard rfl
    | opened hhandle _ _ hchanges _ =>
        have hnow : s'.changes.getLast?.getD false = s'.isOpen := by
          rw [hchanges, isOpen, hhandle, List.getLast?_concat]
          rfl
        have hbefore : (false :: s'.changes).IsChain (· ≠ ·) ↔ s.handle = none := by
          rw [hchanges, alternate_snoc, ← hopen, ne_eq, Bool.not_eq_true]
          exact ⟨And.right, fun heq => ⟨halternate, heq⟩⟩
        exact ⟨fun h' _ => hbefore.mp h'.alternate,
          fun hguard => ⟨hbefore.mpr (hguard rfl), hnow⟩⟩

/-- **What the signal tells is true** throughout a run, if and only if no `open()` finds the
database open when it comes to connect. -/
theorem changes_tell_iff (options : ConnectionOptions)
    (c : Activity MySqlDatabase (ℕ × DatabaseCode))
    (es : List (Activity.Event (ℕ × DatabaseCall) MySqlAnswers)) :
    (Run mySqlDatabase.Step (Component.Holds ChangesTell) ⟨{ options := options }, []⟩ es c ∧
      c.state.ChangesTell) ↔
      Run mySqlDatabase.Step
        (Component.Meets fun s work => work.2 = .connect → s.handle = none)
        ⟨{ options := options }, []⟩ es c := by
  refine Component.throughout_iff ?_ ⟨List.isChain_singleton _, rfl⟩
  intro s work answers s' rest h hexec
  obtain ⟨more, hexec, -⟩ := exec_mySqlDatabase hexec
  exact h.exec_iff hexec

end MySqlDatabase

end SimplyNode
