import SimplyNode.Executor
import SimplyNode.Lib.Threads
import SimplyNode.Lib.Transition

/-!
# The Workers of a Task Pool

`TaskPool::start` and `TaskPool::enqueueStrandDrain` put into one queue, the workers take out of
it, `waitForDone` waits for it to run dry and `shutdown` stops the workers. A state of `PoolRun`
stands between two sections under the pool's `m_mutex`, and every section is one step; any
number of calls may be in progress.

A task that starts further tasks does so by the same section as any other caller, and a task
that throws ends like one that returns, since `workerLoop` catches what it throws.

## Main results

* `PoolRun.Inv.step`: the step lemma.
* `tasks_run_exactly_once`: a task that `start` has accepted runs exactly once, before
  `shutdown` and `waitForDone` return, and one that it has refused never runs.
-/

open Threads Transition

namespace SimplyNode

/-- Where a worker is in `workerLoop`. -/
inductive WorkerPhase
  /-- At the wait for work. -/
  | waiting
  /-- In a task. -/
  | running (task : PoolTask)
  /-- Behind the loop. -/
  | left
  deriving DecidableEq

/-- The worker is in a task. -/
def WorkerPhase.isRunning : WorkerPhase → Bool
  | .running _ => true
  | _ => false

/-- Where the call of `shutdown` is that holds `m_shutdownMutex`. -/
inductive ShutdownPhase
  /-- The timers and the watches are stopped. -/
  | entered
  /-- It joins the workers that it has taken; these are left. -/
  | joining (rest : List ℕ)
  /-- It destroys the nodes that are left. -/
  | joined
  deriving DecidableEq

/-- A task pool, its worker threads, and the calls in progress. A call of `start` has a number,
which names its task; `waiting` has for each `waitForDone` in progress the tasks that were
accepted before it. -/
structure PoolRun where
  pool : TaskPool
  activeTasks : ℕ := 0
  threads : List WorkerPhase
  shutdown : Option ShutdownPhase := none
  waiting : List (List ℕ) := []
  /-- The number of calls of `start`. -/
  calls : ℕ := 0
  /-- What was put into the queue. -/
  accepted : List PoolTask := []
  /-- The calls of `start` that returned false. -/
  refused : List ℕ := []
  /-- The tasks that were begun, and the ones that have ended. -/
  begun : List PoolTask := []
  ended : List PoolTask := []
  /-- The number of calls of `shutdown` that have returned, and for each `waitForDone` that has
  returned the tasks that were accepted before it. -/
  shutdowns : ℕ := 0
  waited : List (List ℕ) := []
  deriving DecidableEq

/-- What can happen next. -/
inductive PoolStep
  /-- `start()`, of a function or of an empty one. -/
  | start (callable : Bool)
  /-- `enqueueStrandDrain()`. -/
  | enqueueStrandDrain (strand : StrandId)
  /-- A worker takes the next task. -/
  | take (worker : ℕ)
  /-- The task of a worker ends, by a return or by an exception. -/
  | finish (worker : ℕ) (threw : Bool)
  /-- A worker leaves its loop. -/
  | leave (worker : ℕ)
  /-- `waitForDone()` is called, outside of the pool's workers. -/
  | waitForDone
  /-- A call of `waitForDone()` returns. -/
  | waitReturns (call : ℕ)
  /-- A call of `shutdown()`, outside of the pool's workers, takes `m_shutdownMutex`. -/
  | shutdown
  /-- It sets `m_stopping` and takes the workers. -/
  | stopAccepting
  /-- It joins the next worker. -/
  | join
  /-- It sets `m_joined`. -/
  | setJoined
  /-- It returns. -/
  | shutdownReturns
  deriving DecidableEq

/-- What `enqueueStrandDrain` does when it accepts. -/
theorem TaskPool.enqueueStrandDrain_eq_some {p q : TaskPool} {k : StrandId}
    (h : p.enqueueStrandDrain k = some q) :
    (p.joined = false ∧ (p.workers = 0 → p.stopping = true)) ∧
      q = { p with queue := p.queue ++ [.drain k] } := by
  unfold TaskPool.enqueueStrandDrain at h
  split at h
  · exact absurd h (by simp)
  · rename_i hacc
    refine ⟨?_, (Option.some.inj h).symm⟩
    simp only [Bool.or_eq_true, Bool.and_eq_true, not_or, not_and, beq_iff_eq,
      Bool.not_eq_true, Bool.not_eq_true'] at hacc
    refine ⟨hacc.1, fun hw => ?_⟩
    simpa using hacc.2 hw

namespace PoolRun

variable (s : PoolRun)

/-- A pool with `n` workers. -/
def initial (n : ℕ) : PoolRun where
  pool := { workers := n }
  threads := List.replicate n .waiting

/-- `TaskPool::start`: whether the task is accepted, and the pool. -/
def start (callable : Bool) : PoolRun :=
  if !callable || s.pool.stopping || s.pool.workers == 0 then
    { s with calls := s.calls + 1, refused := s.calls :: s.refused }
  else
    { s with
      pool := { s.pool with queue := s.pool.queue ++ [.call s.calls] }
      calls := s.calls + 1
      accepted := s.accepted ++ [.call s.calls] }

/-- `TaskPool::enqueueStrandDrain`. -/
def enqueueStrandDrain (k : StrandId) : PoolRun :=
  match s.pool.enqueueStrandDrain k with
  | some p => { s with pool := p, accepted := s.accepted ++ [.drain k] }
  | none => s

/-- `TaskPool::workerLoop`: the section that takes a task. -/
def take (i : ℕ) (task : PoolTask) (rest : List PoolTask) : PoolRun :=
  { s with
    pool := { s.pool with queue := rest }
    activeTasks := s.activeTasks + 1
    threads := s.threads.set i (.running task)
    begun := s.begun ++ [task] }

/-- `TaskPool::workerLoop`: the section behind a task. -/
def finish (i : ℕ) (task : PoolTask) : PoolRun :=
  { s with
    activeTasks := s.activeTasks - 1
    threads := s.threads.set i .waiting
    ended := s.ended ++ [task] }

/-- The condition that `waitForDone` waits for. -/
def IsDone : Prop := s.pool.queue = [] ∧ s.activeTasks = 0

/-- The tasks that `start` has accepted. -/
def acceptedTasks : List ℕ :=
  s.accepted.filterMap fun
    | .call k => some k
    | .drain _ => none

/-- A step of the pool. -/
inductive Step : PoolRun → PoolStep → PoolRun → Prop
  | start {s : PoolRun} {callable : Bool} : Step s (.start callable) (s.start callable)
  | enqueueStrandDrain {s : PoolRun} {k : StrandId} :
      Step s (.enqueueStrandDrain k) (s.enqueueStrandDrain k)
  | take {s : PoolRun} {i : ℕ} {task : PoolTask} {rest : List PoolTask} :
      s.threads[i]? = some .waiting → s.pool.queue = task :: rest →
      Step s (.take i) (s.take i task rest)
  | finish {s : PoolRun} {i : ℕ} {task : PoolTask} {threw : Bool} :
      s.threads[i]? = some (.running task) → Step s (.finish i threw) (s.finish i task)
  | leave {s : PoolRun} {i : ℕ} :
      s.threads[i]? = some .waiting → s.pool.stopping = true → s.pool.queue = [] →
      Step s (.leave i) { s with threads := s.threads.set i .left }
  | waitForDone {s : PoolRun} :
      Step s .waitForDone { s with waiting := s.waiting ++ [s.acceptedTasks] }
  | waitReturns {s : PoolRun} {i : ℕ} {before : List ℕ} :
      s.waiting[i]? = some before → s.IsDone →
      Step s (.waitReturns i)
        { s with waiting := s.waiting.eraseIdx i, waited := before :: s.waited }
  | shutdown {s : PoolRun} :
      s.shutdown = none → Step s .shutdown { s with shutdown := some .entered }
  | stopAccepting {s : PoolRun} :
      s.shutdown = some .entered →
      Step s .stopAccepting
        { s with
          pool := { s.pool with stopping := true, workers := 0 }
          shutdown := some (.joining (List.range s.pool.workers)) }
  | join {s : PoolRun} {i : ℕ} {rest : List ℕ} :
      s.shutdown = some (.joining (i :: rest)) → s.threads[i]? = some .left →
      Step s .join { s with shutdown := some (.joining rest) }
  | setJoined {s : PoolRun} :
      s.shutdown = some (.joining []) →
      Step s .setJoined
        { s with pool := { s.pool with joined := true }, shutdown := some .joined }
  | shutdownReturns {s : PoolRun} :
      s.shutdown = some .joined →
      Step s .shutdownReturns { s with shutdown := none, shutdowns := s.shutdowns + 1 }

/-! ### The workers and the phases of a shutdown -/

/-- Every worker has left its loop. -/
def AllLeft : Prop := ∀ x ∈ s.threads, x = WorkerPhase.left

/-- Which workers have left, at each stage of a shutdown. -/
structure Staffed (n : ℕ) (s : PoolRun) : Prop where
  length : s.threads.length = n
  workers : s.pool.stopping = false → s.pool.workers = n
  taken : s.pool.stopping = true → s.pool.workers = 0
  left : .left ∈ s.threads → s.pool.stopping = true
  joining : ∀ rest, s.shutdown = some (.joining rest) → s.pool.stopping = true ∧
    ∀ i < n, i ∉ rest → s.threads[i]? = some .left
  behind : s.shutdown = some .joined → s.pool.joined = true
  between : s.pool.stopping = true → s.pool.joined = true ∨
    ∃ rest, s.shutdown = some (.joining rest)
  joined : s.pool.joined = true → s.AllLeft ∧ s.pool.stopping = true
  returned : 0 < s.shutdowns → s.pool.joined = true

variable {s s' : PoolRun} {n i : ℕ} {l : PoolStep} {x y : WorkerPhase}

theorem AllLeft.of_getElem? (h : ∀ i < s.threads.length, s.threads[i]? = some .left) :
    s.AllLeft := by
  intro x hx
  obtain ⟨i, hi, rfl⟩ := List.mem_iff_getElem.mp hx
  have := h i hi
  rwa [List.getElem?_eq_getElem hi, Option.some.injEq] at this

/-- A drain that is offered is accepted or refused. -/
theorem enqueueStrandDrain_cases (s : PoolRun) (k : StrandId) :
    s.enqueueStrandDrain k = s ∨ ((s.pool.joined = false ∧
      (s.pool.workers = 0 → s.pool.stopping = true)) ∧ s.enqueueStrandDrain k =
        { s with
          pool := { s.pool with queue := s.pool.queue ++ [.drain k] }
          accepted := s.accepted ++ [.drain k] }) := by
  rw [enqueueStrandDrain]
  split
  · rename_i p hp
    obtain ⟨hacc, rfl⟩ := TaskPool.enqueueStrandDrain_eq_some hp
    exact Or.inr ⟨hacc, rfl⟩
  · exact Or.inl rfl

/-- The workers are joined for ever. -/
theorem Step.joined (h : Step s l s')
    (hj : s'.pool.joined = false) : s.pool.joined = false := by
  cases h with
  | @start callable =>
      unfold PoolRun.start at hj
      split at hj <;> exact hj
  | @enqueueStrandDrain k =>
      rcases s.enqueueStrandDrain_cases k with heq | ⟨-, heq⟩
      · rwa [heq] at hj
      · rw [heq] at hj
        exact hj
  | setJoined => exact absurd hj (by simp)
  | _ => exact hj

/-- A worker that is not behind the loop takes its next step: not all have left. -/
theorem not_allLeft (hi : s.threads[i]? = some x) (hx : x ≠ .left) : ¬ s.AllLeft :=
  fun h => hx (h x (List.mem_of_getElem? hi))

/-- `start` and `enqueueStrandDrain` only add to the queue and to the history. -/
theorem Staffed.start (hi : Staffed n s) {callable : Bool} : Staffed n (s.start callable) := by
  rw [PoolRun.start]
  split <;> exact { hi with }

theorem Staffed.enqueueStrandDrain (hi : Staffed n s) {k : StrandId} :
    Staffed n (s.enqueueStrandDrain k) := by
  rw [PoolRun.enqueueStrandDrain]
  split
  · rename_i p hp
    obtain ⟨-, rfl⟩ := TaskPool.enqueueStrandDrain_eq_some hp
    exact { hi with }
  · exact hi

/-- A worker at `i` that has not left takes a step: those that have left stay where they are. -/
theorem getElem?_set_of_left {j : ℕ} (hx : s.threads[i]? = some x) (hxl : x ≠ .left)
    (hj : s.threads[j]? = some .left) : (s.threads.set i y)[j]? = some .left := by
  have hne : i ≠ j := by
    rintro rfl
    exact hxl (Option.some.inj (hx.symm.trans hj))
  rwa [List.getElem?_set_ne hne]

/-- A worker goes on inside its loop. -/
theorem Staffed.setThread (hi : Staffed n s) (hx : s.threads[i]? = some x) (hxl : x ≠ .left)
    (hyl : y ≠ .left) (ht : s'.threads = s.threads.set i y)
    (hp : s'.pool.stopping = s.pool.stopping ∧ s'.pool.workers = s.pool.workers ∧
      s'.pool.joined = s.pool.joined)
    (hsh : s'.shutdown = s.shutdown) (hn : s'.shutdowns = s.shutdowns) : Staffed n s' where
  length := by rw [ht, List.length_set, hi.length]
  workers := by rw [hp.1, hp.2.1]; exact hi.workers
  taken := by rw [hp.1, hp.2.1]; exact hi.taken
  left hl := by
    rw [ht] at hl
    rw [hp.1]
    exact hi.left ((mem_set hl).resolve_left hyl.symm)
  joining rest hj := by
    rw [hsh] at hj
    rw [hp.1, ht]
    obtain ⟨hstop, hrest⟩ := hi.joining rest hj
    exact ⟨hstop, fun j hjn hjr => getElem?_set_of_left hx hxl (hrest j hjn hjr)⟩
  behind hj := by rw [hp.2.2]; exact hi.behind (hsh ▸ hj)
  between hs := by rw [hp.2.2, hsh]; exact hi.between (hp.1 ▸ hs)
  joined hj := absurd (hi.joined (hp.2.2 ▸ hj)).1 (not_allLeft hx hxl)
  returned hr := by rw [hp.2.2]; exact hi.returned (hn ▸ hr)

/-- A worker leaves its loop. -/
theorem Staffed.leave (hi : Staffed n s) (hx : s.threads[i]? = some .waiting)
    (hstop : s.pool.stopping = true) :
    Staffed n { s with threads := s.threads.set i .left } where
  length := by rw [List.length_set, hi.length]
  workers := hi.workers
  taken := hi.taken
  left _ := hstop
  joining rest hj := by
    obtain ⟨-, hrest⟩ := hi.joining rest hj
    exact ⟨hstop, fun j hjn hjr => getElem?_set_of_left hx (by simp) (hrest j hjn hjr)⟩
  behind := hi.behind
  between := hi.between
  joined hj := absurd (hi.joined hj).1 (not_allLeft hx (by simp))
  returned := hi.returned

/-- `shutdown` sets `m_stopping` and takes the workers; the first call takes all of them, and
a later one none. -/
theorem Staffed.stopAccepting (hi : Staffed n s) (he : s.shutdown = some .entered) :
    Staffed n { s with
      pool := { s.pool with stopping := true, workers := 0 }
      shutdown := some (.joining (List.range s.pool.workers)) } where
  length := hi.length
  workers h := absurd h (by simp)
  taken _ := rfl
  left _ := rfl
  joining rest hj := by
    obtain rfl := ShutdownPhase.joining.inj (Option.some.inj hj)
    refine ⟨rfl, fun j hjn hjr => ?_⟩
    cases hstop : s.pool.stopping with
    | false =>
        rw [hi.workers hstop, List.mem_range] at hjr
        exact absurd hjn hjr
    | true =>
        have hall : s.AllLeft := by
          rcases hi.between hstop with hj | ⟨rest, hj⟩
          · exact (hi.joined hj).1
          · rw [he] at hj
            exact absurd hj (by simp)
        have hlt : j < s.threads.length := hi.length ▸ hjn
        rw [List.getElem?_eq_getElem hlt, hall _ (List.getElem_mem hlt)]
  behind h := absurd h (by simp)
  between _ := Or.inr ⟨_, rfl⟩
  joined hj := ⟨(hi.joined hj).1, rfl⟩
  returned := hi.returned

/-- `shutdown` joins a worker that has left. -/
theorem Staffed.join {rest : List ℕ} (hi : Staffed n s)
    (hj : s.shutdown = some (.joining (i :: rest))) (hx : s.threads[i]? = some .left) :
    Staffed n { s with shutdown := some (.joining rest) } where
  length := hi.length
  workers := hi.workers
  taken := hi.taken
  left := hi.left
  joining rest' hj' := by
    obtain rfl := ShutdownPhase.joining.inj (Option.some.inj hj')
    obtain ⟨hstop, hrest⟩ := hi.joining _ hj
    refine ⟨hstop, fun j hjn hjr => ?_⟩
    by_cases hji : j = i
    · exact hji ▸ hx
    · exact hrest j hjn (by simp [hji, hjr])
  behind h := absurd h (by simp)
  between h := Or.inr ⟨rest, rfl⟩
  joined := hi.joined
  returned := hi.returned

/-- `shutdown` sets `m_joined` once it has joined every worker. -/
theorem Staffed.setJoined (hi : Staffed n s) (hj : s.shutdown = some (.joining [])) :
    Staffed n { s with pool := { s.pool with joined := true }, shutdown := some .joined } where
  length := hi.length
  workers := hi.workers
  taken := hi.taken
  left := hi.left
  joining rest h := absurd h (by simp)
  behind _ := rfl
  between _ := Or.inl rfl
  joined _ := by
    obtain ⟨hstop, hrest⟩ := hi.joining [] hj
    exact ⟨.of_getElem? fun j hjn => hrest j (hi.length ▸ hjn) List.not_mem_nil, hstop⟩
  returned _ := rfl

/-- **The step lemma for the workers.** -/
theorem Staffed.step (hi : Staffed n s) (hst : Step s l s') : Staffed n s' := by
  cases hst with
  | start => exact hi.start
  | enqueueStrandDrain => exact hi.enqueueStrandDrain
  | take hx hq => exact hi.setThread hx (by simp) (by simp) rfl ⟨rfl, rfl, rfl⟩ rfl rfl
  | finish hx => exact hi.setThread hx (by simp) (by simp) rfl ⟨rfl, rfl, rfl⟩ rfl rfl
  | leave hx hstop hq => exact hi.leave hx hstop
  | waitForDone => exact { hi with }
  | waitReturns hw hd => exact { hi with }
  | shutdown hnone =>
      refine { hi with joining := ?_, behind := ?_, between := ?_ }
      · exact fun rest h => absurd h (by simp)
      · exact fun h => absurd h (by simp)
      · intro hstop
        rcases hi.between hstop with hj | ⟨rest, hj⟩
        · exact Or.inl hj
        · rw [hnone] at hj
          exact absurd hj (by simp)
  | stopAccepting he => exact hi.stopAccepting he
  | join hj hx => exact hi.join hj hx
  | setJoined hj => exact hi.setJoined hj
  | shutdownReturns hj =>
      refine { hi with joining := ?_, behind := ?_, between := ?_, returned := ?_ }
      · exact fun rest h => absurd h (by simp)
      · exact fun h => absurd h (by simp)
      · exact fun _ => Or.inl (hi.behind hj)
      · exact fun _ => hi.behind hj

theorem staffed_initial (n : ℕ) : Staffed n (initial n) where
  length := List.length_replicate
  workers _ := rfl
  taken h := absurd h (by simp [initial])
  left h := by simp [initial, List.mem_replicate] at h
  joining rest h := absurd h (by simp [initial])
  behind h := absurd h (by simp [initial])
  between h := absurd h (by simp [initial])
  joined h := absurd h (by simp [initial])
  returned h := absurd h (by simp [initial])

/-! ### The tasks -/

/-- The books about the tasks: the queue has what was accepted and not begun, the workers run
what was begun and has not ended, and every call of `start` has its own number. -/
structure Ledger (s : PoolRun) : Prop where
  queued : s.accepted = s.begun ++ s.pool.queue
  running : ∀ t, s.begun.count t = s.ended.count t + s.threads.count (.running t)
  active : s.activeTasks = s.threads.countP WorkerPhase.isRunning
  number : ∀ k, .call k ∈ s.accepted → k < s.calls
  numberRefused : ∀ k ∈ s.refused, k < s.calls
  once : ∀ k, s.accepted.count (.call k) ≤ 1
  apart : ∀ k ∈ s.refused, .call k ∉ s.accepted

/-- Only drains are left in the queue when all workers are gone. -/
def OnlyDrains (s : PoolRun) : Prop := s.AllLeft → ∀ k, .call k ∉ s.pool.queue

/-- What is known of the calls of `waitForDone`. -/
structure Waits (s : PoolRun) : Prop where
  waiting : ∀ before ∈ s.waiting, ∀ k ∈ before, .call k ∈ s.accepted
  waited : ∀ before ∈ s.waited, ∀ k ∈ before, .call k ∈ s.accepted ∧ .call k ∈ s.ended

theorem mem_acceptedTasks {k : ℕ} : k ∈ s.acceptedTasks ↔ .call k ∈ s.accepted := by
  rw [acceptedTasks]
  constructor
  · intro hk
    obtain ⟨t, ht, hkt⟩ := List.mem_filterMap.mp hk
    cases t with
    | drain d => exact absurd hkt (by simp)
    | call j =>
        obtain rfl := Option.some.inj hkt
        exact ht
  · intro hk
    exact List.mem_filterMap.mpr ⟨_, hk, rfl⟩

/-- Something other than a task of `start` is put into the queue. -/
theorem Ledger.enqueue {k : StrandId} {p : TaskPool} (hi : Ledger s)
    (hp : p.queue = s.pool.queue ++ [.drain k]) :
    Ledger { s with pool := p, accepted := s.accepted ++ [.drain k] } where
  queued := by rw [hp, ← List.append_assoc, ← hi.queued]
  running := hi.running
  active := hi.active
  number j hj := hi.number j (by simpa using hj)
  numberRefused := hi.numberRefused
  once j := by simpa [List.count_append] using hi.once j
  apart j hj hmem := hi.apart j hj (by simpa using hmem)

theorem Ledger.start (hi : Ledger s) {callable : Bool} : Ledger (s.start callable) := by
  have hfresh : PoolTask.call s.calls ∉ s.accepted := fun h =>
    absurd (hi.number s.calls h) (by omega)
  rw [PoolRun.start]
  split
  · refine { hi with number := ?_, numberRefused := ?_, apart := ?_ }
    · intro k hk
      have := hi.number k hk
      show k < s.calls + 1
      omega
    · intro k hk
      show k < s.calls + 1
      rcases List.mem_cons.mp hk with rfl | hk
      · omega
      · have := hi.numberRefused k hk
        omega
    · intro k hk
      rcases List.mem_cons.mp hk with rfl | hk
      · exact hfresh
      · exact hi.apart k hk
  · refine { hi with queued := ?_, number := ?_, numberRefused := ?_, once := ?_, apart := ?_ }
    · show s.accepted ++ _ = s.begun ++ (s.pool.queue ++ _)
      rw [← List.append_assoc, ← hi.queued]
    · intro k hk
      show k < s.calls + 1
      rcases List.mem_append.mp hk with hk | hk
      · have := hi.number k hk
        omega
      · have : k = s.calls := by simpa using hk
        omega
    · intro k hk
      have := hi.numberRefused k hk
      show k < s.calls + 1
      omega
    · intro k
      show (s.accepted ++ [PoolTask.call s.calls]).count (.call k) ≤ 1
      rw [List.count_append]
      by_cases hk : s.calls = k
      · subst hk
        rw [List.count_eq_zero_of_not_mem hfresh]
        simp
      · have hne : PoolTask.call s.calls ≠ .call k := by simpa using hk
        rw [List.count_cons_of_ne hne, List.count_nil]
        exact hi.once k
    · intro k hk hmem
      rcases List.mem_append.mp hmem with hmem | hmem
      · exact hi.apart k hk hmem
      · have hlt := hi.numberRefused k hk
        have : k = s.calls := by simpa using hmem
        omega

/-- A worker takes the first task of the queue. -/
theorem Ledger.take {task : PoolTask} {rest : List PoolTask} (hi : Ledger s)
    (hx : s.threads[i]? = some .waiting) (hq : s.pool.queue = task :: rest) :
    Ledger (s.take i task rest) where
  queued := by
    show s.accepted = (s.begun ++ [task]) ++ rest
    rw [hi.queued, hq, List.append_assoc, List.singleton_append]
  running t := by
    show (s.begun ++ [task]).count t = _ + (s.threads.set i _).count _
    have hset := count_set_add (b := WorkerPhase.running task) (c := .running t) hx
    have hbegun := hi.running t
    have hnew : [task].count t = if WorkerPhase.running task = .running t then 1 else 0 := by
      simp [List.count_singleton]
    rw [List.count_append, hnew]
    rw [if_neg (by simp)] at hset
    show _ = s.ended.count t + _
    omega
  active := by
    show s.activeTasks + 1 = (s.threads.set i _).countP _
    have hset := countP_set_add (p := WorkerPhase.isRunning) (b := .running task) hx
    have hact := hi.active
    simp only [WorkerPhase.isRunning, Bool.false_eq_true, if_false, if_true] at hset
    omega
  number := hi.number
  numberRefused := hi.numberRefused
  once := hi.once
  apart := hi.apart

/-- The task of a worker ends. -/
theorem Ledger.finish {task : PoolTask} (hi : Ledger s)
    (hx : s.threads[i]? = some (.running task)) : Ledger (s.finish i task) where
  queued := hi.queued
  running t := by
    show s.begun.count t = (s.ended ++ [task]).count t + (s.threads.set i _).count _
    have hset := count_set_add (b := WorkerPhase.waiting) (c := .running t) hx
    have hbegun := hi.running t
    have hnew : [task].count t = if WorkerPhase.running task = .running t then 1 else 0 := by
      simp [List.count_singleton]
    rw [List.count_append, hnew]
    rw [if_neg (c := WorkerPhase.waiting = .running t) (by simp)] at hset
    omega
  active := by
    show s.activeTasks - 1 = (s.threads.set i _).countP _
    have hset := countP_set_add (p := WorkerPhase.isRunning) (b := .waiting) hx
    have hact := hi.active
    simp only [WorkerPhase.isRunning, Bool.false_eq_true, if_false, if_true] at hset
    omega
  number := hi.number
  numberRefused := hi.numberRefused
  once := hi.once
  apart := hi.apart

/-- **The step lemma for the books.** -/
theorem Ledger.step (hi : Ledger s) (hst : Step s l s') : Ledger s' := by
  cases hst with
  | start => exact hi.start
  | @enqueueStrandDrain k =>
      rw [PoolRun.enqueueStrandDrain]
      split
      · rename_i p hp
        obtain ⟨-, rfl⟩ := TaskPool.enqueueStrandDrain_eq_some hp
        exact hi.enqueue rfl
      · exact hi
  | take hx hq => exact hi.take hx hq
  | finish hx => exact hi.finish hx
  | @leave i hx hstop hq =>
      refine { hi with running := fun t => ?_, active := ?_ }
      · have hset := count_set_add (b := WorkerPhase.left) (c := .running t) hx
        simp only [reduceCtorEq, if_false, Nat.add_zero] at hset
        exact hset ▸ hi.running t
      · have hset := countP_set_add (p := WorkerPhase.isRunning) (b := .left) hx
        simp only [WorkerPhase.isRunning, Bool.false_eq_true, if_false, Nat.add_zero] at hset
        exact hset ▸ hi.active
  | waitForDone => exact { hi with }
  | waitReturns hw hd => exact { hi with }
  | shutdown hnone => exact { hi with }
  | stopAccepting he => exact { hi with }
  | join hj hx => exact { hi with }
  | setJoined hj => exact { hi with }
  | shutdownReturns hj => exact { hi with }

/-- As long as `start` accepts tasks, there is a worker and none has left. -/
theorem Staffed.not_allLeft (hi : Staffed n s) (hstop : s.pool.stopping = false)
    (hw : s.pool.workers ≠ 0) : ¬ s.AllLeft := by
  intro hall
  have hlen : 0 < s.threads.length := by
    have := hi.workers hstop
    have := hi.length
    omega
  have hmem := List.getElem_mem hlen
  rw [hall _ hmem] at hmem
  exact absurd (hi.left hmem) (by simp [hstop])

/-- **The step lemma for the end of the queue.** -/
theorem OnlyDrains.step (ho : OnlyDrains s) (hi : Staffed n s) (hst : Step s l s') :
    OnlyDrains s' := by
  cases hst with
  | @start callable =>
      rw [PoolRun.start]
      split
      · exact ho
      · rename_i hacc
        simp only [Bool.or_eq_true, not_or, beq_iff_eq, Bool.not_eq_true] at hacc
        exact fun hall => absurd hall (hi.not_allLeft hacc.1.2 hacc.2)
  | @enqueueStrandDrain k =>
      rw [PoolRun.enqueueStrandDrain]
      split
      · rename_i p hp
        obtain ⟨-, rfl⟩ := TaskPool.enqueueStrandDrain_eq_some hp
        intro hall j hj
        exact ho hall j (by simpa using hj)
      · exact ho
  | @take i task rest hx hq =>
      exact fun hall => absurd (hall _ (mem_set_self hx)) (by simp)
  | @finish i task threw hx =>
      exact fun hall => absurd (hall _ (mem_set_self hx)) (by simp)
  | leave hx hstop hq =>
      intro _ k hk
      rw [hq] at hk
      exact absurd hk List.not_mem_nil
  | waitForDone => exact ho
  | waitReturns hw hd => exact ho
  | shutdown hnone => exact ho
  | stopAccepting he => exact ho
  | join hj hx => exact ho
  | setJoined hj => exact ho
  | shutdownReturns hj => exact ho

/-- A task that was begun has ended when no worker is in it. -/
theorem Ledger.ended (hi : Ledger s) {t : PoolTask} (ht : .running t ∉ s.threads) :
    s.begun.count t = s.ended.count t := by
  rw [hi.running t, List.count_eq_zero_of_not_mem ht, Nat.add_zero]

/-- With an empty queue and no active task everything that was accepted has ended. -/
theorem Ledger.ended_of_isDone (hi : Ledger s) (hd : s.IsDone) (t : PoolTask) :
    s.accepted.count t = s.ended.count t := by
  have hnone : .running t ∉ s.threads := by
    intro hmem
    have hpos : 0 < s.threads.countP WorkerPhase.isRunning :=
      List.countP_pos_iff.mpr ⟨_, hmem, rfl⟩
    have := hi.active
    have := hd.2
    omega
  rw [hi.queued, hd.1, List.append_nil, hi.ended hnone]

/-- A task of `start` that has ended was begun once and has ended once. -/
theorem Ledger.exactly_once (hi : Ledger s) {k : ℕ} (hk : .call k ∈ s.ended) :
    s.begun.count (.call k) = 1 ∧ s.ended.count (.call k) = 1 := by
  have hacc := hi.once k
  rw [hi.queued, List.count_append] at hacc
  have hrun := hi.running (.call k)
  have hpos := List.count_pos_iff.mpr hk
  omega

/-- **The step lemma for `waitForDone`.** -/
theorem Waits.step (hw : Waits s) (hi : Ledger s) (hst : Step s l s') : Waits s' := by
  cases hst with
  | @start callable =>
      rw [PoolRun.start]
      split
      · exact { hw with }
      · refine ⟨fun b hb k hk => ?_, fun b hb k hk => ?_⟩
        · exact List.mem_append_left _ (hw.waiting b hb k hk)
        · exact (hw.waited b hb k hk).imp_left (List.mem_append_left _)
  | @enqueueStrandDrain d =>
      rw [PoolRun.enqueueStrandDrain]
      split
      · refine ⟨fun b hb k hk => ?_, fun b hb k hk => ?_⟩
        · exact List.mem_append_left _ (hw.waiting b hb k hk)
        · exact (hw.waited b hb k hk).imp_left (List.mem_append_left _)
      · exact hw
  | take hx hq => exact { hw with }
  | finish hx =>
      exact ⟨hw.waiting, fun b hb k hk =>
        (hw.waited b hb k hk).imp_right (List.mem_append_left _)⟩
  | leave hx hstop hq => exact { hw with }
  | waitForDone =>
      refine { hw with waiting := fun b hb k hk => ?_ }
      rcases List.mem_append.mp hb with hb | hb
      · exact hw.waiting b hb k hk
      · obtain rfl := List.mem_singleton.mp hb
        exact mem_acceptedTasks.mp hk
  | @waitReturns i before hb hd =>
      refine ⟨fun b hb' => hw.waiting b (List.mem_of_mem_eraseIdx hb'), fun b hb' k hk => ?_⟩
      rcases List.mem_cons.mp hb' with rfl | hb'
      · have hacc := hw.waiting b (List.mem_of_getElem? hb) k hk
        refine ⟨hacc, List.count_pos_iff.mp ?_⟩
        rw [← hi.ended_of_isDone hd]
        exact List.count_pos_iff.mpr hacc
      · exact hw.waited b hb' k hk
  | shutdown hnone => exact { hw with }
  | stopAccepting he => exact { hw with }
  | join hj hx => exact { hw with }
  | setJoined hj => exact { hw with }
  | shutdownReturns hj => exact { hw with }

/-- The invariant of a pool with `n` workers. -/
structure Inv (n : ℕ) (s : PoolRun) : Prop where
  staffed : Staffed n s
  ledger : Ledger s
  onlyDrains : OnlyDrains s
  waits : Waits s

/-- **The step lemma.** -/
theorem Inv.step (hi : Inv n s) (hst : Step s l s') : Inv n s' where
  staffed := hi.staffed.step hst
  ledger := hi.ledger.step hst
  onlyDrains := hi.onlyDrains.step hi.staffed hst
  waits := hi.waits.step hi.ledger hst

theorem inv_initial (n : ℕ) : Inv n (initial n) where
  staffed := staffed_initial n
  ledger :=
    { queued := rfl
      running := fun t => by simp [initial, List.count_replicate]
      active := by simp [initial, List.countP_replicate, WorkerPhase.isRunning]
      number := fun k hk => absurd hk List.not_mem_nil
      numberRefused := fun k hk => absurd hk List.not_mem_nil
      once := fun k => Nat.zero_le 1
      apart := fun k hk => absurd hk List.not_mem_nil }
  onlyDrains := fun _ k hk => absurd hk List.not_mem_nil
  waits := ⟨fun b hb => absurd hb List.not_mem_nil, fun b hb => absurd hb List.not_mem_nil⟩

/-- The run lemma. -/
theorem inv_of_run {ok : PoolRun → PoolStep → Prop} {ls : List PoolStep}
    (hrun : Run Step ok (initial n) ls s) : Inv n s :=
  hrun.invariant (fun _ _ _ hi _ hst => hi.step hst) (inv_initial n)

end PoolRun

/-- **No accepted task is lost or run twice.** In every run of a pool with any number of
workers: no task is begun twice; a task that `start` has refused is never begun; once a call
of `shutdown` has returned every task that `start` has accepted has been run exactly once; and
so has, once a call of `waitForDone` has returned, every task accepted before that call. -/
theorem tasks_run_exactly_once {n : ℕ} {s : PoolRun} {ls : List PoolStep}
    (hrun : Reaches PoolRun.Step (PoolRun.initial n) ls s) :
    (∀ k, s.begun.count (.call k) ≤ 1) ∧
      (∀ k ∈ s.refused, .call k ∉ s.begun) ∧
      (0 < s.shutdowns → ∀ k ∈ s.acceptedTasks,
        s.begun.count (.call k) = 1 ∧ s.ended.count (.call k) = 1) ∧
      ∀ before ∈ s.waited, ∀ k ∈ before,
        s.begun.count (.call k) = 1 ∧ s.ended.count (.call k) = 1 := by
  have hi := PoolRun.inv_of_run hrun
  have hl := hi.ledger
  refine ⟨fun k => ?_, fun k hk hbegun => ?_, fun hdown k hk => ?_, fun b hb k hk => ?_⟩
  · have := hl.once k
    rw [hl.queued, List.count_append] at this
    omega
  · exact hl.apart k hk (hl.queued ▸ List.mem_append_left _ hbegun)
  · obtain ⟨hall, -⟩ := hi.staffed.joined (hi.staffed.returned hdown)
    have hacc := PoolRun.mem_acceptedTasks.mp hk
    have hbegun : .call k ∈ s.begun :=
      (List.mem_append.mp (hl.queued ▸ hacc)).resolve_right (hi.onlyDrains hall k)
    refine hl.exactly_once (List.count_pos_iff.mp ?_)
    rw [← hl.ended fun hmem => absurd (hall _ hmem) (by simp)]
    exact List.count_pos_iff.mpr hbegun
  · exact hl.exactly_once (hi.waits.waited b hb k hk).2

/-- A task is queued, a second one is started while the first one runs, and the pool is shut
down with the second one in its queue. -/
def twoTasks : List PoolStep :=
  [.start true, .take 0, .start true, .waitForDone, .shutdown, .stopAccepting, .start true,
    .finish 0 true, .take 0, .finish 0 false, .waitReturns 0, .leave 0, .join, .setJoined,
    .shutdownReturns]

/-- Both tasks have run, and the one that came too late has not. -/
theorem two_tasks_run : ∃ s, Reaches PoolRun.Step (PoolRun.initial 1) twoTasks s ∧
    s.acceptedTasks = [0, 1] ∧ s.refused = [2] ∧ s.waited = [[0, 1]] ∧
    .call 2 ∉ s.begun ∧ (∀ k ∈ s.acceptedTasks, s.ended.count (.call k) = 1) := by
  have hrun : ∃ s, Reaches PoolRun.Step (PoolRun.initial 1) twoTasks s ∧
      s.acceptedTasks = [0, 1] ∧ s.refused = [2] ∧ s.waited = [[0, 1]] ∧ s.shutdowns = 1 :=
    ⟨_, .cons trivial .start (.cons trivial (.take rfl rfl) (.cons trivial .start
      (.cons trivial .waitForDone (.cons trivial (.shutdown rfl) (.cons trivial
      (.stopAccepting rfl) (.cons trivial .start (.cons trivial (.finish rfl) (.cons trivial
      (.take rfl rfl) (.cons trivial (.finish rfl) (.cons trivial (.waitReturns rfl ⟨rfl, rfl⟩)
      (.cons trivial (.leave rfl rfl rfl) (.cons trivial (.join rfl rfl) (.cons trivial
      (.setJoined rfl) (.cons trivial (.shutdownReturns rfl) (.nil _))))))))))))))),
      rfl, rfl, rfl, rfl⟩
  obtain ⟨s, hrun, hacc, href, hwait, hdown⟩ := hrun
  obtain ⟨-, hnever, honce, -⟩ := tasks_run_exactly_once hrun
  exact ⟨s, hrun, hacc, href, hwait, hnever 2 (by simp [href]),
    fun k hk => (honce (by omega) k hk).2⟩

end SimplyNode
