import SimplyNode.LateDrains

/-!
# The Drains of a Strand

`Strand::post` queues a task and, if no drain is outstanding, has the pool queue one.
`Strand::drain` runs a batch of tasks and the pending deletes on some worker, and then offers
the strand to the pool again or clears `m_scheduled`. Every section under a mutex is one step
of `StrandRun`, over the workers and the queue of `PoolRun`; any number of threads post, among
them the tasks of the strand.

The invariant is a token per strand: `m_scheduled` is set iff there is a drain of the strand,
or a thread that is about to queue one or to clear `m_scheduled` because the pool has refused.

## Main results

* `StrandRun.Inv.step`: the step lemma.
* `strand_runs_serially`: the tasks of a strand run one at a time, in the order in which they
  were posted, each at most once, and no posted task is forgotten while the pool has workers.
-/

open Threads Transition

namespace SimplyNode

/-- `Strand::kBatchSize`. -/
def Strand.kBatchSize : ℕ := 64

/-- Where a worker is, in more detail: in a drain, and where in it. -/
inductive DrainPhase
  | waiting
  /-- In a task given to `start`. -/
  | inCall (id : ℕ)
  /-- In `drain`, before the section that takes the next task; `ran` have been run. -/
  | popping (strand : StrandId) (ran : ℕ)
  /-- In a task of the strand. -/
  | inTask (strand : StrandId) (ran : ℕ)
  /-- In `runPendingDeletes`. -/
  | deleting (strand : StrandId)
  /-- Before the last section of `drain`. -/
  | ending (strand : StrandId)
  /-- In `schedule`, called by `drain`. -/
  | scheduling (strand : StrandId)
  /-- In `schedule`, after the pool has refused. -/
  | refused (strand : StrandId)
  /-- Behind the last section of `drain`, or at the end of it. -/
  | over (strand : StrandId)
  | left
  deriving DecidableEq

/-- Where a thread is in `Strand::post`. -/
inductive PostPhase
  /-- Before the test of `m_retired`. -/
  | testing (strand : StrandId)
  /-- Before the section that queues the task. -/
  | pushing (strand : StrandId)
  /-- In `schedule`. -/
  | scheduling (strand : StrandId)
  /-- In `schedule`, after the pool has refused. -/
  | refused (strand : StrandId)
  | returned
  deriving DecidableEq

namespace DrainPhase

/-- The phase of `workerLoop`. -/
def worker : DrainPhase → WorkerPhase
  | waiting => .waiting
  | inCall k => .running (.call k)
  | popping k _ | inTask k _ | deleting k | ending k | scheduling k | refused k | .over k =>
      .running (.drain k)
  | left => .left

/-- The first phase of a task of the pool. -/
def ofTask : PoolTask → DrainPhase
  | .call k => inCall k
  | .drain k => popping k 0

/-- The worker runs tasks or pending deletes of the strand, or has done so and has not yet
looked for more. -/
def drains (k : StrandId) : DrainPhase → Bool
  | popping j _ | inTask j _ | deleting j | ending j => j == k
  | _ => false

/-- The worker is inside `schedule` of the strand. -/
def schedules (k : StrandId) : DrainPhase → Bool
  | scheduling j | refused j => j == k
  | _ => false

/-- The worker runs a task of the strand. -/
def inTaskOf (k : StrandId) : DrainPhase → Bool
  | inTask j _ => j == k
  | _ => false

end DrainPhase

/-- The thread is inside `schedule` of the strand. -/
def PostPhase.schedules (k : StrandId) : PostPhase → Bool
  | scheduling j | refused j => j == k
  | _ => false

/-- How often a worker counts among the outstanding drains of a strand. -/
def DrainPhase.weight (k : StrandId) (p : DrainPhase) : ℕ :=
  (if p.drains k then 1 else 0) + if p.schedules k then 1 else 0

/-- How often a thread that posts counts among the outstanding drains of a strand. -/
def PostPhase.weight (k : StrandId) (a : PostPhase) : ℕ := if a.schedules k then 1 else 0

/-- A task pool with its strands and the threads that post to them. `posted` and `begun` have
the tasks of each strand in the order in which they were queued and begun. -/
structure StrandRun where
  base : PoolRun
  drains : List DrainPhase
  posters : List PostPhase := []
  strands : StrandId → Strand := fun _ => {}
  nextStrand : StrandId := 0
  /-- The calls of `acquireStrand` that have passed the test of the pool. -/
  acquiring : ℕ := 0
  /-- The number of tasks queued so far, which names the next one. -/
  posts : ℕ := 0
  posted : StrandId → List Task := fun _ => []
  begun : StrandId → List Task := fun _ => []

/-- What can happen next. -/
inductive StrandStep
  /-- A step of the pool that concerns no worker in a drain. -/
  | pool (step : PoolStep)
  /-- A worker takes the next task of the pool. -/
  | take (worker : ℕ)
  /-- A worker leaves its loop. -/
  | leave (worker : ℕ)
  /-- A task given to `start` ends. -/
  | callEnds (worker : ℕ) (threw : Bool)
  /-- `drain()` returns. -/
  | drainEnds (worker : ℕ)
  /-- `drain`: the section that takes the next task of the strand. -/
  | pop (worker : ℕ)
  /-- `drain`: the task ends, by a return or by an exception. -/
  | taskEnds (worker : ℕ) (threw : Bool)
  /-- `drain`: `runPendingDeletes()` returns. -/
  | deletesEnd (worker : ℕ)
  /-- `drain`: the last section. -/
  | lookForMore (worker : ℕ)
  /-- `schedule()`, called by `drain`: the section of the pool. -/
  | reschedule (worker : ℕ)
  /-- `schedule()`, called by `drain`: the section of the strand. -/
  | unschedule (worker : ℕ)
  /-- `post()` is called. -/
  | post (strand : StrandId)
  /-- `post()`: the test of `m_retired`. -/
  | testRetired (thread : ℕ)
  /-- `post()`: the section of the strand. -/
  | push (thread : ℕ)
  /-- `schedule()`, called by `post`: the section of the pool. -/
  | schedule (thread : ℕ)
  /-- `schedule()`, called by `post`: the section of the strand. -/
  | giveUp (thread : ℕ)
  /-- `acquireStrand()`: the section of the pool. -/
  | mayAcquire
  /-- `acquireStrand()`: the section that creates a strand. -/
  | acquire
  /-- `destroyRemainingNodes()`: the strand is retired. -/
  | retire (strand : StrandId)
  /-- `destroyRemainingNodes()`: its queue is cleared. -/
  | clear (strand : StrandId)
  deriving DecidableEq

/-- The step concerns neither a worker nor a drain. -/
def PoolStep.IsPlain : PoolStep → Prop
  | .take _ | .finish _ _ | .leave _ | .enqueueStrandDrain _ => False
  | _ => True

namespace StrandRun

variable (s : StrandRun)

/-- A pool with `n` workers and no strands. -/
def initial (n : ℕ) : StrandRun where
  base := .initial n
  drains := List.replicate n .waiting

/-- Changes a strand. -/
def modifyStrand (k : StrandId) (f : Strand → Strand) : StrandRun :=
  { s with strands := Function.update s.strands k (f (s.strands k)) }

/-- A worker goes on. -/
def setDrain (i : ℕ) (p : DrainPhase) : StrandRun := { s with drains := s.drains.set i p }

/-- A thread that posts goes on. -/
def setPoster (j : ℕ) (p : PostPhase) : StrandRun := { s with posters := s.posters.set j p }

/-- `Strand::drain`: the section that takes a task, when there is one. -/
def beginTask (i : ℕ) (k : StrandId) (ran : ℕ) (t : Task) (rest : List Task) : StrandRun :=
  { (s.modifyStrand k fun st => { st with queue := rest }).setDrain i (.inTask k ran) with
    begun := Function.update s.begun k (s.begun k ++ [t]) }

/-- `Strand::post`: the section that queues the task, without the flag. -/
def pushTask (k : StrandId) : StrandRun :=
  { s.modifyStrand k fun st =>
      { st with queue := st.queue ++ [.call s.posts], scheduled := true } with
    posts := s.posts + 1
    posted := Function.update s.posted k (s.posted k ++ [.call s.posts]) }

/-- A step of the pool and its strands. -/
inductive Step : StrandRun → StrandStep → StrandRun → Prop
  | pool {s : StrandRun} {l : PoolStep} {b : PoolRun} :
      l.IsPlain → PoolRun.Step s.base l b → Step s (.pool l) { s with base := b }
  | take {s : StrandRun} {i : ℕ} {task : PoolTask} {rest : List PoolTask} :
      s.base.threads[i]? = some .waiting → s.base.pool.queue = task :: rest →
      Step s (.take i) ({ s with base := s.base.take i task rest }.setDrain i (.ofTask task))
  | leave {s : StrandRun} {i : ℕ} {b : PoolRun} :
      PoolRun.Step s.base (.leave i) b → Step s (.leave i) ({ s with base := b }.setDrain i .left)
  | callEnds {s : StrandRun} {i k : ℕ} {threw : Bool} :
      s.drains[i]? = some (.inCall k) →
      Step s (.callEnds i threw) ({ s with base := s.base.finish i (.call k) }.setDrain i .waiting)
  | drainEnds {s : StrandRun} {i : ℕ} {k : StrandId} :
      s.drains[i]? = some (.over k) →
      Step s (.drainEnds i) ({ s with base := s.base.finish i (.drain k) }.setDrain i .waiting)
  | pop {s : StrandRun} {i ran : ℕ} {k : StrandId} {t : Task} {rest : List Task} :
      s.drains[i]? = some (.popping k ran) → (s.strands k).queue = t :: rest →
      Step s (.pop i) (s.beginTask i k ran t rest)
  | popNone {s : StrandRun} {i ran : ℕ} {k : StrandId} :
      s.drains[i]? = some (.popping k ran) → (s.strands k).queue = [] →
      Step s (.pop i) (s.setDrain i (.deleting k))
  | taskEnds {s : StrandRun} {i ran : ℕ} {k : StrandId} {threw : Bool} :
      s.drains[i]? = some (.inTask k ran) →
      Step s (.taskEnds i threw) (s.setDrain i
        (if ran + 1 < Strand.kBatchSize then .popping k (ran + 1) else .deleting k))
  | deletesEnd {s : StrandRun} {i : ℕ} {k : StrandId} :
      s.drains[i]? = some (.deleting k) → Step s (.deletesEnd i) (s.setDrain i (.ending k))
  | more {s : StrandRun} {i : ℕ} {k : StrandId} :
      s.drains[i]? = some (.ending k) → (s.strands k).queue ≠ [] →
      Step s (.lookForMore i) (s.setDrain i (.scheduling k))
  | noMore {s : StrandRun} {i : ℕ} {k : StrandId} :
      s.drains[i]? = some (.ending k) → (s.strands k).queue = [] →
      Step s (.lookForMore i)
        ((s.modifyStrand k fun st => { st with scheduled := false }).setDrain i (.over k))
  | reschedule {s : StrandRun} {i : ℕ} {k : StrandId} {p : TaskPool} :
      s.drains[i]? = some (.scheduling k) → s.base.pool.enqueueStrandDrain k = some p →
      Step s (.reschedule i)
        ({ s with base := s.base.enqueueStrandDrain k }.setDrain i (.over k))
  | rescheduleRefused {s : StrandRun} {i : ℕ} {k : StrandId} :
      s.drains[i]? = some (.scheduling k) → s.base.pool.enqueueStrandDrain k = none →
      Step s (.reschedule i) (s.setDrain i (.refused k))
  | unschedule {s : StrandRun} {i : ℕ} {k : StrandId} :
      s.drains[i]? = some (.refused k) →
      Step s (.unschedule i)
        ((s.modifyStrand k fun st => { st with scheduled := false }).setDrain i (.over k))
  | post {s : StrandRun} {k : StrandId} :
      k < s.nextStrand →
      Step s (.post k) { s with posters := s.posters ++ [.testing k] }
  | testRetired {s : StrandRun} {j : ℕ} {k : StrandId} :
      s.posters[j]? = some (.testing k) →
      Step s (.testRetired j)
        (s.setPoster j (if (s.strands k).retired then .returned else .pushing k))
  | push {s : StrandRun} {j : ℕ} {k : StrandId} :
      s.posters[j]? = some (.pushing k) →
      Step s (.push j) ((s.pushTask k).setPoster j
        (if (s.strands k).scheduled then .returned else .scheduling k))
  | schedule {s : StrandRun} {j : ℕ} {k : StrandId} {p : TaskPool} :
      s.posters[j]? = some (.scheduling k) → s.base.pool.enqueueStrandDrain k = some p →
      Step s (.schedule j)
        ({ s with base := s.base.enqueueStrandDrain k }.setPoster j .returned)
  | scheduleRefused {s : StrandRun} {j : ℕ} {k : StrandId} :
      s.posters[j]? = some (.scheduling k) → s.base.pool.enqueueStrandDrain k = none →
      Step s (.schedule j) (s.setPoster j (.refused k))
  | giveUp {s : StrandRun} {j : ℕ} {k : StrandId} :
      s.posters[j]? = some (.refused k) →
      Step s (.giveUp j)
        ((s.modifyStrand k fun st => { st with scheduled := false }).setPoster j .returned)
  | mayAcquire {s : StrandRun} :
      s.base.pool.stopping = false → s.base.pool.workers ≠ 0 →
      Step s .mayAcquire { s with acquiring := s.acquiring + 1 }
  | acquire {s : StrandRun} :
      0 < s.acquiring →
      Step s .acquire
        { s with acquiring := s.acquiring - 1, nextStrand := s.nextStrand + 1 }
  | retire {s : StrandRun} {k : StrandId} :
      s.base.shutdown = some .joined →
      Step s (.retire k) (s.modifyStrand k fun st => { st with retired := true })
  | clear {s : StrandRun} {k : StrandId} :
      s.base.shutdown = some .joined → (s.strands k).retired = true →
      Step s (.clear k) (s.modifyStrand k fun st => { st with queue := [] })

/-! ### Counting drains -/

/-- The drains of a strand that are queued in the pool, or running its tasks or deletes. -/
def drainCount (k : StrandId) : ℕ :=
  s.base.pool.queue.count (.drain k) + s.drains.countP (DrainPhase.drains k)

/-- The threads that are about to queue a drain of the strand. -/
def scheduleCount (k : StrandId) : ℕ :=
  s.drains.countP (DrainPhase.schedules k) + s.posters.countP (PostPhase.schedules k)

/-- The drains of a strand that are outstanding. -/
def outstanding (k : StrandId) : ℕ := s.drainCount k + s.scheduleCount k

variable {s s' : StrandRun} {l : StrandStep} {n i j : ℕ} {k : StrandId} {p q : DrainPhase}
  {a b : PostPhase}

theorem outstanding_setDrain (h : s.drains[i]? = some p) :
    (s.setDrain i q).outstanding k + p.weight k = s.outstanding k + q.weight k := by
  have hdrain := countP_set_add (p := DrainPhase.drains k) (b := q) h
  have hsched := countP_set_add (p := DrainPhase.schedules k) (b := q) h
  simp only [outstanding, drainCount, scheduleCount, setDrain, DrainPhase.weight]
  omega

theorem outstanding_setPoster (h : s.posters[j]? = some a) :
    (s.setPoster j b).outstanding k + a.weight k = s.outstanding k + b.weight k := by
  have hsched := countP_set_add (p := PostPhase.schedules k) (b := b) h
  simp only [outstanding, drainCount, scheduleCount, setPoster, PostPhase.weight]
  omega

/-- The pool has another queue. -/
theorem outstanding_withBase {b : PoolRun} :
    { s with base := b }.outstanding k + s.base.pool.queue.count (.drain k) =
      s.outstanding k + b.pool.queue.count (.drain k) := by
  simp only [outstanding, drainCount, scheduleCount]
  omega

/-! ### The workers of the pool -/

/-- The pool and the strands have the same workers. -/
def Synced (s : StrandRun) : Prop := s.base.threads = s.drains.map DrainPhase.worker

theorem Synced.thread (hs : Synced s) (h : s.drains[i]? = some p) :
    s.base.threads[i]? = some p.worker := by
  rw [hs, List.getElem?_map, h]
  rfl

/-- A worker that waits for work waits. -/
theorem Synced.waiting (hs : Synced s) (h : s.base.threads[i]? = some .waiting) :
    s.drains[i]? = some .waiting := by
  rw [hs, List.getElem?_map, Option.map_eq_some_iff] at h
  obtain ⟨p, hp, hw⟩ := h
  cases p <;> simp_all [DrainPhase.worker]

theorem Synced.set {x : WorkerPhase} (hs : Synced s) (hx : q.worker = x) :
    s.base.threads.set i x = (s.drains.set i q).map DrainPhase.worker := by
  rw [List.map_set, hx, hs]

/-- Where nothing changes for the worker of the pool. -/
theorem Synced.setDrain (hs : Synced s) (h : s.drains[i]? = some p)
    (hw : q.worker = p.worker) : Synced (s.setDrain i q) := by
  have hset : s.base.threads.set i p.worker = s.base.threads :=
    set_self (hs.thread h)
  have := hs.set (i := i) hw
  rw [hset] at this
  exact this

end StrandRun

/-- What a step of the pool that concerns no worker keeps. -/
theorem PoolRun.Step.plain {s s' : PoolRun} {l : PoolStep} (hl : l.IsPlain)
    (h : PoolRun.Step s l s') : s'.threads = s.threads ∧
      ∀ k, s'.pool.queue.count (.drain k) = s.pool.queue.count (.drain k) := by
  cases h with
  | @start callable =>
      rw [PoolRun.start]
      split
      · exact ⟨rfl, fun _ => rfl⟩
      · exact ⟨rfl, fun k => by simp [List.count_append]⟩
  | enqueueStrandDrain => exact absurd hl (by simp [PoolStep.IsPlain])
  | take => exact absurd hl (by simp [PoolStep.IsPlain])
  | finish => exact absurd hl (by simp [PoolStep.IsPlain])
  | leave => exact absurd hl (by simp [PoolStep.IsPlain])
  | waitForDone => exact ⟨rfl, fun _ => rfl⟩
  | waitReturns => exact ⟨rfl, fun _ => rfl⟩
  | shutdown => exact ⟨rfl, fun _ => rfl⟩
  | stopAccepting => exact ⟨rfl, fun _ => rfl⟩
  | join => exact ⟨rfl, fun _ => rfl⟩
  | setJoined => exact ⟨rfl, fun _ => rfl⟩
  | shutdownReturns => exact ⟨rfl, fun _ => rfl⟩

namespace StrandRun

variable {s s' : StrandRun} {l : StrandStep} {n i j : ℕ} {k : StrandId} {p q : DrainPhase}
  {a b : PostPhase}

/-- **The strands run on the pool**: a step is a step of the pool, or none of it. -/
theorem Step.base (hs : Synced s) (h : Step s l s') :
    s'.base = s.base ∨ ∃ x, PoolRun.Step s.base x s'.base := by
  cases h with
  | pool hl hb => exact Or.inr ⟨_, hb⟩
  | take hx hq => exact Or.inr ⟨_, .take hx hq⟩
  | leave hb => exact Or.inr ⟨_, hb⟩
  | callEnds hp => exact Or.inr ⟨.finish _ false, .finish (hs.thread hp)⟩
  | drainEnds hp => exact Or.inr ⟨.finish _ false, .finish (hs.thread hp)⟩
  | reschedule hp hacc => exact Or.inr ⟨_, .enqueueStrandDrain⟩
  | schedule hp hacc => exact Or.inr ⟨_, .enqueueStrandDrain⟩
  | _ => exact Or.inl rfl

/-- A step keeps the workers in step. -/
theorem Synced.step (hs : Synced s) (h : Step s l s') : Synced s' := by
  cases h with
  | pool hl hb => exact ((PoolRun.Step.plain hl hb).1).trans hs
  | @take i task rest hx hq =>
      exact hs.set (by cases task <;> rfl)
  | leave hb =>
      cases hb with
      | leave hx hstop hq => exact hs.set rfl
  | callEnds hp => exact hs.set rfl
  | drainEnds hp => exact hs.set rfl
  | pop hp hq => exact hs.setDrain hp rfl
  | popNone hp hq => exact hs.setDrain hp rfl
  | taskEnds hp => exact hs.setDrain hp (by split <;> rfl)
  | deletesEnd hp => exact hs.setDrain hp rfl
  | more hp hq => exact hs.setDrain hp rfl
  | noMore hp hq => exact hs.setDrain hp rfl
  | @reschedule i k pl hp hacc =>
      have hb : Synced { s with base := s.base.enqueueStrandDrain k } := by
        rcases s.base.enqueueStrandDrain_cases k with heq | ⟨-, heq⟩
        · rw [heq]
          exact hs
        · rw [heq]
          exact hs
      exact hb.setDrain hp rfl
  | rescheduleRefused hp hacc => exact hs.setDrain hp rfl
  | unschedule hp => exact hs.setDrain hp rfl
  | @schedule j k pl hp hacc =>
      rcases s.base.enqueueStrandDrain_cases k with heq | ⟨-, heq⟩
      · rw [heq]
        exact hs
      · rw [heq]
        exact hs
  | _ => exact hs

/-! ### One drain per strand -/

/-- **The token of a strand**: a drain is outstanding iff `m_scheduled` is set, and then it is
the only one. -/
def Token (s : StrandRun) : Prop :=
  ∀ k, s.outstanding k = if (s.strands k).scheduled then 1 else 0

theorem scheduled_modifyStrand (s : StrandRun) (k j : StrandId) (f : Strand → Strand) :
    ((s.modifyStrand k f).strands j).scheduled =
      if j = k then (f (s.strands k)).scheduled else (s.strands j).scheduled := by
  simp only [modifyStrand, Function.update_apply]
  split <;> rfl

theorem scheduled_clear (s : StrandRun) (k j : StrandId) :
    ((s.modifyStrand k fun st => { st with scheduled := false }).strands j).scheduled =
      if j = k then false else (s.strands j).scheduled :=
  scheduled_modifyStrand s k j _

theorem scheduled_pushTask (s : StrandRun) (k j : StrandId) :
    ((s.pushTask k).strands j).scheduled = if j = k then true else (s.strands j).scheduled :=
  scheduled_modifyStrand s k j fun st =>
    { st with queue := st.queue ++ [.call s.posts], scheduled := true }

/-- The token stays where it is. -/
theorem Token.same (ht : Token s) (ho : ∀ j, s'.outstanding j = s.outstanding j)
    (hs : ∀ j, (s'.strands j).scheduled = (s.strands j).scheduled) : Token s' := by
  intro j
  rw [ho, hs]
  exact ht j

/-- The token of a strand is given up. -/
theorem Token.release (ht : Token s)
    (ho : ∀ j, s'.outstanding j + (if k = j then 1 else 0) = s.outstanding j)
    (hs : ∀ j, (s'.strands j).scheduled = if j = k then false else (s.strands j).scheduled) :
    Token s' := by
  intro j
  have hj := ho j
  rw [ht j] at hj
  rw [hs]
  by_cases hjk : j = k
  · subst hjk
    rw [if_pos rfl] at hj ⊢
    simp only [Bool.false_eq_true, if_false]
    split at hj <;> omega
  · rw [if_neg (Ne.symm hjk)] at hj
    rw [if_neg hjk]
    omega

/-- A strand gets a token. -/
theorem Token.gain (ht : Token s) (hk : (s.strands k).scheduled = false)
    (ho : ∀ j, s'.outstanding j = s.outstanding j + if k = j then 1 else 0)
    (hs : ∀ j, (s'.strands j).scheduled = if j = k then true else (s.strands j).scheduled) :
    Token s' := by
  intro j
  rw [ho, ht j, hs]
  by_cases hjk : j = k
  · subst hjk
    simp [hk]
  · rw [if_neg hjk, if_neg (Ne.symm hjk), Nat.add_zero]

/-- A worker goes on with what it has. -/
theorem Token.setDrain (ht : Token s) (h : s.drains[i]? = some p)
    (hw : ∀ j, q.weight j = p.weight j) : Token (s.setDrain i q) := by
  refine ht.same (fun j => ?_) fun _ => rfl
  have hset := outstanding_setDrain (k := j) (q := q) h
  rw [hw] at hset
  omega

/-- A thread that posts goes on with what it has. -/
theorem Token.setPoster (ht : Token s) (h : s.posters[j]? = some a)
    (hw : ∀ m, b.weight m = a.weight m) : Token (s.setPoster j b) := by
  refine ht.same (fun m => ?_) fun _ => rfl
  have hset := outstanding_setPoster (k := m) (b := b) h
  rw [hw] at hset
  omega

/-- The pool has the same drains in its queue. -/
theorem Token.withBase {b : PoolRun} (ht : Token s) (hq : ∀ j,
    b.pool.queue.count (.drain j) = s.base.pool.queue.count (.drain j)) :
    Token { s with base := b } := by
  refine ht.same (fun j => ?_) fun _ => rfl
  have hbase := outstanding_withBase (s := s) (b := b) (k := j)
  rw [hq j] at hbase
  omega

/-- A strand changes, but not its flag. -/
theorem Token.modifyStrand {f : Strand → Strand} (ht : Token s)
    (hf : ∀ st, (f st).scheduled = st.scheduled) : Token (s.modifyStrand k f) := by
  refine ht.same (fun _ => rfl) fun j => ?_
  rw [scheduled_modifyStrand, hf]
  split
  · subst_vars
    rfl
  · rfl

/-- A worker gives up its token and clears the flag. -/
theorem Token.releaseDrain (ht : Token s) (hp : s.drains[i]? = some p)
    (hw : ∀ j, p.weight j = if k = j then 1 else 0) (hq : ∀ j, q.weight j = 0) :
    Token ((s.modifyStrand k fun st => { st with scheduled := false }).setDrain i q) := by
  refine ht.release (k := k) (fun j => ?_) fun j => scheduled_clear s k j
  have hset := outstanding_setDrain (q := q) (k := j)
    (s := s.modifyStrand k fun st => { st with scheduled := false }) hp
  rw [hw, hq] at hset
  exact hset

/-- A thread that posts gives up its token and clears the flag. -/
theorem Token.releasePoster (ht : Token s) (hp : s.posters[j]? = some a)
    (hw : ∀ m, a.weight m = if k = m then 1 else 0) (hb : ∀ m, b.weight m = 0) :
    Token ((s.modifyStrand k fun st => { st with scheduled := false }).setPoster j b) := by
  refine ht.release (k := k) (fun m => ?_) fun m => scheduled_clear s k m
  have hset := outstanding_setPoster (b := b) (k := m)
    (s := s.modifyStrand k fun st => { st with scheduled := false }) hp
  rw [hw, hb] at hset
  exact hset

/-- Queuing a task sets the flag; the thread that finds it clear takes the token. -/
theorem Token.push (ht : Token s) (hp : s.posters[j]? = some (.pushing k)) :
    Token ((s.pushTask k).setPoster j
      (if (s.strands k).scheduled then .returned else .scheduling k)) := by
  cases hk : (s.strands k).scheduled with
  | true =>
      refine ht.same (fun m => ?_) fun m => ?_
      · have hset := outstanding_setPoster (s := s.pushTask k) (b := .returned) (k := m) hp
        exact Nat.add_right_cancel hset
      · refine (scheduled_pushTask s k m).trans ?_
        split
        · subst_vars
          exact hk.symm
        · rfl
  | false =>
      refine ht.gain hk (fun m => ?_) fun m => scheduled_pushTask s k m
      have hset := outstanding_setPoster (s := s.pushTask k) (b := .scheduling k) (k := m) hp
      simp only [PostPhase.weight, PostPhase.schedules, beq_iff_eq, Bool.false_eq_true,
        if_false] at hset
      exact hset

/-- The worker of a pool's task is the outstanding drain that was queued. -/
theorem weight_ofTask (task : PoolTask) (k : StrandId) :
    (DrainPhase.ofTask task).weight k = [task].count (.drain k) := by
  cases task with
  | call id => simp [DrainPhase.ofTask, DrainPhase.weight, DrainPhase.drains, DrainPhase.schedules]
  | drain j =>
      by_cases hj : j = k <;>
        simp [DrainPhase.ofTask, DrainPhase.weight, DrainPhase.drains, DrainPhase.schedules, hj]

/-- A drain is accepted by the pool. -/
theorem count_enqueueStrandDrain {pl : TaskPool}
    (hacc : s.base.pool.enqueueStrandDrain k = some pl) (j : StrandId) :
    (s.base.enqueueStrandDrain k).pool.queue.count (.drain j) =
      s.base.pool.queue.count (.drain j) + if k = j then 1 else 0 := by
  obtain ⟨-, rfl⟩ := TaskPool.enqueueStrandDrain_eq_some hacc
  rw [PoolRun.enqueueStrandDrain, hacc]
  by_cases hj : k = j <;> simp [List.count_append, hj]

/-- **The step lemma for the tokens.** -/
theorem Token.step (ht : Token s) (hs : Synced s) (h : Step s l s') : Token s' := by
  cases h with
  | pool hl hb => exact ht.withBase (PoolRun.Step.plain hl hb).2
  | @take i task rest hx hq =>
      refine ht.same (fun j => ?_) fun _ => rfl
      have hset := outstanding_setDrain (s := { s with base := s.base.take i task rest })
        (q := .ofTask task) (k := j) (hs.waiting hx)
      have hbase := outstanding_withBase (s := s) (b := s.base.take i task rest) (k := j)
      have hcount : s.base.pool.queue.count (.drain j) =
          [task].count (.drain j) + rest.count (.drain j) := by
        rw [hq, ← List.singleton_append, List.count_append]
      rw [weight_ofTask] at hset
      simp only [DrainPhase.weight, DrainPhase.drains, DrainPhase.schedules] at hset
      simp only [PoolRun.take] at hbase hset ⊢
      simp only [Bool.false_eq_true, if_false] at hset
      omega
  | leave hb =>
      cases hb with
      | leave hx hstop hq =>
          exact (ht.withBase fun _ => rfl).setDrain (hs.waiting hx) fun _ => rfl
  | callEnds hp => exact (ht.withBase fun _ => rfl).setDrain hp fun _ => rfl
  | drainEnds hp => exact (ht.withBase fun _ => rfl).setDrain hp fun _ => rfl
  | @pop i ran k t rest hp hq =>
      have hstrand : Token (s.modifyStrand k fun st => { st with queue := rest }) :=
        ht.modifyStrand fun _ => rfl
      exact hstrand.setDrain (q := .inTask k ran) hp fun _ => rfl
  | popNone hp hq => exact ht.setDrain hp fun _ => rfl
  | taskEnds hp => exact ht.setDrain hp fun _ => by split <;> rfl
  | deletesEnd hp => exact ht.setDrain hp fun _ => rfl
  | more hp hq =>
      exact ht.setDrain hp fun j => by
        simp [DrainPhase.weight, DrainPhase.drains, DrainPhase.schedules]
  | @noMore i k hp hq => exact ht.releaseDrain hp (fun j => by simp [DrainPhase.weight,
      DrainPhase.drains, DrainPhase.schedules]) fun j => rfl
  | @reschedule i k pl hp hacc =>
      refine ht.same (fun j => ?_) fun _ => rfl
      have hset := outstanding_setDrain (s := { s with base := s.base.enqueueStrandDrain k })
        (q := .over k) (k := j) hp
      have hbase := outstanding_withBase (s := s) (b := s.base.enqueueStrandDrain k) (k := j)
      rw [count_enqueueStrandDrain hacc] at hbase
      simp only [DrainPhase.weight, DrainPhase.drains, DrainPhase.schedules, beq_iff_eq,
        Bool.false_eq_true, if_false] at hset
      omega
  | rescheduleRefused hp hacc => exact ht.setDrain hp fun _ => rfl
  | unschedule hp => exact ht.releaseDrain hp (fun j => by simp [DrainPhase.weight,
      DrainPhase.drains, DrainPhase.schedules]) fun j => rfl
  | @post k hk =>
      refine ht.same (fun j => ?_) fun _ => rfl
      simp [outstanding, drainCount, scheduleCount, PostPhase.schedules]
  | testRetired hp => exact ht.setPoster hp fun _ => by split <;> rfl
  | push hp => exact ht.push hp
  | @schedule j k pl hp hacc =>
      refine ht.same (fun m => ?_) fun _ => rfl
      have hset := outstanding_setPoster (s := { s with base := s.base.enqueueStrandDrain k })
        (b := .returned) (k := m) hp
      have hbase := outstanding_withBase (s := s) (b := s.base.enqueueStrandDrain k) (k := m)
      rw [count_enqueueStrandDrain hacc] at hbase
      simp only [PostPhase.weight, PostPhase.schedules, beq_iff_eq, Bool.false_eq_true,
        if_false] at hset
      omega
  | scheduleRefused hp hacc => exact ht.setPoster hp fun _ => rfl
  | giveUp hp => exact ht.releasePoster hp (fun m => by simp [PostPhase.weight,
      PostPhase.schedules]) fun m => rfl
  | retire hj => exact ht.modifyStrand fun _ => rfl
  | clear hj hr => exact ht.modifyStrand fun _ => rfl
  | mayAcquire => exact ht
  | acquire => exact ht

/-! ### No lost wake-up -/

/-- The pool refuses a drain only when its workers are joined, or when it has never had any. -/
theorem joined_of_refused (hi : PoolRun.Inv n s.base) (hn : 0 < n)
    (h : s.base.pool.enqueueStrandDrain k = none) : s.base.pool.joined = true := by
  unfold TaskPool.enqueueStrandDrain at h
  split at h
  · rename_i hnone
    simp only [Bool.or_eq_true, Bool.and_eq_true, beq_iff_eq, Bool.not_eq_true'] at hnone
    rcases hnone with hj | ⟨hw, hstop⟩
    · exact hj
    · have := hi.staffed.workers hstop
      omega
  · exact absurd h (by simp)

/-- There are strands and threads that post only if the pool has workers. -/
def Manned (n : ℕ) (s : StrandRun) : Prop :=
  s.posters ≠ [] ∨ 0 < s.acquiring ∨ 0 < s.nextStrand → 0 < n

/-- A thread whose drain was refused finds the workers joined. -/
def Refusals (s : StrandRun) : Prop :=
  s.base.pool.joined = false → ∀ k, .refused k ∉ s.drains ∧ .refused k ∉ s.posters

/-- As long as the workers are not joined, a strand with tasks has its flag set. -/
def Awake (s : StrandRun) : Prop :=
  s.base.pool.joined = false → ∀ k, (s.strands k).queue ≠ [] → (s.strands k).scheduled = true

theorem joined_of_step (hs : Synced s) (h : Step s l s') (hj : s'.base.pool.joined = false) :
    s.base.pool.joined = false := by
  rcases h.base hs with hb | ⟨x, hb⟩
  · rwa [hb] at hj
  · exact hb.joined hj

theorem posters_ne_nil (h : s.posters[j]? = some a) : s.posters ≠ [] :=
  List.ne_nil_of_mem (List.mem_of_getElem? h)

theorem Manned.step (hm : Manned n s) (hi : PoolRun.Inv n s.base) (h : Step s l s') :
    Manned n s' := by
  have hset : ∀ {m : ℕ} {x : PostPhase}, s.posters.set m x ≠ [] → s.posters ≠ [] := by
    intro m x hx hnil
    exact hx (by rw [hnil, List.set_nil])
  cases h with
  | post hk => exact fun _ => hm (Or.inr (Or.inr (Nat.zero_lt_of_lt hk)))
  | testRetired hp => exact fun hor => hm (hor.imp_left hset)
  | push hp => exact fun hor => hm (hor.imp_left hset)
  | schedule hp hacc => exact fun hor => hm (hor.imp_left hset)
  | scheduleRefused hp hacc => exact fun hor => hm (hor.imp_left hset)
  | giveUp hp => exact fun hor => hm (hor.imp_left hset)
  | mayAcquire hstop hw =>
      intro _
      have := hi.staffed.workers hstop
      omega
  | acquire hpos => exact fun _ => hm (Or.inr (Or.inl hpos))
  | _ => exact hm

theorem Refusals.step (hr : Refusals s) (hm : Manned n s) (hi : PoolRun.Inv n s.base)
    (hs : Synced s) (h : Step s l s') : Refusals s' := by
  intro hj m
  obtain ⟨hdrains, hposters⟩ := hr (joined_of_step hs h hj) m
  have hdrain : ∀ {i : ℕ} {q : DrainPhase}, q ≠ .refused m → .refused m ∉ s.drains.set i q :=
    fun hq hmem => (mem_set hmem).elim (fun heq => hq heq.symm) hdrains
  have hposter : ∀ {j : ℕ} {b : PostPhase}, b ≠ .refused m → .refused m ∉ s.posters.set j b :=
    fun hb hmem => (mem_set hmem).elim (fun heq => hb heq.symm) hposters
  cases h with
  | pool hl hb => exact ⟨hdrains, hposters⟩
  | @take i task rest hx hq => exact ⟨hdrain (by cases task <;> simp [DrainPhase.ofTask]), hposters⟩
  | leave hb => exact ⟨hdrain (by simp), hposters⟩
  | callEnds hp => exact ⟨hdrain (by simp), hposters⟩
  | drainEnds hp => exact ⟨hdrain (by simp), hposters⟩
  | pop hp hq => exact ⟨hdrain (by simp), hposters⟩
  | popNone hp hq => exact ⟨hdrain (by simp), hposters⟩
  | taskEnds hp => exact ⟨hdrain (by split <;> simp), hposters⟩
  | deletesEnd hp => exact ⟨hdrain (by simp), hposters⟩
  | more hp hq => exact ⟨hdrain (by simp), hposters⟩
  | noMore hp hq => exact ⟨hdrain (by simp), hposters⟩
  | reschedule hp hacc => exact ⟨hdrain (by simp), hposters⟩
  | rescheduleRefused hp hnone =>
      have hlen : 0 < n := by
        have hlen := hi.staffed.length
        rw [hs, List.length_map] at hlen
        have := (List.getElem?_eq_some_iff.mp hp).1
        omega
      have hj' : s.base.pool.joined = false := hj
      rw [joined_of_refused hi hlen hnone] at hj'
      exact absurd hj' (by simp)
  | unschedule hp => exact ⟨hdrain (by simp), hposters⟩
  | post hk => exact ⟨hdrains, fun hmem => by simp [hposters] at hmem⟩
  | testRetired hp => exact ⟨hdrains, hposter (by split <;> simp)⟩
  | push hp => exact ⟨hdrains, hposter (by split <;> simp)⟩
  | schedule hp hacc => exact ⟨hdrains, hposter (by simp)⟩
  | scheduleRefused hp hnone =>
      have hj' : s.base.pool.joined = false := hj
      rw [joined_of_refused hi (hm (Or.inl (posters_ne_nil hp))) hnone] at hj'
      exact absurd hj' (by simp)
  | giveUp hp => exact ⟨hdrains, hposter (by simp)⟩
  | mayAcquire hstop hw => exact ⟨hdrains, hposters⟩
  | acquire hpos => exact ⟨hdrains, hposters⟩
  | retire hd => exact ⟨hdrains, hposters⟩
  | clear hd hret => exact ⟨hdrains, hposters⟩

/-- A strand changes so that its flag is set if it has tasks. -/
theorem Awake.modifyStrand {f : Strand → Strand} (hf : ∀ j, (s.strands j).queue ≠ [] →
      (s.strands j).scheduled = true)
    (hk : (f (s.strands k)).queue ≠ [] → (f (s.strands k)).scheduled = true) (j : StrandId)
    (hq : ((s.modifyStrand k f).strands j).queue ≠ []) :
    ((s.modifyStrand k f).strands j).scheduled = true := by
  simp only [StrandRun.modifyStrand, Function.update_apply] at hq ⊢
  split
  · rw [if_pos ‹_›] at hq
    exact hk hq
  · rw [if_neg ‹_›] at hq
    exact hf j hq

theorem Awake.step (ha : Awake s) (hr : Refusals s) (hs : Synced s) (h : Step s l s') :
    Awake s' := by
  intro hj
  have hkeep := ha (joined_of_step hs h hj)
  cases h with
  | @pop i ran k t rest hp hq =>
      exact Awake.modifyStrand (f := fun st => { st with queue := rest }) hkeep fun _ =>
        hkeep k (by rw [hq]; simp)
  | @noMore i k hp hq =>
      exact Awake.modifyStrand (f := fun st => { st with scheduled := false }) hkeep fun hne =>
        absurd hq hne
  | @unschedule i k hp => exact absurd (List.mem_of_getElem? hp) (hr hj k).1
  | @push j k hp =>
      exact Awake.modifyStrand (f := fun st =>
        { st with queue := st.queue ++ [.call s.posts], scheduled := true }) hkeep fun _ => rfl
  | @giveUp j k hp => exact absurd (List.mem_of_getElem? hp) (hr hj k).2
  | @retire k hd =>
      exact Awake.modifyStrand (f := fun st => { st with retired := true }) hkeep (hkeep k)
  | @clear k hd hret =>
      exact Awake.modifyStrand (f := fun st => { st with queue := [] }) hkeep fun hne =>
        absurd rfl hne
  | _ => exact hkeep

/-! ### The order of the tasks -/

/-- The tasks of a strand begin in the order in which they were posted; while the pool has
workers the ones that have not begun are in the queue. -/
structure Ordered (s : StrandRun) : Prop where
  begun : ∀ k, s.begun k <+: s.posted k
  queued : s.base.pool.joined = false → ∀ k, s.posted k = s.begun k ++ (s.strands k).queue
  number : ∀ k, ∀ t ∈ s.posted k, ∃ m < s.posts, t = .call m
  once : ∀ k, (s.posted k).Nodup

/-- A worker in a drain is not joined. -/
theorem joined_of_drain (hi : PoolRun.Inv n s.base) (hs : Synced s) (hp : s.drains[i]? = some p)
    (hl : p.worker ≠ .left) : s.base.pool.joined = false := by
  by_contra hj
  obtain ⟨hall, -⟩ := hi.staffed.joined (by simpa using hj)
  exact hl (hall _ (List.mem_of_getElem? (hs.thread hp)))

theorem queue_modifyStrand (s : StrandRun) (k j : StrandId) (f : Strand → Strand) :
    ((s.modifyStrand k f).strands j).queue =
      if j = k then (f (s.strands k)).queue else (s.strands j).queue := by
  simp only [modifyStrand, Function.update_apply]
  split <;> rfl

/-- The next task of a strand begins. -/
theorem Ordered.pop {ran : ℕ} {t : Task} {rest : List Task} (ho : Ordered s)
    (hj : s.base.pool.joined = false) (hq : (s.strands k).queue = t :: rest) :
    Ordered (s.beginTask i k ran t rest) := by
  have hqueued : ∀ j, s.posted j = (s.beginTask i k ran t rest).begun j ++
      ((s.beginTask i k ran t rest).strands j).queue := by
    intro j
    have hstrand : ((s.beginTask i k ran t rest).strands j).queue =
        if j = k then rest else (s.strands j).queue :=
      queue_modifyStrand s k j fun st => { st with queue := rest }
    have hbegun : (s.beginTask i k ran t rest).begun j =
        if j = k then s.begun k ++ [t] else s.begun j := Function.update_apply ..
    rw [hstrand, hbegun, ho.queued hj j]
    split
    · subst_vars
      rw [hq, List.append_assoc, List.singleton_append]
    · rfl
  exact ⟨fun j => ⟨_, (hqueued j).symm⟩, fun _ => hqueued, ho.number, ho.once⟩

/-- A task is posted. -/
theorem Ordered.push (ho : Ordered s) : Ordered (s.pushTask k) := by
  have hposted : ∀ j, (s.pushTask k).posted j =
      if j = k then s.posted k ++ [.call s.posts] else s.posted j := fun j =>
    Function.update_apply ..
  refine ⟨fun j => ?_, fun hj j => ?_, fun j t ht => ?_, fun j => ?_⟩
  · rw [hposted]
    split
    · subst_vars
      exact (ho.begun j).trans (List.prefix_append ..)
    · exact ho.begun j
  · have hstrand : ((s.pushTask k).strands j).queue =
        if j = k then (s.strands k).queue ++ [.call s.posts] else (s.strands j).queue :=
      queue_modifyStrand s k j fun st =>
        { st with queue := st.queue ++ [.call s.posts], scheduled := true }
    rw [hposted, hstrand]
    split
    · subst_vars
      rw [ho.queued hj j, List.append_assoc]
      rfl
    · exact ho.queued hj j
  · show ∃ m < s.posts + 1, t = .call m
    rw [hposted] at ht
    split at ht
    · rcases List.mem_append.mp ht with ht | ht
      · obtain ⟨m, hm, rfl⟩ := ho.number k t ht
        exact ⟨m, by omega, rfl⟩
      · exact ⟨s.posts, by omega, List.mem_singleton.mp ht⟩
    · obtain ⟨m, hm, rfl⟩ := ho.number j t ht
      exact ⟨m, by omega, rfl⟩
  · rw [hposted]
    split
    · refine (ho.once k).append (List.nodup_singleton _) fun t ht hnew => ?_
      obtain ⟨m, hm, rfl⟩ := ho.number k t ht
      obtain rfl : m = s.posts := by simpa using hnew
      omega
    · exact ho.once j

/-- A strand changes, but not its queue; the pool may have joined its workers. -/
theorem Ordered.congr (ho : Ordered s) (hb : s'.begun = s.begun) (hp : s'.posted = s.posted)
    (hn : s'.posts = s.posts) (hj : s'.base.pool.joined = false → s.base.pool.joined = false ∧
      ∀ k, (s'.strands k).queue = (s.strands k).queue) : Ordered s' where
  begun := by rw [hb, hp]; exact ho.begun
  queued h k := by
    obtain ⟨hjoin, hq⟩ := hj h
    rw [hb, hp, hq]
    exact ho.queued hjoin k
  number := by rw [hp, hn]; exact ho.number
  once := by rw [hp]; exact ho.once

theorem Ordered.step (ho : Ordered s) (hi : PoolRun.Inv n s.base) (hs : Synced s)
    (h : Step s l s') : Ordered s' := by
  have hjoin : s'.base.pool.joined = false → s.base.pool.joined = false := joined_of_step hs h
  have hflag : ∀ k j : StrandId, ((s.modifyStrand k fun st =>
      { st with scheduled := false }).strands j).queue = (s.strands j).queue := by
    intro k j
    rw [queue_modifyStrand]
    split
    · subst_vars
      rfl
    · rfl
  cases h with
  | pop hp hq => exact ho.pop (joined_of_drain hi hs hp (by simp [DrainPhase.worker])) hq
  | @noMore i k hp hq => exact ho.congr rfl rfl rfl fun h => ⟨h, hflag k⟩
  | @unschedule i k hp => exact ho.congr rfl rfl rfl fun h => ⟨h, hflag k⟩
  | push hp => exact ho.push.congr rfl rfl rfl fun h => ⟨h, fun _ => rfl⟩
  | @giveUp j k hp => exact ho.congr rfl rfl rfl fun h => ⟨h, hflag k⟩
  | retire hd =>
      refine ho.congr rfl rfl rfl fun hfalse => ?_
      have hfalse' : s.base.pool.joined = false := hfalse
      rw [hi.staffed.behind hd] at hfalse'
      exact absurd hfalse' (by simp)
  | clear hd hret =>
      refine ho.congr rfl rfl rfl fun hfalse => ?_
      have hfalse' : s.base.pool.joined = false := hfalse
      rw [hi.staffed.behind hd] at hfalse'
      exact absurd hfalse' (by simp)
  | pool hl hb => exact ho.congr rfl rfl rfl fun h => ⟨hjoin h, fun _ => rfl⟩
  | leave hb => exact ho.congr rfl rfl rfl fun h => ⟨hjoin h, fun _ => rfl⟩
  | reschedule hp hacc => exact ho.congr rfl rfl rfl fun h => ⟨hjoin h, fun _ => rfl⟩
  | schedule hp hacc => exact ho.congr rfl rfl rfl fun h => ⟨hjoin h, fun _ => rfl⟩
  | _ => exact ho.congr rfl rfl rfl fun h => ⟨h, fun _ => rfl⟩

/-- The invariant of a pool with `n` workers and its strands. -/
structure Inv (n : ℕ) (s : StrandRun) : Prop where
  base : PoolRun.Inv n s.base
  synced : Synced s
  token : Token s
  manned : Manned n s
  refusals : Refusals s
  awake : Awake s
  ordered : Ordered s

/-- **The step lemma.** -/
theorem Inv.step (hi : Inv n s) (h : Step s l s') : Inv n s' where
  base := by
    rcases h.base hi.synced with hb | ⟨x, hb⟩
    · exact hb ▸ hi.base
    · exact hi.base.step hb
  synced := hi.synced.step h
  token := hi.token.step hi.synced h
  manned := hi.manned.step hi.base h
  refusals := hi.refusals.step hi.manned hi.base hi.synced h
  awake := hi.awake.step hi.refusals hi.synced h
  ordered := hi.ordered.step hi.base hi.synced h

theorem inv_initial (n : ℕ) : Inv n (initial n) where
  base := PoolRun.inv_initial n
  synced := by simp [Synced, initial, PoolRun.initial, DrainPhase.worker]
  token k := by
    simp [outstanding, drainCount, scheduleCount, initial, PoolRun.initial, List.countP_replicate,
      DrainPhase.drains, DrainPhase.schedules]
  manned h := by simp [initial] at h
  refusals _ k := by simp [initial, List.mem_replicate]
  awake _ k h := absurd rfl h
  ordered := ⟨fun k => List.prefix_rfl, fun _ k => rfl, fun k t ht => absurd ht List.not_mem_nil,
    fun k => List.nodup_nil⟩

/-- The run lemma. -/
theorem inv_of_run {ok : StrandRun → StrandStep → Prop} {ls : List StrandStep}
    (hrun : Run Step ok (initial n) ls s) : Inv n s :=
  hrun.invariant (fun _ _ _ hi _ h => hi.step h) (inv_initial n)

/-- The workers that run a task of a strand are among its drains. -/
theorem inTask_le_drainCount : s.drains.countP (DrainPhase.inTaskOf k) ≤ s.drainCount k := by
  have hle : s.drains.countP (DrainPhase.inTaskOf k) ≤
      s.drains.countP (DrainPhase.drains k) := by
    refine List.countP_mono_left fun p _ hp => ?_
    cases p <;> simp_all [DrainPhase.inTaskOf, DrainPhase.drains]
  rw [drainCount]
  omega

end StrandRun

/-- **A strand runs serially.** In every run of a pool with any number of workers and of
threads that post: at most one drain of a strand is queued or runs its tasks or deletes, so
that its tasks never overlap; the tasks begin in the order in which they were posted, each at
most once; and while the workers are not joined, a strand with queued tasks has `m_scheduled`
set, with exactly one drain outstanding. -/
theorem strand_runs_serially {n : ℕ} {s : StrandRun} {ls : List StrandStep}
    (hrun : Reaches StrandRun.Step (StrandRun.initial n) ls s) (k : StrandId) :
    s.drainCount k ≤ 1 ∧ s.drains.countP (DrainPhase.inTaskOf k) ≤ 1 ∧
      s.begun k <+: s.posted k ∧ (s.begun k).Nodup ∧
      (s.base.pool.joined = false → (s.strands k).queue ≠ [] →
        (s.strands k).scheduled = true ∧ s.outstanding k = 1) := by
  have hi := StrandRun.inv_of_run hrun
  have hone : s.drainCount k ≤ 1 := by
    have htoken := hi.token k
    unfold StrandRun.outstanding at htoken
    split at htoken <;> omega
  refine ⟨hone, Nat.le_trans StrandRun.inTask_le_drainCount hone, hi.ordered.begun k,
    (hi.ordered.once k).sublist (hi.ordered.begun k).sublist, fun hj hq => ?_⟩
  have hflag := hi.awake hj k hq
  refine ⟨hflag, ?_⟩
  rw [hi.token k, hflag]
  rfl

/-- Two threads post to a new strand; a worker runs the first task, which throws, while the
second one waits. -/
def twoPosts : List StrandStep :=
  [.mayAcquire, .acquire, .post 0, .post 0, .testRetired 0, .testRetired 1, .push 1, .push 0,
    .schedule 1, .take 0, .pop 0, .taskEnds 0 true, .pop 0]

/-- The second task runs alone, behind the first one. -/
theorem two_posts_run_in_order : ∃ s, Reaches StrandRun.Step (StrandRun.initial 2) twoPosts s ∧
    s.posted 0 = [.call 0, .call 1] ∧ s.begun 0 = [.call 0, .call 1] ∧
    s.drains = [.inTask 0 1, .waiting] ∧ s.drainCount 0 ≤ 1 := by
  have hrun : ∃ s, Reaches StrandRun.Step (StrandRun.initial 2) twoPosts s ∧
      s.posted 0 = [.call 0, .call 1] ∧ s.begun 0 = [.call 0, .call 1] ∧
      s.drains = [.inTask 0 1, .waiting] :=
    ⟨_, .cons trivial (.mayAcquire rfl (by decide)) (.cons trivial (.acquire (by decide))
      (.cons trivial (.post (by decide)) (.cons trivial (.post (by decide))
      (.cons trivial (.testRetired rfl) (.cons trivial (.testRetired rfl)
      (.cons trivial (.push rfl) (.cons trivial (.push rfl) (.cons trivial (.schedule rfl rfl)
      (.cons trivial (.take rfl rfl) (.cons trivial (.pop rfl rfl) (.cons trivial (.taskEnds rfl)
      (.cons trivial (.pop rfl rfl) (.nil _))))))))))))), rfl, rfl, rfl⟩
  obtain ⟨s, hrun, hposted, hbegun, hdrains⟩ := hrun
  exact ⟨s, hrun, hposted, hbegun, hdrains, (strand_runs_serially hrun 0).1⟩

end SimplyNode
