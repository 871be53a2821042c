import SimplyNode.Migration
import SimplyNode.Lib.Transition

/-!
# The Loops of Pool Workers

The application keeps an `EventLoop` for every thread that has asked for one, by
`std::thread::id`, and never takes one out of the map. A worker of a `ThreadPool` asks for the loop
of its id when it starts; `ThreadPool::shutdown` retires the loops of the workers and joins them.
A loop is retired for good, and what was posted to it and not taken stays in it. Once a thread is
joined, the operating system may give its id to a new one.

A task of a loop is here the pool that its function captured, if it is one that
`ThreadPool::start` or `workerLoop` has posted. A pool object that is destroyed is never used
again, and the pools are numbered in the order of their construction.

## Main results

* `clean_iff_fresh`: in a run, the loops of all workers are their own at any time (those of
  running pools are not retired, and none holds a task of another pool) iff no worker was given
  the id of a worker that was joined.
* `moveToThread_not_refused`: what a loop that is not retired means for a move to its thread.
* `inherited_loop`: a run in which a worker gets the loop of a worker of a destroyed pool.
-/

open Transition

namespace SimplyNode

/-- The number of a thread pool. -/
abbrev PoolNumber := ℕ

/-- An entry of `m_eventLoops`, with the pools that the tasks in its queue have captured. -/
structure LoopEntry where
  created : Bool := false
  retired : Bool := false
  tasks : List (Option PoolNumber) := []
  deriving DecidableEq

/-- What a thread id is in use for. -/
inductive ThreadUse
  /-- No thread has the id. -/
  | free
  /-- A thread that no pool has made. -/
  | plain
  /-- A worker of a pool, until it is joined. -/
  | worker (pool : PoolNumber)
  deriving DecidableEq

/-- Where a pool is in its life. -/
inductive PoolStage
  | absent
  | running
  /-- `shutdown` has set `m_stopping`. -/
  | stopping
  | destroyed
  deriving DecidableEq

/-- The threads of a program with its event loops and thread pools. -/
structure AppThreads where
  loops : ThreadId → LoopEntry := fun _ => {}
  threads : ThreadId → ThreadUse := fun _ => .free
  pools : PoolNumber → PoolStage := fun _ => .absent
  /-- The number of the next pool. -/
  nextPool : PoolNumber := 0
  /-- The ids of workers that were joined, with their pools. -/
  joined : List (PoolNumber × ThreadId) := []

/-- What can happen next. -/
inductive AppStep
  /-- A thread starts with an id, and one that no pool has made ends. -/
  | threadStarts (id : ThreadId)
  | threadEnds (id : ThreadId)
  /-- A thread asks for its loop, for instance in a constructor of `Node`. -/
  | useLoop (id : ThreadId)
  /-- A pool is constructed, and its next worker starts with an id. -/
  | createPool
  | startWorker (pool : PoolNumber) (id : ThreadId)
  /-- A call of `start()` of a pool posts to the loop of one of its workers. -/
  | post (pool : PoolNumber) (id : ThreadId)
  /-- Anybody posts another task to a loop. -/
  | postOther (id : ThreadId)
  /-- The thread of a loop takes the next task. -/
  | take (id : ThreadId)
  /-- `shutdown()`: sets `m_stopping`, retires and stops a loop, joins its worker. -/
  | shutdown (pool : PoolNumber)
  | retire (pool : PoolNumber) (id : ThreadId)
  | join (pool : PoolNumber) (id : ThreadId)
  /-- The pool is destroyed. -/
  | destroy (pool : PoolNumber)
  deriving DecidableEq

namespace AppThreads

variable (s : AppThreads)

/-- Changes the loop of a thread. -/
def modifyLoop (id : ThreadId) (f : LoopEntry → LoopEntry) : AppThreads :=
  { s with loops := Function.update s.loops id (f (s.loops id)) }

/-- Changes the use of a thread id. -/
def setThread (id : ThreadId) (u : ThreadUse) : AppThreads :=
  { s with threads := Function.update s.threads id u }

/-- Changes the stage of a pool. -/
def setPool (p : PoolNumber) (stage : PoolStage) : AppThreads :=
  { s with pools := Function.update s.pools p stage }

/-- `Application::getOrCreateCurrentThreadEventLoop`: the loop in the map, or a new one. -/
def getOrCreateLoop (id : ThreadId) : AppThreads :=
  s.modifyLoop id fun l => if l.created then l else { created := true }

/-- A task is posted to the loop of a thread. -/
def post (id : ThreadId) (captured : Option PoolNumber) : AppThreads :=
  s.modifyLoop id fun l => { l with tasks := l.tasks ++ [captured] }

/-- `ThreadPool::workerLoop` up to `run()`: the worker gets its loop and posts the notification
that the constructor waits for. -/
def startWorker (p : PoolNumber) (id : ThreadId) : AppThreads :=
  ((s.setThread id (.worker p)).getOrCreateLoop id).post id (some p)

/-- A worker is, or was, one of a pool. -/
def WorksFor (p : PoolNumber) (id : ThreadId) : Prop :=
  s.threads id = .worker p ∨ (p, id) ∈ s.joined

/-- **One step of the program.** A new thread may get any id that is free. -/
inductive Step : AppThreads → AppStep → AppThreads → Prop
  | threadStarts {s : AppThreads} {id : ThreadId} :
      s.threads id = .free → Step s (.threadStarts id) (s.setThread id .plain)
  | threadEnds {s : AppThreads} {id : ThreadId} :
      s.threads id = .plain → Step s (.threadEnds id) (s.setThread id .free)
  | useLoop {s : AppThreads} {id : ThreadId} :
      s.threads id ≠ .free → Step s (.useLoop id) (s.getOrCreateLoop id)
  | createPool {s : AppThreads} :
      Step s .createPool { s.setPool s.nextPool .running with nextPool := s.nextPool + 1 }
  | startWorker {s : AppThreads} {p : PoolNumber} {id : ThreadId} :
      s.pools p = .running → s.threads id = .free →
      Step s (.startWorker p id) (s.startWorker p id)
  | post {s : AppThreads} {p : PoolNumber} {id : ThreadId} :
      s.pools p ≠ .destroyed → s.WorksFor p id → Step s (.post p id) (s.post id (some p))
  | postOther {s : AppThreads} {id : ThreadId} :
      (s.loops id).created = true → Step s (.postOther id) (s.post id none)
  | take {s : AppThreads} {id : ThreadId} {t : Option PoolNumber}
      {rest : List (Option PoolNumber)} :
      s.threads id ≠ .free → (s.loops id).tasks = t :: rest →
      Step s (.take id) (s.modifyLoop id fun l => { l with tasks := rest })
  | shutdown {s : AppThreads} {p : PoolNumber} :
      s.pools p = .running → Step s (.shutdown p) (s.setPool p .stopping)
  | retire {s : AppThreads} {p : PoolNumber} {id : ThreadId} :
      s.pools p = .stopping → s.threads id = .worker p →
      Step s (.retire p id) (s.modifyLoop id fun l => { l with retired := true })
  | join {s : AppThreads} {p : PoolNumber} {id : ThreadId} :
      s.pools p = .stopping → s.threads id = .worker p → (s.loops id).retired = true →
      Step s (.join p id) { s.setThread id .free with joined := (p, id) :: s.joined }
  | destroy {s : AppThreads} {p : PoolNumber} :
      s.pools p = .stopping → (∀ id, s.threads id ≠ .worker p) →
      Step s (.destroy p) (s.setPool p .destroyed)

/-! ### What is to be proved -/

/-- The loops of the workers are their own: a worker of a running pool has a loop that is not
retired, and the tasks in the loop of a worker have captured no pool but its own. -/
def Clean : Prop :=
  ∀ id p, s.threads id = .worker p →
    (s.pools p = .running → (s.loops id).created = true ∧ (s.loops id).retired = false) ∧
      ∀ q, some q ∈ (s.loops id).tasks → q = p

/-- **The condition on a step**: a new worker does not get the id of a worker that was joined. -/
def Fresh : AppStep → Prop
  | .startWorker _ id => ∀ q, (q, id) ∉ s.joined
  | _ => True

variable {s} {s' : AppThreads} {l : AppStep} {id : ThreadId} {p : PoolNumber}

/-! ### The entries of the map -/

@[simp] theorem loops_modifyLoop (f : LoopEntry → LoopEntry) (x : ThreadId) :
    (s.modifyLoop id f).loops x = if x = id then f (s.loops id) else s.loops x :=
  Function.update_apply ..

@[simp] theorem threads_setThread (u : ThreadUse) (x : ThreadId) :
    (s.setThread id u).threads x = if x = id then u else s.threads x :=
  Function.update_apply ..

@[simp] theorem pools_setPool (stage : PoolStage) (q : PoolNumber) :
    (s.setPool p stage).pools q = if q = p then stage else s.pools q :=
  Function.update_apply ..

/-- A loop that is there already is the one that a thread gets. -/
theorem getOrCreateLoop_of_created (h : (s.loops id).created = true) :
    s.getOrCreateLoop id = s := by
  simp only [getOrCreateLoop, modifyLoop, h, if_true, Function.update_eq_self]

/-- What a change of one loop keeps: it is still there, and retired if it was. -/
def Grows (f : LoopEntry → LoopEntry) : Prop :=
  ∀ l : LoopEntry, l.created = true →
    (f l).created = true ∧ (l.retired = true → (f l).retired = true)

/-- In every run: workers have a loop, and the loop of a joined worker is retired. -/
structure Registered (s : AppThreads) : Prop where
  worker : ∀ id p, s.threads id = .worker p → (s.loops id).created = true
  joined : ∀ q id, (q, id) ∈ s.joined → (s.loops id).created = true ∧ (s.loops id).retired = true

/-- A change of one loop. -/
theorem Registered.modifyLoop (h : Registered s) {f : LoopEntry → LoopEntry} (hf : Grows f) :
    Registered (s.modifyLoop id f) where
  worker x p hx := by
    rw [loops_modifyLoop]
    split
    · rename_i heq
      exact (hf _ (heq ▸ h.worker x p hx)).1
    · exact h.worker x p hx
  joined q x hx := by
    obtain ⟨hcreated, hretired⟩ := h.joined q x hx
    rw [loops_modifyLoop]
    split
    · rename_i heq
      subst heq
      exact ⟨(hf _ hcreated).1, (hf _ hcreated).2 hretired⟩
    · exact ⟨hcreated, hretired⟩

theorem Registered.getOrCreateLoop (h : Registered s) : Registered (s.getOrCreateLoop id) := by
  refine h.modifyLoop fun l hl => ?_
  rw [if_pos hl]
  exact ⟨hl, fun hr => hr⟩

theorem Registered.post (h : Registered s) {t : Option PoolNumber} : Registered (s.post id t) :=
  h.modifyLoop fun _ hl => ⟨hl, fun hr => hr⟩

/-- A worker starts: it has a loop from then on. -/
theorem Registered.startWorker (h : Registered s) : Registered (s.startWorker p id) := by
  refine Registered.post ⟨fun x q hx => ?_, fun q x hx => ?_⟩
  · rw [AppThreads.getOrCreateLoop, loops_modifyLoop]
    split
    · split
      · assumption
      · rfl
    · rename_i hne
      refine h.worker x q ?_
      rw [← hx]
      exact (if_neg hne).symm.trans (threads_setThread _ _).symm
  · have hold := h.joined q x hx
    rw [AppThreads.getOrCreateLoop, loops_modifyLoop]
    split
    · rename_i heq
      subst heq
      have hcreated : (((s.setThread x (.worker p)).loops x)).created = true := hold.1
      rw [if_pos hcreated]
      exact hold
    · exact hold

/-- **What every step keeps.** -/
theorem Registered.step (h : Registered s) (hst : Step s l s') : Registered s' := by
  have hthread : ∀ x u, (∀ p, u ≠ .worker p) → Registered (s.setThread x u) := by
    intro x u hu
    refine ⟨fun y q hy => ?_, h.joined⟩
    rw [threads_setThread] at hy
    split at hy
    · exact absurd hy (hu q)
    · exact h.worker y q hy
  cases hst with
  | threadStarts => exact hthread _ _ (by simp)
  | threadEnds => exact hthread _ _ (by simp)
  | useLoop => exact h.getOrCreateLoop
  | createPool => exact ⟨h.worker, h.joined⟩
  | startWorker => exact h.startWorker
  | post => exact h.post
  | postOther => exact h.post
  | take => exact h.modifyLoop fun _ hl => ⟨hl, fun hr => hr⟩
  | shutdown => exact ⟨h.worker, h.joined⟩
  | retire => exact h.modifyLoop fun _ hl => ⟨hl, fun _ => rfl⟩
  | @join p id hstage hworker hretired =>
      have hfree := hthread id .free (by simp)
      refine ⟨hfree.worker, fun q x hx => ?_⟩
      rcases List.mem_cons.mp hx with heq | hx
      · obtain ⟨rfl, rfl⟩ := Prod.mk.inj heq
        exact ⟨h.worker _ _ hworker, hretired⟩
      · exact h.joined q x hx
  | destroy => exact ⟨h.worker, h.joined⟩

/-! ### Runs in which ids are fresh -/

/-- Which loops are retired and which hold tasks of pools. -/
structure Sound (s : AppThreads) : Prop where
  registered : Registered s
  /-- No worker has the id of a joined one. -/
  apart : ∀ q id, (q, id) ∈ s.joined → ∀ p, s.threads id ≠ .worker p
  /-- Only the shutdown of a worker's pool retires a loop. -/
  retired : ∀ id, (s.loops id).retired = true → (∃ q, (q, id) ∈ s.joined) ∨
    ∃ p, s.threads id = .worker p ∧ s.pools p ≠ .running
  /-- Tasks of a pool are in the loops of its workers. -/
  tasks : ∀ id q, some q ∈ (s.loops id).tasks → s.threads id = .worker q ∨
    ∃ q', (q', id) ∈ s.joined
  /-- Pools are numbered. -/
  known : ∀ id p, s.threads id = .worker p → p < s.nextPool
  numbered : ∀ p, s.nextPool ≤ p → s.pools p = .absent

/-- Where ids are fresh, the loops of the workers are their own. -/
theorem Sound.clean (h : Sound s) : s.Clean := by
  intro id p hworker
  refine ⟨fun hrunning => ⟨h.registered.worker id p hworker, ?_⟩, fun q hq => ?_⟩
  · rw [← Bool.not_eq_true]
    intro hretired
    rcases h.retired id hretired with ⟨q, hq⟩ | ⟨p', hp', hstage⟩
    · exact h.apart q id hq p hworker
    · obtain rfl := ThreadUse.worker.inj (hworker.symm.trans hp')
      exact hstage hrunning
  · rcases h.tasks id q hq with hq' | ⟨q', hq'⟩
    · exact ThreadUse.worker.inj (hq'.symm.trans hworker)
    · exact absurd hworker (h.apart q' id hq' p)

/-- A change of one loop that retires it only in a shutdown and adds only tasks of its
worker's pool. -/
theorem Sound.modifyLoop (h : Sound s) {f : LoopEntry → LoopEntry} (hf : Grows f)
    (hretired : (f (s.loops id)).retired = true → (s.loops id).retired = true ∨
      ∃ p, s.threads id = .worker p ∧ s.pools p ≠ .running)
    (htasks : ∀ q, some q ∈ (f (s.loops id)).tasks → some q ∈ (s.loops id).tasks ∨
      s.threads id = .worker q ∨ ∃ q', (q', id) ∈ s.joined) :
    Sound (s.modifyLoop id f) where
  registered := h.registered.modifyLoop hf
  apart := h.apart
  retired x hx := by
    rw [loops_modifyLoop] at hx
    split at hx
    · rename_i heq
      subst heq
      exact (hretired hx).elim (h.retired x) Or.inr
    · exact h.retired x hx
  tasks x q hq := by
    rw [loops_modifyLoop] at hq
    split at hq
    · rename_i heq
      subst heq
      exact (htasks q hq).elim (h.tasks x q) id
    · exact h.tasks x q hq
  known := h.known
  numbered := h.numbered

/-- A thread that no pool has made starts or ends. -/
theorem Sound.setThread (h : Sound s) {u : ThreadUse} (hu : ∀ p, u ≠ .worker p)
    (hid : ∀ p, s.threads id ≠ .worker p) (hreg : Registered (s.setThread id u)) :
    Sound (s.setThread id u) where
  registered := hreg
  apart q x hx p := by
    rw [threads_setThread]
    split
    · exact hu p
    · exact h.apart q x hx p
  retired x hx := by
    rcases h.retired x hx with hj | ⟨p, hp, hstage⟩
    · exact Or.inl hj
    · have hne : x ≠ id := fun heq => hid p (heq ▸ hp)
      exact Or.inr ⟨p, by rw [threads_setThread, if_neg hne, hp], hstage⟩
  tasks x q hq := by
    rcases h.tasks x q hq with hp | hj
    · have hne : x ≠ id := fun heq => hid q (heq ▸ hp)
      exact Or.inl (by rw [threads_setThread, if_neg hne, hp])
    · exact Or.inr hj
  known x p hx := by
    rw [threads_setThread] at hx
    split at hx
    · exact absurd hx (hu p)
    · exact h.known x p hx
  numbered := h.numbered

/-- A pool changes its stage, not back to running. -/
theorem Sound.setPool (h : Sound s) {stage : PoolStage} (hstage : stage ≠ .running)
    (hp : s.pools p ≠ .absent) (hreg : Registered (s.setPool p stage)) :
    Sound (s.setPool p stage) where
  registered := hreg
  apart := h.apart
  retired x hx := by
    refine (h.retired x hx).imp_right ?_
    rintro ⟨p', hp', hold⟩
    refine ⟨p', hp', ?_⟩
    rw [pools_setPool]
    split
    · exact hstage
    · exact hold
  tasks := h.tasks
  known := h.known
  numbered q hq := by
    rw [pools_setPool]
    split
    · rename_i heq
      exact absurd (h.numbered q hq) (heq ▸ hp)
    · exact h.numbered q hq

/-- A worker that starts with a fresh id finds no loop of a pool's worker. -/
theorem Sound.startWorker (h : Sound s) (hrunning : s.pools p = .running)
    (hfree : s.threads id = .free) (hfresh : ∀ q, (q, id) ∉ s.joined) :
    Sound (s.startWorker p id) := by
  have hplain : ∀ q, s.threads id ≠ .worker q := by simp [hfree]
  have hretired : (s.loops id).retired = false := by
    rw [← Bool.not_eq_true]
    intro hr
    rcases h.retired id hr with ⟨q, hq⟩ | ⟨q, hq, -⟩
    · exact hfresh q hq
    · exact hplain q hq
  have htasks : ∀ q, some q ∉ (s.loops id).tasks := by
    intro q hq
    rcases h.tasks id q hq with hq | ⟨q', hq'⟩
    · exact hplain q hq
    · exact hfresh q' hq'
  have hthread : ∀ x, (s.startWorker p id).threads x = if x = id then .worker p else s.threads x :=
    threads_setThread (s := s) _
  have hloop : ∀ x ≠ id, (s.startWorker p id).loops x = s.loops x := by
    intro x hx
    rw [AppThreads.startWorker, AppThreads.post, loops_modifyLoop, if_neg hx,
      AppThreads.getOrCreateLoop, loops_modifyLoop, if_neg hx]
    rfl
  have hnew : (s.startWorker p id).loops id = { created := true, retired := false, tasks :=
      (if (s.loops id).created then (s.loops id).tasks else []) ++ [some p] } := by
    rw [AppThreads.startWorker, AppThreads.post, loops_modifyLoop, if_pos rfl,
      AppThreads.getOrCreateLoop, loops_modifyLoop, if_pos rfl]
    have hsame : (s.setThread id (.worker p)).loops id = s.loops id := rfl
    rw [hsame]
    cases hcreated : (s.loops id).created with
    | true => simp [hcreated, hretired]
    | false => simp
  have hnone : ∀ q, some q ∈ ((s.startWorker p id).loops id).tasks → q = p := by
    intro q hq
    rw [hnew] at hq
    rcases List.mem_append.mp hq with hq | hq
    · split at hq
      · exact absurd hq (htasks q)
      · cases hq
    · exact Option.some.inj (List.mem_singleton.mp hq)
  exact {
    registered := h.registered.startWorker
    apart := fun q x hx p' => by
      have hne : x ≠ id := fun heq => hfresh q (heq ▸ hx)
      rw [hthread, if_neg hne]
      exact h.apart q x hx p'
    retired := fun x hx => by
      by_cases heq : x = id
      · rw [heq, hnew] at hx
        cases hx
      · rw [hloop x heq] at hx
        rw [hthread, if_neg heq]
        exact h.retired x hx
    tasks := fun x q hq => by
      by_cases heq : x = id
      · subst heq
        exact Or.inl (by rw [hthread, if_pos rfl, hnone q hq])
      · rw [hloop x heq] at hq
        rw [hthread, if_neg heq]
        exact h.tasks x q hq
    known := fun x q hx => by
      rw [hthread] at hx
      split at hx
      · obtain rfl := ThreadUse.worker.inj hx
        by_contra hle
        have := h.numbered p (not_lt.mp hle)
        rw [hrunning] at this
        cases this
      · exact h.known x q hx
    numbered := h.numbered }

/-- A pool is created with the next number. -/
theorem Sound.createPool (h : Sound s)
    (hreg : Registered { s.setPool s.nextPool .running with nextPool := s.nextPool + 1 }) :
    Sound { s.setPool s.nextPool .running with nextPool := s.nextPool + 1 } where
  registered := hreg
  apart := h.apart
  retired x hx := by
    refine (h.retired x hx).imp_right ?_
    rintro ⟨q, hq, hstage⟩
    refine ⟨q, hq, ?_⟩
    change (s.setPool s.nextPool .running).pools q ≠ .running
    rw [pools_setPool, if_neg (Nat.ne_of_lt (h.known x q hq))]
    exact hstage
  tasks := h.tasks
  known x q hq := Nat.lt_succ_of_lt (h.known x q hq)
  numbered q hq := by
    have hlt : s.nextPool < q := hq
    change (s.setPool s.nextPool .running).pools q = .absent
    rw [pools_setPool, if_neg (Nat.ne_of_gt hlt)]
    exact h.numbered q (Nat.le_of_lt hlt)

/-- A worker is joined, and its id is free. -/
theorem Sound.join (h : Sound s)
    (hreg : Registered { s.setThread id .free with joined := (p, id) :: s.joined }) :
    Sound { s.setThread id .free with joined := (p, id) :: s.joined } := by
  have hthread : ∀ x, ({ s.setThread id .free with joined := (p, id) :: s.joined } :
      AppThreads).threads x = if x = id then .free else s.threads x :=
    threads_setThread (s := s) _
  exact {
    registered := hreg
    apart := fun q x hx p' => by
      rw [hthread]
      split
      · simp
      · rename_i hne
        rcases List.mem_cons.mp hx with heq | hx
        · exact absurd (Prod.mk.inj heq).2 hne
        · exact h.apart q x hx p'
    retired := fun x hx => by
      by_cases heq : x = id
      · exact Or.inl ⟨p, heq ▸ List.mem_cons_self⟩
      · rw [hthread, if_neg heq]
        exact (h.retired x hx).imp_left fun ⟨q, hq⟩ => ⟨q, List.mem_cons_of_mem _ hq⟩
    tasks := fun x q hq => by
      by_cases heq : x = id
      · exact Or.inr ⟨p, heq ▸ List.mem_cons_self⟩
      · rw [hthread, if_neg heq]
        exact (h.tasks x q hq).imp_right fun ⟨q', hq'⟩ => ⟨q', List.mem_cons_of_mem _ hq'⟩
    known := fun x q hx => by
      rw [hthread] at hx
      split at hx
      · cases hx
      · exact h.known x q hx
    numbered := h.numbered }

/-- **The step lemma** for fresh ids. -/
theorem Sound.step (h : Sound s) (hok : s.Fresh l) (hst : Step s l s') : Sound s' := by
  have hreg := h.registered.step hst
  cases hst with
  | threadStarts hfree => exact h.setThread (by simp) (by simp [hfree]) hreg
  | threadEnds hplain => exact h.setThread (by simp) (by simp [hplain]) hreg
  | useLoop =>
      refine h.modifyLoop (fun l hl => ?_) (fun hr => Or.inl ?_) (fun q hq => Or.inl ?_)
      · rw [if_pos hl]
        exact ⟨hl, fun hr => hr⟩
      · split at hr
        · exact hr
        · cases hr
      · split at hq
        · exact hq
        · cases hq
  | createPool => exact h.createPool hreg
  | startWorker hrunning hfree => exact h.startWorker hrunning hfree hok
  | @post p id _ hworks =>
      refine h.modifyLoop (fun _ hl => ⟨hl, fun hr => hr⟩) Or.inl fun q hq => ?_
      rcases List.mem_append.mp hq with hq | hq
      · exact Or.inl hq
      · obtain rfl := Option.some.inj (List.mem_singleton.mp hq)
        exact Or.inr (hworks.imp_right fun hj => ⟨_, hj⟩)
  | postOther =>
      refine h.modifyLoop (fun _ hl => ⟨hl, fun hr => hr⟩) Or.inl fun q hq => Or.inl ?_
      rcases List.mem_append.mp hq with hq | hq
      · exact hq
      · cases List.mem_singleton.mp hq
  | take _ htasks =>
      refine h.modifyLoop (fun _ hl => ⟨hl, fun hr => hr⟩) Or.inl fun q hq => Or.inl ?_
      rw [htasks]
      exact List.mem_cons_of_mem _ hq
  | shutdown hrunning => exact h.setPool (by decide) (by rw [hrunning]; decide) hreg
  | @retire p id hstage hworker =>
      exact h.modifyLoop (fun _ hl => ⟨hl, fun _ => rfl⟩)
        (fun _ => Or.inr ⟨p, hworker, by rw [hstage]; decide⟩) fun _ hq => Or.inl hq
  | join => exact h.join hreg
  | destroy hstage => exact h.setPool (by decide) (by rw [hstage]; decide) hreg

/-- A program without threads. -/
def initial : AppThreads := {}

theorem sound_initial : Sound initial where
  registered := ⟨fun _ _ h => (by cases h), fun _ _ h => (by cases h)⟩
  apart _ _ h := by cases h
  retired _ h := by cases h
  tasks _ _ h := by cases h
  known _ _ h := by cases h
  numbered _ _ := rfl

/-- A worker with the id of a joined worker gets a loop that is retired. -/
theorem not_clean_of_not_fresh (h : Registered s) (hok : ¬ s.Fresh l) (hst : Step s l s') :
    ¬ s'.Clean := by
  cases hst with
  | @startWorker p id hrunning hfree =>
      simp only [Fresh, not_forall, not_not] at hok
      obtain ⟨q, hq⟩ := hok
      obtain ⟨hcreated, hretired⟩ := h.joined q id hq
      intro hclean
      have hworker : (s.startWorker p id).threads id = .worker p :=
        (threads_setThread (s := s) _ _).trans (if_pos rfl)
      have hnot := ((hclean id p hworker).1 hrunning).2
      have hsame : (s.setThread id (.worker p)).getOrCreateLoop id = s.setThread id (.worker p) :=
        getOrCreateLoop_of_created hcreated
      rw [AppThreads.startWorker, hsame, AppThreads.post, loops_modifyLoop, if_pos rfl] at hnot
      exact absurd (hretired.symm.trans hnot) (by decide)
  | _ => exact absurd trivial hok

/-- **When workers have loops of their own.** Every state of a run is clean iff no worker of the
run was given the id of a worker that had been joined. -/
theorem clean_iff_fresh {ls : List AppStep} :
    Run Step (fun u l => ∀ u', Step u l u' → u'.Clean) initial ls s ↔
      Run Step Fresh initial ls s := by
  constructor
  · intro hrun
    refine hrun.strengthen (I := Registered) (fun u l u' h hok hst => ⟨h.step hst, ?_⟩)
      sound_initial.registered
    by_contra hnot
    exact not_clean_of_not_fresh h hnot hst (hok u' hst)
  · intro hrun
    exact hrun.strengthen (I := Sound)
      (fun u l u' h hok hst => ⟨h.step hok hst, fun v hv => (h.step hok hv).clean⟩) sound_initial

/-! ### What a clean loop is worth -/

/-- The loops as the node tree sees them. -/
def SeenBy (s : AppThreads) (w : World) : Prop := ∀ id,
  (w.execs.loops id).created = (s.loops id).created ∧
    (w.execs.loops id).retired = (s.loops id).retired

/-- A move to a worker of a running pool is refused for the sake of the node only: it has no
owner, or its parent is owned elsewhere. -/
theorem moveToThread_not_refused {w w' : World} {ctx : CallContext} {a : Addr} (hseen : s.SeenBy w)
    (hclean : s.Clean) (hworker : s.threads id = .worker p) (hrunning : s.pools p = .running)
    (hmove : w.moveToThread ctx a id = .ok (false, w')) :
    ∃ n, w.heap.node a = .ok n ∧
      (w.heap.ownerExecutor n = none ∨ w.parentOnThread n id = .ok false) := by
  obtain ⟨hcreated, hretired⟩ := (hclean id p hworker).1 hrunning
  obtain ⟨hc, hr⟩ := hseen id
  rw [World.moveToThread, hc, hr, hcreated, hretired] at hmove
  obtain ⟨n, hn, hmove⟩ := Outcome.bind_eq_ok.mp hmove
  refine ⟨n, hn, ?_⟩
  cases howner : w.heap.ownerExecutor n with
  | none => exact Or.inl rfl
  | some owner =>
      rw [howner] at hmove
      obtain ⟨onThread, hparent, hmove⟩ := Outcome.bind_eq_ok.mp hmove
      cases onThread with
      | false => exact Or.inr hparent
      | true =>
          simp only [Bool.not_true, Bool.false_eq_true, if_false] at hmove
          split at hmove
          · obtain ⟨v, -, hv⟩ := Outcome.bind_eq_ok.mp hmove
            cases hv
          · cases hmove

/-- The task that the thread of a worker takes has captured no pool but the worker's own. -/
theorem taken_task_own (hclean : s.Clean) (hworker : s.threads id = .worker p) {q : PoolNumber}
    {rest : List (Option PoolNumber)} (htasks : (s.loops id).tasks = some q :: rest) : q = p :=
  (hclean id p hworker).2 q (htasks ▸ List.mem_cons_self)

/-- **An inherited loop.** A task of the first pool is posted while its worker waits, and the pool
is shut down and destroyed. The second pool's worker gets the id: its loop is retired, so no
node can be moved to it, and it takes the task that captured the destroyed pool. -/
theorem inherited_loop : ∃ s, Reaches Step initial
      [.createPool, .startWorker 0 5, .take 5, .post 0 5, .shutdown 0, .retire 0 5, .join 0 5,
        .destroy 0, .createPool, .startWorker 1 5] s ∧
    s.threads 5 = .worker 1 ∧ s.pools 1 = .running ∧ s.pools 0 = .destroyed ∧
    (s.loops 5).retired = true ∧ (s.loops 5).tasks = [some 0, some 1] ∧ ¬ s.Clean := by
  have hrun : ∃ s, Reaches Step initial
        [.createPool, .startWorker 0 5, .take 5, .post 0 5, .shutdown 0, .retire 0 5, .join 0 5,
          .destroy 0, .createPool, .startWorker 1 5] s ∧
      s.threads 5 = .worker 1 ∧ s.pools 1 = .running ∧ s.pools 0 = .destroyed ∧
      (s.loops 5).retired = true ∧ (s.loops 5).tasks = [some 0, some 1] := by
    refine ⟨_, .cons trivial .createPool (.cons trivial (.startWorker rfl rfl) (.cons trivial
      (.take (by decide) rfl) (.cons trivial (.post (by decide) (Or.inl rfl)) (.cons trivial
      (.shutdown rfl) (.cons trivial (.retire rfl rfl) (.cons trivial (.join rfl rfl rfl)
      (.cons trivial (.destroy rfl ?_) (.cons trivial .createPool (.cons trivial
      (.startWorker rfl rfl) (.nil _)))))))))), ?_, ?_, ?_, ?_, ?_⟩
    · intro id hworker
      change Function.update (Function.update (fun _ => ThreadUse.free) 5 (.worker 0)) 5 .free id
        = .worker 0 at hworker
      by_cases hid : id = 5
      · rw [hid, Function.update_self] at hworker
        cases hworker
      · rw [Function.update_of_ne hid, Function.update_of_ne hid] at hworker
        cases hworker
    all_goals rfl
  obtain ⟨s, hrun, hworker, hrunning, hgone, hretired, htasks⟩ := hrun
  refine ⟨s, hrun, hworker, hrunning, hgone, hretired, htasks, fun hclean => ?_⟩
  exact absurd (((hclean 5 1 hworker).1 hrunning).2.symm.trans hretired) (by decide)

end AppThreads

end SimplyNode
