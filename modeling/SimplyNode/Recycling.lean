import SimplyNode.StrandDrain

/-!
# Recycling Strands

A pool keeps the strands that nobody uses in `m_freeStrands`. A strand is put there by
`recycleStrandIfIdle` at the end of a drain, or by `releaseStrandReservation` when a node has
been moved to it, if `isRecyclable` says so; `acquireStrand` takes it out again and reserves it.
All three hold `m_strandMutex`, but `isRecyclable` reads the node counter first and then, under
the strand's own mutex, whether a drain is outstanding, while the tasks of a drain create and
destroy nodes without `m_strandMutex`.

## Main results

* `RecycleRun.Inv.step`: the step lemma.
* `free_strands_idle`: if no task creates a node in a strand that is free, or about which
  `isRecyclable` has read that it has none, then no free strand is in use.
* `strand_recycled_under_node`: otherwise a strand that owns a node can be handed out.
-/

open Threads Transition

namespace SimplyNode

/-- A call of `recycleStrandIfIdle` or of `releaseStrandReservation`, by the drain of a worker
or by another thread; `reading` says that it holds `m_strandMutex` and that `isRecyclable` has
found the strand neither free nor reserved and without nodes. -/
structure RecycleCheck where
  worker : Option ℕ
  strand : StrandId
  reading : Bool := false
  deriving DecidableEq

/-- A pool with its strands, the strands that were acquired and not released, and the checks
whether a strand can be recycled. -/
structure RecycleRun where
  run : StrandRun
  reservations : List StrandId := []
  checks : List RecycleCheck := []

/-- What can happen next. -/
inductive RecycleStep
  /-- A step of the pool and its strands. -/
  | strand (step : StrandStep)
  /-- `acquireStrand()`: the section under `m_strandMutex`. -/
  | acquire
  /-- A node is moved to a strand that was acquired. -/
  | moveIn (reservation : ℕ)
  /-- `releaseStrandReservation()`, up to the counter. -/
  | release (reservation : ℕ)
  /-- A task or a destructor creates a node. -/
  | createNode (worker : ℕ)
  /-- A task or a deferred delete destroys a node or moves it away. -/
  | removeNode (worker : ℕ)
  /-- `recycleStrandIfIdle()`, up to the counter. -/
  | readCounter (check : ℕ)
  /-- The rest of `isRecyclable()`, and what follows from it. -/
  | readQueue (check : ℕ)
  deriving DecidableEq

/-- The step neither acquires a strand nor belongs to a shutdown. -/
def StrandStep.IsOrdinary : StrandStep → Prop
  | .acquire | .retire _ | .clear _ => False
  | _ => True

/-- The strand in which a worker runs a task or deferred deletes. -/
def DrainPhase.inside : DrainPhase → Option StrandId
  | inTask k _ | deleting k => some k
  | _ => none

/-- The strand that a thread posts to. -/
def PostPhase.strand : PostPhase → Option StrandId
  | testing k | pushing k | scheduling k | refused k => some k
  | returned => none

/-- The data of a strand that decide whether it can be recycled, apart from its drains. -/
def Strand.use (st : Strand) : Bool × Bool × ℤ := (st.free, st.reserved, st.nodeCount)

namespace RecycleRun

variable (s : RecycleRun)

/-- A pool with `n` workers and no strands. -/
def initial (n : ℕ) : RecycleRun where
  run := .initial n

/-- A strand. -/
def cell (k : StrandId) : Strand := s.run.strands k

/-- `m_freeStrands`. -/
def freeStrands : List StrandId := s.run.base.pool.freeStrands

/-- Changes a strand. -/
def modifyStrand (k : StrandId) (f : Strand → Strand) : RecycleRun :=
  { s with run := s.run.modifyStrand k f }

/-- Changes `m_freeStrands`. -/
def setFree (l : List StrandId) : RecycleRun :=
  { s with run := { s.run with base := { s.run.base with pool :=
    { s.run.base.pool with freeStrands := l } } } }

/-- `m_strandMutex` is held by a check. -/
def Locked : Prop := ∃ c ∈ s.checks, c.reading = true

instance : Decidable s.Locked := inferInstanceAs (Decidable (∃ c ∈ s.checks, c.reading = true))

/-- `Strand::isRecyclable`: the part that is read before the strand's own mutex is taken. -/
def unused (st : Strand) : Bool := !st.free && !st.reserved && st.nodeCount == 0

/-- `Strand::isRecyclable`: the part that is read under the strand's own mutex. -/
def idle (st : Strand) : Bool := !st.scheduled && st.queue.isEmpty

/-- A step of the pool, its strands and its free list. -/
inductive Step : RecycleRun → RecycleStep → RecycleRun → Prop
  | strand {s : RecycleRun} {l : StrandStep} {r : StrandRun} :
      l.IsOrdinary → (∀ i, l ≠ .lookForMore i) →
      (∀ i, l = .drainEnds i → ∀ c ∈ s.checks, c.worker ≠ some i) →
      StrandRun.Step s.run l r → Step s (.strand l) { s with run := r }
  | more {s : RecycleRun} {i : ℕ} {k : StrandId} :
      s.run.drains[i]? = some (.ending k) → (s.cell k).queue ≠ [] →
      Step s (.strand (.lookForMore i)) { s with run := s.run.setDrain i (.scheduling k) }
  | noMore {s : RecycleRun} {i : ℕ} {k : StrandId} :
      s.run.drains[i]? = some (.ending k) → (s.cell k).queue = [] →
      Step s (.strand (.lookForMore i))
        { s with
          run := (s.run.modifyStrand k fun st => { st with scheduled := false }).setDrain i
            (.over k)
          checks := s.checks ++ [{ worker := some i, strand := k }] }
  | acquireNew {s : RecycleRun} :
      ¬ s.Locked → 0 < s.run.acquiring → s.freeStrands = [] →
      Step s .acquire
        { s with
          run := { s.run with
            acquiring := s.run.acquiring - 1
            nextStrand := s.run.nextStrand + 1
            strands := Function.update s.run.strands s.run.nextStrand { reserved := true } }
          reservations := s.reservations ++ [s.run.nextStrand] }
  | acquireFree {s : RecycleRun} {k : StrandId} {rest : List StrandId} :
      ¬ s.Locked → 0 < s.run.acquiring → s.freeStrands = rest ++ [k] →
      Step s .acquire
        { ({ s with run := { s.run with acquiring := s.run.acquiring - 1 } }.setFree
            rest).modifyStrand k fun st => { st with free := false, reserved := true } with
          reservations := s.reservations ++ [k] }
  | moveIn {s : RecycleRun} {j : ℕ} {k : StrandId} :
      s.reservations[j]? = some k →
      Step s (.moveIn j) (s.modifyStrand k fun st => st.addNode)
  | releaseUnused {s : RecycleRun} {j : ℕ} {k : StrandId} :
      ¬ s.Locked → s.reservations[j]? = some k →
      unused { s.cell k with reserved := false } = true →
      Step s (.release j)
        { s.modifyStrand k fun st => { st with reserved := false } with
          reservations := s.reservations.eraseIdx j
          checks := s.checks ++ [{ worker := none, strand := k, reading := true }] }
  | releaseUsed {s : RecycleRun} {j : ℕ} {k : StrandId} :
      ¬ s.Locked → s.reservations[j]? = some k →
      unused { s.cell k with reserved := false } = false →
      Step s (.release j)
        { s.modifyStrand k fun st => { st with reserved := false } with
          reservations := s.reservations.eraseIdx j }
  | createNode {s : RecycleRun} {i : ℕ} {p : DrainPhase} {k : StrandId} :
      s.run.drains[i]? = some p → p.inside = some k →
      Step s (.createNode i) (s.modifyStrand k fun st => st.addNode)
  | removeNode {s : RecycleRun} {i : ℕ} {p : DrainPhase} {k : StrandId} :
      s.run.drains[i]? = some p → p.inside = some k → 0 < (s.cell k).nodeCount →
      Step s (.removeNode i) (s.modifyStrand k fun st => st.removeNode)
  | readUnused {s : RecycleRun} {j : ℕ} {c : RecycleCheck} :
      ¬ s.Locked → s.checks[j]? = some c → unused (s.cell c.strand) = true →
      Step s (.readCounter j) { s with checks := s.checks.set j { c with reading := true } }
  | readUsed {s : RecycleRun} {j : ℕ} {c : RecycleCheck} :
      ¬ s.Locked → s.checks[j]? = some c → unused (s.cell c.strand) = false →
      Step s (.readCounter j) { s with checks := s.checks.eraseIdx j }
  | readIdle {s : RecycleRun} {j : ℕ} {c : RecycleCheck} :
      s.checks[j]? = some c → c.reading = true → idle (s.cell c.strand) = true →
      Step s (.readQueue j)
        { (s.setFree (s.freeStrands ++ [c.strand])).modifyStrand c.strand fun st =>
            { st with free := true } with
          checks := s.checks.eraseIdx j }
  | readBusy {s : RecycleRun} {j : ℕ} {c : RecycleCheck} :
      s.checks[j]? = some c → c.reading = true → idle (s.cell c.strand) = false →
      Step s (.readQueue j) { s with checks := s.checks.eraseIdx j }

/-- What the free list is for: it has the strands with `m_free` set, none of them twice, and
none of them is reserved or owns a node. -/
structure FreeIdle (s : RecycleRun) : Prop where
  nodup : s.freeStrands.Nodup
  mem_iff : ∀ k, k ∈ s.freeStrands ↔ (s.cell k).free = true
  unreserved : ∀ k ∈ s.freeStrands, (s.cell k).reserved = false
  noNodes : ∀ k ∈ s.freeStrands, (s.cell k).nodeCount = 0

/-- The strand that `acquireStrand` returns owns no node, and no caller has reserved it. -/
def HandsOutIdle (s : RecycleRun) : RecycleStep → Prop
  | .acquire => ∀ s', Step s .acquire s' → ∃ k, s'.reservations = s.reservations ++ [k] ∧
      (s'.cell k).nodeCount = 0 ∧ k ∉ s.reservations
  | _ => True

/-- No task creates a node in a strand that is free, or about which a check has read that it
owns none. -/
def KeepsUnused (s : RecycleRun) : RecycleStep → Prop
  | .createNode i => ∀ p k, s.run.drains[i]? = some p → p.inside = some k →
      (s.cell k).free = false ∧ ∀ c ∈ s.checks, c.strand = k → c.reading = false
  | _ => True

/-- Whatever is posted, scheduled or drained belongs to a strand that was created. -/
structure Issued (r : StrandRun) : Prop where
  queue : ∀ k, .drain k ∈ r.base.pool.queue → k < r.nextStrand
  drains : ∀ p ∈ r.drains, ∀ k, p.worker = .running (.drain k) → k < r.nextStrand
  posters : ∀ a ∈ r.posters, ∀ k, a.strand = some k → k < r.nextStrand

/-- The invariant: the free list is idle, a check that is reading has found what it says, one
check at most is reading, and reservations are not shared. -/
structure Inv (s : RecycleRun) : Prop where
  issued : Issued s.run
  checked : ∀ c ∈ s.checks, c.strand < s.run.nextStrand
  freeIdle : FreeIdle s
  reading : ∀ c ∈ s.checks, c.reading = true → (s.cell c.strand).use = (false, false, 0)
  mutex : s.checks.countP RecycleCheck.reading ≤ 1
  reserved : ∀ k ∈ s.reservations, (s.cell k).reserved = true
  once : s.reservations.Nodup
  fresh : ∀ k, s.run.nextStrand ≤ k → (s.cell k).use = (false, false, 0)

variable {s s' : RecycleRun} {l : RecycleStep} {i j : ℕ} {k : StrandId} {c : RecycleCheck}

theorem use_eq {st : Strand} {f r : Bool} {m : ℤ} :
    st.use = (f, r, m) ↔ st.free = f ∧ st.reserved = r ∧ st.nodeCount = m := by
  simp [Strand.use]

theorem unused_iff {st : Strand} : unused st = true ↔ st.use = (false, false, 0) := by
  simp [unused, use_eq, and_assoc]

theorem cell_modifyStrand (s : RecycleRun) (k j : StrandId) (f : Strand → Strand) :
    (s.modifyStrand k f).cell j = if j = k then f (s.cell k) else s.cell j :=
  Function.update_apply ..

/-! ### The steps of the drains -/

/-- The pool leaves its free list to the strands. -/
theorem freeStrands_step {b b' : PoolRun} {l : PoolStep} (h : PoolRun.Step b l b') :
    b'.pool.freeStrands = b.pool.freeStrands := by
  cases h with
  | @start callable =>
      rw [PoolRun.start]
      split <;> rfl
  | @enqueueStrandDrain k =>
      rcases b.enqueueStrandDrain_cases k with heq | ⟨-, heq⟩ <;> rw [heq]
  | _ => rfl

namespace Issued

variable {r r' : StrandRun} {p q : DrainPhase} {a b : PostPhase}

/-- A worker goes on with the same task. -/
theorem setDrain (hi : Issued r) (hp : r.drains[i]? = some p)
    (hq : ∀ k, q.worker = .running (.drain k) → p.worker = .running (.drain k)) :
    Issued (r.setDrain i q) where
  queue := hi.queue
  drains := forall_set hi.drains fun k hk => hi.drains p (List.mem_of_getElem? hp) k (hq k hk)
  posters := hi.posters

/-- A thread that posts goes on with the same strand. -/
theorem setPoster (hi : Issued r) (ha : r.posters[j]? = some a)
    (hb : ∀ k, b.strand = some k → a.strand = some k) : Issued (r.setPoster j b) where
  queue := hi.queue
  drains := hi.drains
  posters := forall_set hi.posters fun k hk => hi.posters a (List.mem_of_getElem? ha) k (hb k hk)

/-- The pool has another queue. -/
theorem withBase {b : PoolRun} (hi : Issued r)
    (hb : ∀ k, .drain k ∈ b.pool.queue → k < r.nextStrand) : Issued { r with base := b } where
  queue := hb
  drains := hi.drains
  posters := hi.posters

theorem enqueueStrandDrain (hi : Issued r) (hk : k < r.nextStrand) :
    Issued { r with base := r.base.enqueueStrandDrain k } := by
  refine hi.withBase fun m hm => ?_
  rcases r.base.enqueueStrandDrain_cases k with heq | ⟨-, heq⟩
  · exact hi.queue m (heq ▸ hm)
  · rw [heq] at hm
    rcases List.mem_append.mp hm with hm | hm
    · exact hi.queue m hm
    · obtain rfl : m = k := by simpa using hm
      exact hk

theorem step {l : StrandStep} (hi : Issued r) (h : StrandRun.Step r l r')
    (hl : l.IsOrdinary) : Issued r' := by
  have hstrand : ∀ (m : StrandId) (f : Strand → Strand), Issued (r.modifyStrand m f) :=
    fun m f => ⟨hi.queue, hi.drains, hi.posters⟩
  cases h with
  | @pool l b hp hb =>
      refine hi.withBase fun k hk => hi.queue k ?_
      rw [← List.count_pos_iff, (PoolRun.Step.plain hp hb).2 k] at hk
      exact List.count_pos_iff.mp hk
  | @take i task rest hx hq =>
      refine ⟨fun k hk => hi.queue k (hq ▸ List.mem_cons_of_mem task hk), ?_, hi.posters⟩
      refine forall_set hi.drains fun k hk => hi.queue k ?_
      cases task with
      | call id => exact absurd hk (by simp [DrainPhase.ofTask, DrainPhase.worker])
      | drain m =>
          obtain rfl : m = k := by simpa [DrainPhase.ofTask, DrainPhase.worker] using hk
          exact hq ▸ List.mem_cons_self
  | @leave i b hb =>
      cases hb with
      | leave hx hstop hq =>
          exact ⟨hi.queue, forall_set hi.drains fun k hk => absurd hk (by simp [DrainPhase.worker]),
            hi.posters⟩
  | callEnds hp =>
      exact ⟨hi.queue, forall_set hi.drains fun k hk => absurd hk (by simp [DrainPhase.worker]),
        hi.posters⟩
  | drainEnds hp =>
      exact ⟨hi.queue, forall_set hi.drains fun k hk => absurd hk (by simp [DrainPhase.worker]),
        hi.posters⟩
  | @pop i ran k t rest hp hq =>
      have hnext := (hstrand k fun st => { st with queue := rest }).setDrain (i := i)
        (q := .inTask k ran) hp fun _ hk => hk
      exact ⟨hnext.queue, hnext.drains, hnext.posters⟩
  | popNone hp hq => exact hi.setDrain hp fun _ hk => hk
  | taskEnds hp => exact hi.setDrain hp fun _ hk => by split at hk <;> exact hk
  | deletesEnd hp => exact hi.setDrain hp fun _ hk => hk
  | more hp hq => exact hi.setDrain hp fun _ hk => hk
  | @noMore i k hp hq => exact (hstrand k _).setDrain hp fun _ hk => hk
  | @reschedule i k pl hp hacc =>
      have hk : k < r.nextStrand := hi.drains _ (List.mem_of_getElem? hp) k rfl
      exact (hi.enqueueStrandDrain hk).setDrain hp fun _ hk => hk
  | rescheduleRefused hp hacc => exact hi.setDrain hp fun _ hk => hk
  | @unschedule i k hp => exact (hstrand k _).setDrain hp fun _ hk => hk
  | @post k hk =>
      refine ⟨hi.queue, hi.drains, fun a ha m hm => ?_⟩
      rcases List.mem_append.mp ha with ha | ha
      · exact hi.posters a ha m hm
      · obtain rfl := List.mem_singleton.mp ha
        obtain rfl := Option.some.inj hm
        exact hk
  | testRetired hp =>
      refine hi.setPoster hp fun m hm => ?_
      split at hm
      · exact absurd hm (by simp [PostPhase.strand])
      · exact hm
  | @push j k hp =>
      have hpushed : Issued (r.pushTask k) := ⟨hi.queue, hi.drains, hi.posters⟩
      refine hpushed.setPoster hp fun m hm => ?_
      split at hm
      · exact absurd hm (by simp [PostPhase.strand])
      · exact hm
  | @schedule j k pl hp hacc =>
      have hk : k < r.nextStrand := hi.posters _ (List.mem_of_getElem? hp) k rfl
      exact (hi.enqueueStrandDrain hk).setPoster hp fun m hm =>
        absurd hm (by simp [PostPhase.strand])
  | scheduleRefused hp hacc => exact hi.setPoster hp fun _ hk => hk
  | @giveUp j k hp =>
      exact (hstrand k _).setPoster hp fun m hm => absurd hm (by simp [PostPhase.strand])
  | mayAcquire hstop hw => exact ⟨hi.queue, hi.drains, hi.posters⟩
  | acquire hpos => exact absurd hl (by simp [StrandStep.IsOrdinary])
  | retire hd => exact absurd hl (by simp [StrandStep.IsOrdinary])
  | clear hd hret => exact absurd hl (by simp [StrandStep.IsOrdinary])

end Issued

/-- A step of the drains keeps what is read of the strands. -/
theorem frame {l : StrandStep} {r r' : StrandRun} (hl : l.IsOrdinary)
    (h : StrandRun.Step r l r') : r'.base.pool.freeStrands = r.base.pool.freeStrands ∧
      r'.nextStrand = r.nextStrand ∧ ∀ k, (r'.strands k).use = (r.strands k).use := by
  have hmodify : ∀ (m : StrandId) (f : Strand → Strand), (∀ st, (f st).use = st.use) → ∀ k,
      ((r.modifyStrand m f).strands k).use = (r.strands k).use := by
    intro m f hf k
    simp only [StrandRun.modifyStrand, Function.update_apply]
    split
    · subst_vars
      exact hf _
    · rfl
  have hcleared : ∀ m, ∀ k, ((r.modifyStrand m fun st =>
      { st with scheduled := false }).strands k).use = (r.strands k).use :=
    fun m => hmodify m _ fun _ => rfl
  cases h with
  | pool hp hb => exact ⟨freeStrands_step hb, rfl, fun _ => rfl⟩
  | leave hb => exact ⟨freeStrands_step hb, rfl, fun _ => rfl⟩
  | @reschedule i k p hp hacc =>
      exact ⟨freeStrands_step (.enqueueStrandDrain), rfl, fun _ => rfl⟩
  | @schedule i k p hp hacc =>
      exact ⟨freeStrands_step (.enqueueStrandDrain), rfl, fun _ => rfl⟩
  | @pop i ran k t rest hp hq =>
      exact ⟨rfl, rfl, hmodify k (fun st => { st with queue := rest }) fun _ => rfl⟩
  | @noMore i k hp hq => exact ⟨rfl, rfl, hcleared k⟩
  | @unschedule i k hp => exact ⟨rfl, rfl, hcleared k⟩
  | @giveUp j k hp => exact ⟨rfl, rfl, hcleared k⟩
  | @push j k hp =>
      exact ⟨rfl, rfl, hmodify k (fun st =>
        { st with queue := st.queue ++ [.call r.posts], scheduled := true }) fun _ => rfl⟩
  | acquire hpos => exact absurd hl (by simp [StrandStep.IsOrdinary])
  | retire hd => exact absurd hl (by simp [StrandStep.IsOrdinary])
  | clear hd hret => exact absurd hl (by simp [StrandStep.IsOrdinary])
  | _ => exact ⟨rfl, rfl, fun _ => rfl⟩

/-- The free list depends on what is read of the strands only. -/
theorem FreeIdle.congr (hf : FreeIdle s) (hl : s'.freeStrands = s.freeStrands)
    (hu : ∀ k, (s'.cell k).use = (s.cell k).use) : FreeIdle s' := by
  have hu : ∀ k, (s'.cell k).free = (s.cell k).free ∧
      (s'.cell k).reserved = (s.cell k).reserved ∧
      (s'.cell k).nodeCount = (s.cell k).nodeCount := fun k => use_eq.mp (hu k)
  refine ⟨hl ▸ hf.nodup, fun k => ?_, fun k hk => ?_, fun k hk => ?_⟩
  · rw [hl, (hu k).1]
    exact hf.mem_iff k
  · rw [(hu k).2.1]
    exact hf.unreserved k (hl ▸ hk)
  · rw [(hu k).2.2]
    exact hf.noNodes k (hl ▸ hk)

/-- A step of the drains keeps the invariant. -/
theorem Inv.congr (hi : Inv s) (hs : Issued s'.run) (hl : s'.freeStrands = s.freeStrands)
    (hn : s'.run.nextStrand = s.run.nextStrand)
    (hu : ∀ k, (s'.cell k).use = (s.cell k).use) (hr : s'.reservations = s.reservations)
    (hc : s'.checks = s.checks) : Inv s' where
  issued := hs
  checked c hmem := hn ▸ hi.checked c (hc ▸ hmem)
  freeIdle := hi.freeIdle.congr hl hu
  reading c hmem h := by rw [hu]; exact hi.reading c (hc ▸ hmem) h
  mutex := hc ▸ hi.mutex
  reserved k hk := by rw [(use_eq.mp (hu k)).2.1]; exact hi.reserved k (hr ▸ hk)
  once := hr ▸ hi.once
  fresh k hk := by rw [hu]; exact hi.fresh k (hn ▸ hk)

/-- A check that has read nothing yet. -/
theorem Inv.addCheck (hi : Inv s) (hc : c.reading = false) (hlt : c.strand < s.run.nextStrand) :
    Inv { s with checks := s.checks ++ [c] } where
  issued := hi.issued
  checked d hmem := by
    rcases List.mem_append.mp hmem with hmem | hmem
    · exact hi.checked d hmem
    · obtain rfl := List.mem_singleton.mp hmem
      exact hlt
  freeIdle := hi.freeIdle.congr rfl fun _ => rfl
  reading d hmem h := by
    rcases List.mem_append.mp hmem with hmem | hmem
    · exact hi.reading d hmem h
    · obtain rfl := List.mem_singleton.mp hmem
      rw [hc] at h
      exact absurd h (by simp)
  mutex := by simpa [List.countP_append, hc] using hi.mutex
  reserved := hi.reserved
  once := hi.once
  fresh := hi.fresh

/-- A check ends. -/
theorem Inv.eraseCheck (hi : Inv s) : Inv { s with checks := s.checks.eraseIdx j } where
  issued := hi.issued
  checked c hmem := hi.checked c (List.mem_of_mem_eraseIdx hmem)
  freeIdle := hi.freeIdle.congr rfl fun _ => rfl
  reading d hmem h := hi.reading d (List.mem_of_mem_eraseIdx hmem) h
  mutex := Nat.le_trans (List.Sublist.countP_le (List.eraseIdx_sublist ..)) hi.mutex
  reserved := hi.reserved
  once := hi.once
  fresh := hi.fresh

/-! ### The steps of the free list -/

/-- A strand that is not free changes, and is not free afterwards. -/
theorem FreeIdle.modifyStrand {f : Strand → Strand} (hf : FreeIdle s)
    (hk : (s.cell k).free = false) (hfree : (f (s.cell k)).free = false) :
    FreeIdle (s.modifyStrand k f) := by
  have hne : ∀ j ∈ s.freeStrands, j ≠ k := by
    rintro j hj rfl
    rw [(hf.mem_iff j).mp hj] at hk
    exact absurd hk (by simp)
  refine ⟨hf.nodup, fun j => ?_, fun j hj => ?_, fun j hj => ?_⟩
  · rw [cell_modifyStrand]
    split
    · subst_vars
      rw [hfree]
      simp only [Bool.false_eq_true, iff_false]
      exact fun hj => hne j hj rfl
    · exact hf.mem_iff j
  · rw [cell_modifyStrand, if_neg (hne j hj)]
    exact hf.unreserved j hj
  · rw [cell_modifyStrand, if_neg (hne j hj)]
    exact hf.noNodes j hj

/-- The counter of a strand that is in use changes. -/
theorem Inv.count (hi : Inv s) {f : Strand → Strand} (hk : (s.cell k).free = false)
    (hread : ∀ c ∈ s.checks, c.strand = k → c.reading = false) (hlt : k < s.run.nextStrand)
    (hf : (f (s.cell k)).free = (s.cell k).free ∧
      (f (s.cell k)).reserved = (s.cell k).reserved) : Inv (s.modifyStrand k f) where
  issued := ⟨hi.issued.queue, hi.issued.drains, hi.issued.posters⟩
  checked := hi.checked
  freeIdle := hi.freeIdle.modifyStrand hk (hf.1.trans hk)
  reading c hmem h := by
    rw [cell_modifyStrand]
    split
    · rw [hread c hmem ‹_›] at h
      exact absurd h (by simp)
    · exact hi.reading c hmem h
  mutex := hi.mutex
  reserved j hj := by
    rw [cell_modifyStrand]
    split
    · subst_vars
      exact hf.2.trans (hi.reserved _ hj)
    · exact hi.reserved j hj
  once := hi.once
  fresh j hj := by
    have hne : j ≠ k := by
      rintro rfl
      exact absurd hlt (Nat.not_lt.mpr hj)
    rw [cell_modifyStrand, if_neg hne]
    exact hi.fresh j hj

/-- Nobody is reading while `m_strandMutex` is free. -/
theorem not_reading (hl : ¬ s.Locked) : ∀ c ∈ s.checks, c.reading = false := by
  intro c hc
  by_contra h
  exact hl ⟨c, hc, by simpa using h⟩

/-- Whatever was read of a strand, it was created before. -/
theorem Inv.lt_nextStrand (hi : Inv s) (hk : (s.cell k).use ≠ (false, false, 0)) :
    k < s.run.nextStrand := by
  by_contra hlt
  exact hk (hi.fresh k (Nat.not_lt.mp hlt))

/-- A strand with nodes is not free, and no check is reading it. -/
theorem Inv.of_nodes (hi : Inv s) (hk : (s.cell k).nodeCount ≠ 0) :
    (s.cell k).free = false ∧ ∀ c ∈ s.checks, c.strand = k → c.reading = false := by
  refine ⟨?_, ?_⟩
  · by_contra hfree
    exact hk (hi.freeIdle.noNodes k ((hi.freeIdle.mem_iff k).mpr (by simpa using hfree)))
  · rintro c hc rfl
    by_contra hread
    exact hk (use_eq.mp (hi.reading c hc (by simpa using hread))).2.2

/-- A reserved strand is not free, and no check is reading it. -/
theorem Inv.of_reserved (hi : Inv s) (hk : (s.cell k).reserved = true) :
    (s.cell k).free = false ∧ ∀ c ∈ s.checks, c.strand = k → c.reading = false := by
  refine ⟨?_, ?_⟩
  · by_contra hfree
    have := hi.freeIdle.unreserved k ((hi.freeIdle.mem_iff k).mpr (by simpa using hfree))
    rw [hk] at this
    exact absurd this (by simp)
  · rintro c hc rfl
    by_contra hread
    have := (use_eq.mp (hi.reading c hc (by simpa using hread))).2.1
    rw [hk] at this
    exact absurd this (by simp)

/-- A strand is acquired. -/
theorem Inv.acquire {r : StrandRun} {f : Strand} (hi : Inv s) (hl : ¬ s.Locked)
    (hk : k ∉ s.reservations)
    (hfree : ∀ j, j ∈ r.base.pool.freeStrands ↔ j ∈ s.freeStrands ∧ j ≠ k)
    (hnodup : r.base.pool.freeStrands.Nodup) (hf : f.free = false ∧ f.reserved = true)
    (hcell : ∀ j, r.strands j = if j = k then f else s.cell j)
    (hnext : s.run.nextStrand ≤ r.nextStrand ∧ k < r.nextStrand) (hissued : Issued r) :
    Inv { s with run := r, reservations := s.reservations ++ [k] } where
  issued := hissued
  checked c hmem := Nat.lt_of_lt_of_le (hi.checked c hmem) hnext.1
  freeIdle := by
    refine ⟨hnodup, fun j => ?_, fun j hj => ?_, fun j hj => ?_⟩
    · show j ∈ r.base.pool.freeStrands ↔ (r.strands j).free = true
      rw [hfree, hcell]
      split
      · subst_vars
        simp [hf.1]
      · rw [hi.freeIdle.mem_iff j]
        simp [*]
    · show (r.strands j).reserved = false
      obtain ⟨hmem, hne⟩ := (hfree j).mp hj
      rw [hcell, if_neg hne]
      exact hi.freeIdle.unreserved j hmem
    · show (r.strands j).nodeCount = 0
      obtain ⟨hmem, hne⟩ := (hfree j).mp hj
      rw [hcell, if_neg hne]
      exact hi.freeIdle.noNodes j hmem
  reading c hmem h := by
    rw [not_reading hl c hmem] at h
    exact absurd h (by simp)
  mutex := hi.mutex
  reserved j hj := by
    show (r.strands j).reserved = true
    rw [hcell]
    split
    · exact hf.2
    · rcases List.mem_append.mp hj with hj | hj
      · exact hi.reserved j hj
      · exact absurd (List.mem_singleton.mp hj) ‹_›
  once := by
    refine hi.once.append (List.nodup_singleton k) fun j hj hnew => ?_
    exact hk (List.mem_singleton.mp hnew ▸ hj)
  fresh j hj := by
    show (r.strands j).use = (false, false, 0)
    have hne : j ≠ k := by
      rintro rfl
      exact absurd hnext.2 (Nat.not_lt.mpr hj)
    rw [hcell, if_neg hne]
    exact hi.fresh j (Nat.le_trans hnext.1 hj)

/-- A reservation is given back. -/
theorem Inv.release (hi : Inv s) (hk : s.reservations[j]? = some k) :
    Inv { s.modifyStrand k fun st => { st with reserved := false } with
      reservations := s.reservations.eraseIdx j } := by
  obtain ⟨hfree, hread⟩ := hi.of_reserved (hi.reserved k (List.mem_of_getElem? hk))
  have hcell : ∀ m, ({ s.modifyStrand k fun st => { st with reserved := false } with
      reservations := s.reservations.eraseIdx j } : RecycleRun).cell m =
        if m = k then { s.cell k with reserved := false } else s.cell m := fun m =>
    cell_modifyStrand s k m fun st => { st with reserved := false }
  have hne : ∀ m ∈ s.reservations.eraseIdx j, m ≠ k := fun m hm =>
    ne_of_mem_eraseIdx hi.once hk hm
  refine ⟨⟨hi.issued.queue, hi.issued.drains, hi.issued.posters⟩, hi.checked, ?_,
    fun c hmem h => ?_, hi.mutex, fun m hm => ?_, hi.once.sublist (List.eraseIdx_sublist ..),
    fun m hm => ?_⟩
  · exact (hi.freeIdle.modifyStrand (f := fun st => { st with reserved := false }) hfree
      hfree).congr rfl fun _ => rfl
  · have hck : c.strand ≠ k := fun heq => by
      rw [hread c hmem heq] at h
      exact absurd h (by simp)
    rw [hcell, if_neg hck]
    exact hi.reading c hmem h
  · rw [hcell, if_neg (hne m hm)]
    exact hi.reserved m (List.mem_of_mem_eraseIdx hm)
  · have hmk : m ≠ k := by
      rintro rfl
      have := (use_eq.mp (hi.fresh m hm)).2.1
      rw [hi.reserved m (List.mem_of_getElem? hk)] at this
      exact absurd this (by simp)
    rw [hcell, if_neg hmk]
    exact hi.fresh m hm

/-- A check has read that the strand is not used. -/
theorem Inv.read (hi : Inv s) (hl : ¬ s.Locked) (hc : (s.cell c.strand).use = (false, false, 0))
    (hlt : c.strand < s.run.nextStrand) {cs : List RecycleCheck}
    (hcs : ∀ d ∈ cs, d ∈ s.checks ∨ d.strand = c.strand)
    (hone : cs.countP RecycleCheck.reading ≤ 1) : Inv { s with checks := cs } where
  issued := hi.issued
  checked d hmem := (hcs d hmem).elim (hi.checked d) fun heq => heq ▸ hlt
  freeIdle := hi.freeIdle.congr rfl fun _ => rfl
  reading d hmem h := by
    rcases hcs d hmem with hd | hd
    · rw [not_reading hl d hd] at h
      exact absurd h (by simp)
    · exact hd ▸ hc
  mutex := hone
  reserved := hi.reserved
  once := hi.once
  fresh := hi.fresh

/-- A check puts the strand on the free list. -/
theorem Inv.recycle (hi : Inv s) (hc : s.checks[j]? = some c) (hr : c.reading = true) :
    Inv { (s.setFree (s.freeStrands ++ [c.strand])).modifyStrand c.strand fun st =>
        { st with free := true } with
      checks := s.checks.eraseIdx j } := by
  obtain ⟨hfree, hres, hcount⟩ := use_eq.mp (hi.reading c (List.mem_of_getElem? hc) hr)
  have hnot : c.strand ∉ s.freeStrands := fun hmem => by
    rw [(hi.freeIdle.mem_iff _).mp hmem] at hfree
    exact absurd hfree (by simp)
  have hothers : ∀ d ∈ s.checks.eraseIdx j, d.reading = false := by
    have hcount := countP_eraseIdx_add (p := RecycleCheck.reading) hc
    have hone := hi.mutex
    rw [hr, if_pos rfl] at hcount
    intro d hd
    have hzero : (s.checks.eraseIdx j).countP RecycleCheck.reading = 0 := by omega
    simpa using List.countP_eq_zero.mp hzero d hd
  have hcell : ∀ m, (({ (s.setFree (s.freeStrands ++ [c.strand])).modifyStrand c.strand
      fun st => { st with free := true } with checks := s.checks.eraseIdx j } :
      RecycleRun).cell m) = if m = c.strand then { s.cell c.strand with free := true }
        else s.cell m := fun m =>
    cell_modifyStrand (s.setFree (s.freeStrands ++ [c.strand])) c.strand m fun st =>
      { st with free := true }
  refine ⟨⟨hi.issued.queue, hi.issued.drains, hi.issued.posters⟩,
    fun d hd => hi.checked d (List.mem_of_mem_eraseIdx hd),
    ⟨?_, fun m => ?_, fun m hm => ?_, fun m hm => ?_⟩, fun d hd h => ?_, ?_, fun m hm => ?_,
    hi.once, fun m hm => ?_⟩
  · exact hi.freeIdle.nodup.append (List.nodup_singleton _) fun m hm hnew =>
      hnot (List.mem_singleton.mp hnew ▸ hm)
  · rw [hcell]
    show m ∈ s.freeStrands ++ [c.strand] ↔ _
    rw [List.mem_append, List.mem_singleton, hi.freeIdle.mem_iff m]
    split <;> simp [*]
  · rw [hcell]
    split
    · exact hres
    · exact hi.freeIdle.unreserved m ((List.mem_append.mp hm).resolve_right fun h =>
        absurd (List.mem_singleton.mp h) ‹_›)
  · rw [hcell]
    split
    · exact hcount
    · exact hi.freeIdle.noNodes m ((List.mem_append.mp hm).resolve_right fun h =>
        absurd (List.mem_singleton.mp h) ‹_›)
  · rw [hothers d hd] at h
    exact absurd h (by simp)
  · exact Nat.le_trans (List.Sublist.countP_le (List.eraseIdx_sublist ..)) hi.mutex
  · rw [hcell]
    split
    · subst_vars
      exact hi.reserved _ hm
    · exact hi.reserved m hm
  · have hne : m ≠ c.strand := by
      rintro rfl
      exact absurd (hi.checked c (List.mem_of_getElem? hc)) (Nat.not_lt.mpr hm)
    rw [hcell, if_neg hne]
    exact hi.fresh m hm

/-- A strand that nobody has created yet is not reserved. -/
theorem Inv.not_mem_reservations (hi : Inv s) (hk : (s.cell k).reserved = false) :
    k ∉ s.reservations := by
  intro hmem
  rw [hi.reserved k hmem] at hk
  exact absurd hk (by simp)

/-- A new strand is acquired. -/
theorem Inv.acquireNew (hi : Inv s) (hl : ¬ s.Locked) (hnil : s.freeStrands = []) :
    s.run.nextStrand ∉ s.reservations ∧ Inv { s with
      run := { s.run with
        acquiring := s.run.acquiring - 1
        nextStrand := s.run.nextStrand + 1
        strands := Function.update s.run.strands s.run.nextStrand { reserved := true } }
      reservations := s.reservations ++ [s.run.nextStrand] } := by
  have hk : s.run.nextStrand ∉ s.reservations :=
    hi.not_mem_reservations (use_eq.mp (hi.fresh _ (Nat.le_refl _))).2.1
  have hpool : s.run.base.pool.freeStrands = [] := hnil
  refine ⟨hk, hi.acquire hl hk (fun j => ?_) ?_ ⟨rfl, rfl⟩ (fun j => Function.update_apply ..)
    ⟨Nat.le_succ _, Nat.lt_succ_self _⟩ ?_⟩
  · simp [hnil, hpool]
  · simp [hpool]
  · exact ⟨fun m hm => Nat.lt_succ_of_lt (hi.issued.queue m hm),
      fun p hp m hm => Nat.lt_succ_of_lt (hi.issued.drains p hp m hm),
      fun a ha m hm => Nat.lt_succ_of_lt (hi.issued.posters a ha m hm)⟩

/-- A strand is acquired from the free list. -/
theorem Inv.acquireFree {rest : List StrandId} (hi : Inv s) (hl : ¬ s.Locked)
    (hfree : s.freeStrands = rest ++ [k]) :
    (k ∉ s.reservations ∧ (s.cell k).nodeCount = 0) ∧ Inv
      { ({ s with run := { s.run with acquiring := s.run.acquiring - 1 } }.setFree
            rest).modifyStrand k fun st => { st with free := false, reserved := true } with
          reservations := s.reservations ++ [k] } := by
  have hmem : k ∈ s.freeStrands := by simp [hfree]
  have hk := hi.not_mem_reservations (hi.freeIdle.unreserved k hmem)
  have hnodup := hi.freeIdle.nodup
  rw [hfree, List.nodup_append] at hnodup
  obtain ⟨hrest, -, hne⟩ := hnodup
  refine ⟨⟨hk, hi.freeIdle.noNodes k hmem⟩, ?_⟩
  refine hi.acquire (f := { s.cell k with free := false, reserved := true }) hl hk (fun j => ?_)
    hrest ⟨rfl, rfl⟩ (fun j => Function.update_apply ..) ⟨Nat.le_refl _, hi.lt_nextStrand ?_⟩ ?_
  · show j ∈ rest ↔ _
    rw [hfree, List.mem_append, List.mem_singleton]
    constructor
    · exact fun hj => ⟨Or.inl hj, hne j hj k (List.mem_singleton_self k)⟩
    · exact fun ⟨hj, hjk⟩ => hj.resolve_right hjk
  · intro huse
    rw [Strand.use, (hi.freeIdle.mem_iff k).mp hmem] at huse
    exact absurd huse (by simp)
  · exact ⟨hi.issued.queue, hi.issued.drains, hi.issued.posters⟩

/-- Where a worker can create and destroy nodes it is in a drain of the strand. -/
theorem worker_of_inside {p : DrainPhase} (h : p.inside = some k) :
    p.worker = .running (.drain k) := by
  cases p <;> simp_all [DrainPhase.inside, DrainPhase.worker]

/-- One check at most is reading after it has begun while `m_strandMutex` was free. -/
theorem countP_reading (hl : ¬ s.Locked) : s.checks.countP RecycleCheck.reading = 0 :=
  List.countP_eq_zero.mpr fun c hc => by simp [not_reading hl c hc]

/-- **The step lemma.** -/
theorem Inv.step (hi : Inv s) (hok : s.KeepsUnused l) (h : Step s l s') : Inv s' := by
  cases h with
  | strand hl hmore hends hr =>
      obtain ⟨hfree, hnext, huse⟩ := frame hl hr
      exact hi.congr (hi.issued.step hr hl) hfree hnext huse rfl rfl
  | @more i k hp hq =>
      have hr : StrandRun.Step s.run (.lookForMore i) (s.run.setDrain i (.scheduling k)) :=
        .more hp hq
      exact hi.congr (hi.issued.step hr trivial) rfl rfl (fun _ => rfl) rfl rfl
  | @noMore i k hp hq =>
      have hr : StrandRun.Step s.run (.lookForMore i) ((s.run.modifyStrand k fun st =>
        { st with scheduled := false }).setDrain i (.over k)) := .noMore hp hq
      obtain ⟨hfree, hnext, huse⟩ := frame (l := .lookForMore i) trivial hr
      have hrun : Inv { s with run := (s.run.modifyStrand k fun st =>
          { st with scheduled := false }).setDrain i (.over k) } :=
        hi.congr (hi.issued.step hr trivial) hfree hnext huse rfl rfl
      exact hrun.addCheck rfl (hi.issued.drains _ (List.mem_of_getElem? hp) k rfl)
  | acquireNew hl hpos hnil => exact (hi.acquireNew hl hnil).2
  | acquireFree hl hpos hfree => exact (hi.acquireFree hl hfree).2
  | @moveIn j k hk =>
      have hres := hi.reserved k (List.mem_of_getElem? hk)
      obtain ⟨hfree, hread⟩ := hi.of_reserved hres
      refine hi.count hfree hread (hi.lt_nextStrand fun huse => ?_) ⟨rfl, rfl⟩
      rw [(use_eq.mp huse).2.1] at hres
      exact absurd hres (by simp)
  | @releaseUnused j k hl hk hunused =>
      have hrel := hi.release hk
      have hlt : k < s.run.nextStrand := hi.lt_nextStrand fun huse => by
        have hres := hi.reserved k (List.mem_of_getElem? hk)
        rw [(use_eq.mp huse).2.1] at hres
        exact absurd hres (by simp)
      have hcell : ({ s.modifyStrand k fun st => { st with reserved := false } with
          reservations := s.reservations.eraseIdx j } : RecycleRun).cell k =
            { s.cell k with reserved := false } :=
        (cell_modifyStrand s k k fun st => { st with reserved := false }).trans (if_pos rfl)
      refine hrel.read (c := { worker := none, strand := k, reading := true }) hl ?_ hlt
        (fun d hd => ?_) ?_
      · rw [hcell]
        exact unused_iff.mp hunused
      · rcases List.mem_append.mp hd with hd | hd
        · exact Or.inl hd
        · exact Or.inr (List.mem_singleton.mp hd ▸ rfl)
      · show (s.checks ++ _).countP _ ≤ 1
        rw [List.countP_append, countP_reading hl]
        simp
  | releaseUsed hl hk hused => exact hi.release hk
  | @createNode i p k hp hin =>
      obtain ⟨hfree, hread⟩ := hok p k hp hin
      exact hi.count hfree hread (hi.issued.drains p (List.mem_of_getElem? hp) k
        (worker_of_inside hin)) ⟨rfl, rfl⟩
  | @removeNode i p k hp hin hpos =>
      obtain ⟨hfree, hread⟩ := hi.of_nodes (k := k) (by omega)
      exact hi.count hfree hread (hi.issued.drains p (List.mem_of_getElem? hp) k
        (worker_of_inside hin)) ⟨rfl, rfl⟩
  | @readUnused j c hl hc hunused =>
      refine hi.read hl (unused_iff.mp hunused) (hi.checked c (List.mem_of_getElem? hc))
        (fun d hd => ?_) ?_
      · rcases mem_set hd with rfl | hd
        · exact Or.inr rfl
        · exact Or.inl hd
      · have hset := countP_set_add (p := RecycleCheck.reading)
          (b := { c with reading := true }) hc
        rw [countP_reading hl] at hset
        split at hset <;> split at hset <;> omega
  | readUsed hl hc hused => exact hi.eraseCheck
  | readIdle hc hread hidle => exact hi.recycle hc hread
  | readBusy hc hread hbusy => exact hi.eraseCheck

/-- Acquiring a free strand leaves its nodes alone. -/
theorem nodeCount_acquireFree (s : RecycleRun) (k : StrandId) (rest : List StrandId) :
    (({ ({ s with run := { s.run with acquiring := s.run.acquiring - 1 } }.setFree
            rest).modifyStrand k fun st => { st with free := false, reserved := true } with
          reservations := s.reservations ++ [k] } : RecycleRun).cell k).nodeCount =
      (s.cell k).nodeCount := by
  simp [cell, modifyStrand, setFree, StrandRun.modifyStrand]

/-- Under the invariant, `acquireStrand` hands out strands that are not in use. -/
theorem Inv.handsOutIdle (hi : Inv s) : s.HandsOutIdle l := by
  cases l with
  | acquire =>
      intro s' h
      cases h with
      | acquireNew hl hpos hnil =>
          refine ⟨s.run.nextStrand, rfl, ?_, (hi.acquireNew hl hnil).1⟩
          simp [cell]
      | @acquireFree k rest hl hpos hfree =>
          obtain ⟨⟨hk, hcount⟩, -⟩ := hi.acquireFree hl hfree
          exact ⟨k, rfl, (nodeCount_acquireFree s k rest).trans hcount, hk⟩
  | _ => trivial

theorem inv_initial (n : ℕ) : Inv (initial n) where
  issued := by
    refine ⟨fun k hk => absurd hk List.not_mem_nil, fun p hp k hk => ?_,
      fun a ha => absurd ha List.not_mem_nil⟩
    obtain rfl := List.eq_of_mem_replicate hp
    exact absurd hk (by simp [DrainPhase.worker])
  checked c hc := absurd hc List.not_mem_nil
  freeIdle := ⟨List.nodup_nil, fun k => ⟨fun h => absurd h List.not_mem_nil,
    fun h => absurd h (by simp [cell, initial, StrandRun.initial])⟩,
    fun k hk => absurd hk List.not_mem_nil, fun k hk => absurd hk List.not_mem_nil⟩
  reading c hc := absurd hc List.not_mem_nil
  mutex := Nat.zero_le 1
  reserved k hk := absurd hk List.not_mem_nil
  once := List.nodup_nil
  fresh k _ := rfl

end RecycleRun

/-- **Free strands are not in use**, in a run in which no task creates a node in a strand that
is free, or about which `isRecyclable` has read that it owns none: the free list has no strand
twice, it has exactly the strands with `m_free` set, and none of them is reserved or owns a
node; and no strand that `acquireStrand` returns owns a node or is reserved by another caller. -/
theorem free_strands_idle {n : ℕ} {s : RecycleRun} {ls : List RecycleStep}
    (hrun : Run RecycleRun.Step RecycleRun.KeepsUnused (RecycleRun.initial n) ls s) :
    s.FreeIdle ∧ Run RecycleRun.Step RecycleRun.HandsOutIdle (RecycleRun.initial n) ls s := by
  refine ⟨(hrun.invariant (I := RecycleRun.Inv) ?_ (RecycleRun.inv_initial n)).freeIdle,
    hrun.strengthen (I := RecycleRun.Inv) ?_ (RecycleRun.inv_initial n)⟩
  · exact fun _ _ _ hi hok h => hi.step hok h
  · exact fun _ _ _ hi hok h => ⟨hi.step hok h, hi.handsOutIdle⟩

/-- A step of the drains that is no end of a drain. -/
theorem RecycleRun.Step.of_strand {s : RecycleRun} {l : StrandStep} {r : StrandRun}
    (hl : l.IsOrdinary) (hmore : ∀ i, l ≠ .lookForMore i) (hends : ∀ i, l ≠ .drainEnds i)
    (h : StrandRun.Step s.run l r) : RecycleRun.Step s (.strand l) { s with run := r } :=
  .strand hl hmore (fun i hi => absurd hi (hends i)) h

/-- A node is created in a strand that is not free, while no check is going on. -/
theorem RecycleRun.keepsUnused_of_noChecks {s : RecycleRun} {i : ℕ} {k : StrandId}
    (hk : s.run.drains[i]?.bind DrainPhase.inside = some k) (hfree : (s.cell k).free = false)
    (hchecks : s.checks = []) : s.KeepsUnused (.createNode i) := by
  intro p m hp hm
  rw [hp, Option.bind_some, hm] at hk
  obtain rfl := Option.some.inj hk
  refine ⟨hfree, fun c hc => ?_⟩
  rw [hchecks] at hc
  exact absurd hc List.not_mem_nil

/-- A strand is acquired, a node is moved to it, and a task of the strand creates another node
and destroys both; the strand is then recycled. -/
def usedUp : List RecycleStep :=
  [.strand .mayAcquire, .acquire, .moveIn 0, .release 0, .strand (.post 0),
    .strand (.testRetired 0), .strand (.push 0), .strand (.schedule 0), .strand (.take 0),
    .strand (.pop 0), .createNode 0, .removeNode 0, .removeNode 0, .strand (.taskEnds 0 false),
    .strand (.pop 0), .strand (.deletesEnd 0), .strand (.lookForMore 0), .readCounter 0,
    .readQueue 0]

/-- The strand is free without nodes. -/
theorem used_up_strand_recycled : ∃ s, s.freeStrands = [0] ∧ s.FreeIdle ∧
    Run RecycleRun.Step RecycleRun.HandsOutIdle (RecycleRun.initial 1) usedUp s := by
  have hrun : ∃ s, Run RecycleRun.Step RecycleRun.KeepsUnused (RecycleRun.initial 1) usedUp s ∧
      s.freeStrands = [0] :=
    ⟨_, .cons trivial (.of_strand trivial nofun nofun (.mayAcquire rfl (by decide)))
      (.cons trivial (.acquireNew (by decide) (by decide) rfl)
      (.cons trivial (.moveIn rfl) (.cons trivial (.releaseUsed (by decide) rfl rfl)
      (.cons trivial (.of_strand trivial nofun nofun (.post (by decide)))
      (.cons trivial (.of_strand trivial nofun nofun (.testRetired rfl))
      (.cons trivial (.of_strand trivial nofun nofun (.push rfl))
      (.cons trivial (.of_strand trivial nofun nofun (.schedule rfl rfl))
      (.cons trivial (.of_strand trivial nofun nofun (.take rfl rfl))
      (.cons trivial (.of_strand trivial nofun nofun (.pop rfl rfl))
      (.cons (RecycleRun.keepsUnused_of_noChecks rfl rfl rfl) (.createNode rfl rfl)
      (.cons trivial (.removeNode rfl rfl (by decide))
      (.cons trivial (.removeNode rfl rfl (by decide))
      (.cons trivial (.of_strand trivial nofun nofun (.taskEnds rfl))
      (.cons trivial (.of_strand trivial nofun nofun (.popNone rfl rfl))
      (.cons trivial (.of_strand trivial nofun nofun (.deletesEnd rfl))
      (.cons trivial (.noMore rfl rfl) (.cons trivial (.readUnused (by decide) rfl rfl)
      (.cons trivial (.readIdle rfl rfl rfl) (.nil _))))))))))))))))))), rfl⟩
  obtain ⟨s, hrun, hfree⟩ := hrun
  obtain ⟨hidle, hhands⟩ := free_strands_idle hrun
  exact ⟨s, hfree, hidle, hhands⟩

/-- The first drain of a strand is about to check whether the strand can be recycled when the
second one destroys the last node; the check reads the counter, the task of the second drain
creates a node, and the check finds no drain. -/
def overlappedCheck : List RecycleStep :=
  [.strand .mayAcquire, .acquire, .moveIn 0, .release 0, .strand (.post 0),
    .strand (.testRetired 0), .strand (.push 0), .strand (.schedule 0), .strand (.take 0),
    .strand (.pop 0), .strand (.taskEnds 0 false), .strand (.pop 0), .strand (.deletesEnd 0),
    .strand (.lookForMore 0), .strand (.post 0), .strand (.testRetired 1), .strand (.push 1),
    .strand (.schedule 1), .strand (.take 1), .strand (.pop 1), .removeNode 1, .readCounter 0,
    .createNode 1, .strand (.taskEnds 1 false), .strand (.pop 1), .strand (.deletesEnd 1),
    .strand (.lookForMore 1), .readQueue 0, .strand .mayAcquire]

/-- **A strand is recycled under a node**: the strand is on the free list although it owns a
node, and `acquireStrand` hands it out. -/
theorem strand_recycled_under_node : ∃ s s', Reaches RecycleRun.Step (RecycleRun.initial 2)
      overlappedCheck s ∧ s.freeStrands = [0] ∧ (s.cell 0).nodeCount = 1 ∧ ¬ s.FreeIdle ∧
    RecycleRun.Step s .acquire s' ∧ s'.reservations = [0] ∧ (s'.cell 0).nodeCount = 1 ∧
    ¬ s.HandsOutIdle .acquire := by
  have hrun : ∃ s, Reaches RecycleRun.Step (RecycleRun.initial 2) overlappedCheck s ∧
      s.freeStrands = [] ++ [0] ∧ (s.cell 0).nodeCount = 1 ∧ s.reservations = [] ∧
      ¬ s.Locked ∧ 0 < s.run.acquiring :=
    ⟨_, .cons trivial (.of_strand trivial nofun nofun (.mayAcquire rfl (by decide)))
      (.cons trivial (.acquireNew (by decide) (by decide) rfl)
      (.cons trivial (.moveIn rfl) (.cons trivial (.releaseUsed (by decide) rfl rfl)
      (.cons trivial (.of_strand trivial nofun nofun (.post (by decide)))
      (.cons trivial (.of_strand trivial nofun nofun (.testRetired rfl))
      (.cons trivial (.of_strand trivial nofun nofun (.push rfl))
      (.cons trivial (.of_strand trivial nofun nofun (.schedule rfl rfl))
      (.cons trivial (.of_strand trivial nofun nofun (.take rfl rfl))
      (.cons trivial (.of_strand trivial nofun nofun (.pop rfl rfl))
      (.cons trivial (.of_strand trivial nofun nofun (.taskEnds rfl))
      (.cons trivial (.of_strand trivial nofun nofun (.popNone rfl rfl))
      (.cons trivial (.of_strand trivial nofun nofun (.deletesEnd rfl))
      (.cons trivial (.noMore rfl rfl)
      (.cons trivial (.of_strand trivial nofun nofun (.post (by decide)))
      (.cons trivial (.of_strand trivial nofun nofun (.testRetired rfl))
      (.cons trivial (.of_strand trivial nofun nofun (.push rfl))
      (.cons trivial (.of_strand trivial nofun nofun (.schedule rfl rfl))
      (.cons trivial (.of_strand trivial nofun nofun (.take rfl rfl))
      (.cons trivial (.of_strand trivial nofun nofun (.pop rfl rfl))
      (.cons trivial (.removeNode rfl rfl (by decide))
      (.cons trivial (.readUnused (by decide) rfl rfl)
      (.cons trivial (.createNode rfl rfl)
      (.cons trivial (.of_strand trivial nofun nofun (.taskEnds rfl))
      (.cons trivial (.of_strand trivial nofun nofun (.popNone rfl rfl))
      (.cons trivial (.of_strand trivial nofun nofun (.deletesEnd rfl))
      (.cons trivial (.noMore rfl rfl) (.cons trivial (.readIdle rfl rfl rfl)
      (.cons trivial (.of_strand trivial nofun nofun (.mayAcquire rfl (by decide)))
      (.nil _))))))))))))))))))))))))))))), rfl, rfl, rfl, by decide, by decide⟩
  obtain ⟨s, hrun, hfree, hcount, hres, hlock, hpos⟩ := hrun
  have hst := RecycleRun.Step.acquireFree hlock hpos hfree
  have hone := (RecycleRun.nodeCount_acquireFree s 0 []).trans hcount
  refine ⟨s, _, hrun, hfree, hcount, fun hidle => ?_, hst, by rw [hres]; rfl, hone,
    fun hall => ?_⟩
  · have hzero := hidle.noNodes 0 (by simp [hfree])
    omega
  · obtain ⟨k, hk, hzero, -⟩ := hall _ hst
    obtain rfl : 0 = k := List.singleton_injective (List.append_cancel_left hk)
    omega

end SimplyNode
