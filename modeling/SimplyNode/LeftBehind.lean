import SimplyNode.LateDrains

/-!
# Moves to a Pool that Shuts Down

`moveToTaskPool` acquires a strand in two sections, a test of `m_stopping` under `m_mutex` and
the choice of the strand under `m_strandMutex`, and then publishes the strand as the owner of
every node of the subtree, and enters the node in the lists of the strand. `shutdown` sets
`m_stopping`, joins the workers, copies the list of strands and destroys the nodes of each of them.
A move that has passed its test before `m_stopping` was set goes on beside all that.

## Main results

* `MoveRun.Inv.step`: the step lemma.
* `no_node_left_behind`: if no move publishes a strand that `shutdown` has already gone through
  or has not seen, and none is about to enter a root when its strand is gone through, no node is
  left on the pool.
* `node_left_behind`: otherwise a node can be left on a strand that nobody runs or destroys.
-/

open Threads Transition

namespace SimplyNode

/-- Where a node is. -/
inductive Place
  | unborn
  /-- Owned by an executor that is no strand of the pool. -/
  | elsewhere
  | strand (id : StrandId)
  | destroyed
  deriving DecidableEq

/-- Where a call of `applyMoveToTaskPool` is, for the nodes of its subtree. The first of them is the
root of the subtree. -/
inductive MovePhase
  /-- Between the two sections of `acquireStrand`. -/
  | admitted (nodes : List ℕ)
  /-- In `applyMoveTo`, with the nodes that are left. -/
  | applying (strand : StrandId) (isRoot : Bool) (nodes : List ℕ)
  /-- Between `setOwnerExecutor` and `addRootNode` of a node. -/
  | entering (strand : StrandId) (isRoot : Bool) (node : ℕ) (nodes : List ℕ)
  | returned
  deriving DecidableEq

/-- The strand that a move has chosen. -/
def MovePhase.strand? : MovePhase → Option StrandId
  | .applying k _ _ | .entering k _ _ _ => some k
  | .admitted _ | .returned => none

/-- The node is about to be entered in the list of the roots of the strand. -/
def MovePhase.enters (k : StrandId) (m : ℕ) : MovePhase → Bool
  | .entering k' isRoot m' _ => isRoot && k' == k && m' == m
  | _ => false

/-- A pool with its strands, the nodes, and the moves to the pool that are in progress. -/
structure MoveRun where
  base : PoolRun
  strands : List StrandId := []
  freeStrands : List StrandId := []
  place : ℕ → Place
  moves : List MovePhase := []
  /-- The strands that the present call of `shutdown` has still to go through, once it has
  copied the list. -/
  rest : Option (List StrandId) := none
  /-- The strand whose roots it has copied, with the nodes that go with them. -/
  sweeping : Option (StrandId × (ℕ → Bool)) := none
  /-- The list of strands that the first call of `shutdown` has copied. -/
  copied : Option (List StrandId) := none
  /-- The strands whose roots were copied. -/
  swept : List StrandId := []

/-- What can happen next. -/
inductive MoveStep
  /-- A step of the pool, other than the end of a shutdown. -/
  | pool (step : PoolStep)
  /-- `acquireStrand()`, for a subtree: the section that tests the pool. -/
  | test (nodes : List ℕ)
  /-- `acquireStrand()`: the section that chooses a strand. -/
  | choose (move : ℕ)
  /-- `applyMoveTo()`: `setOwnerExecutor()` of the next node. -/
  | publish (move : ℕ)
  /-- `applyMoveTo()`: `addNode()`, and `addRootNode()` of the root. -/
  | register (move : ℕ)
  /-- `applyMoveToTaskPool()` returns. -/
  | moveReturns (move : ℕ)
  /-- An idle strand is recycled. -/
  | recycle (strand : StrandId)
  /-- A drain creates a node in its strand. -/
  | create (worker : ℕ) (node : ℕ)
  /-- A drain destroys a node of its strand, or moves it away. -/
  | remove (worker : ℕ) (node : ℕ) (moved : Bool)
  /-- `shutdown()` copies the list of strands. -/
  | copyStrands
  /-- `destroyRemainingNodes()` of the next strand copies its roots. -/
  | copyRoots
  /-- `destroyRemainingNodes()` destroys the nodes. -/
  | destroyNodes
  /-- `shutdown()` returns. -/
  | shutdownReturns
  deriving DecidableEq

namespace MoveRun

variable (s : MoveRun)

/-- A pool with `n` workers and no strands, and some nodes on other executors. -/
def initial (n : ℕ) (nodes : List ℕ) : MoveRun where
  base := .initial n
  place m := if m ∈ nodes then .elsewhere else .unborn

/-- A node gets another place. -/
def setPlace (m : ℕ) (p : Place) : MoveRun := { s with place := Function.update s.place m p }

/-- A worker runs a drain of the strand. -/
def Drains (i : ℕ) (k : StrandId) : Prop := s.base.threads[i]? = some (.running (.drain k))

/-- A step of the pool, the moves and the shutdown. -/
inductive Step : MoveRun → MoveStep → MoveRun → Prop
  | pool {s : MoveRun} {l : PoolStep} {b : PoolRun} :
      l ≠ .shutdownReturns → PoolRun.Step s.base l b → Step s (.pool l) { s with base := b }
  | admitted {s : MoveRun} {nodes : List ℕ} :
      (∀ m ∈ nodes, s.place m = .elsewhere) → s.base.pool.stopping = false →
      s.base.pool.workers ≠ 0 →
      Step s (.test nodes) { s with moves := s.moves ++ [.admitted nodes] }
  | rejected {s : MoveRun} {nodes : List ℕ} :
      (∀ m ∈ nodes, s.place m = .elsewhere) →
      (s.base.pool.stopping = true ∨ s.base.pool.workers = 0) → Step s (.test nodes) s
  | chooseFree {s : MoveRun} {j : ℕ} {nodes : List ℕ} {free : List StrandId} {k : StrandId} :
      s.moves[j]? = some (.admitted nodes) → s.freeStrands = free ++ [k] →
      Step s (.choose j)
        { s with freeStrands := free, moves := s.moves.set j (.applying k true nodes) }
  | chooseNew {s : MoveRun} {j : ℕ} {nodes : List ℕ} :
      s.moves[j]? = some (.admitted nodes) → s.freeStrands = [] →
      Step s (.choose j)
        { s with
          strands := s.strands ++ [s.strands.length]
          moves := s.moves.set j (.applying s.strands.length true nodes) }
  | publish {s : MoveRun} {j m : ℕ} {nodes : List ℕ} {k : StrandId} {isRoot : Bool} :
      s.moves[j]? = some (.applying k isRoot (m :: nodes)) →
      Step s (.publish j)
        { s.setPlace m (.strand k) with moves := s.moves.set j (.entering k isRoot m nodes) }
  | register {s : MoveRun} {j m : ℕ} {nodes : List ℕ} {k : StrandId} {isRoot : Bool} :
      s.moves[j]? = some (.entering k isRoot m nodes) →
      Step s (.register j) { s with moves := s.moves.set j (.applying k false nodes) }
  | moveReturns {s : MoveRun} {j : ℕ} {k : StrandId} {isRoot : Bool} :
      s.moves[j]? = some (.applying k isRoot []) →
      Step s (.moveReturns j) { s with moves := s.moves.set j .returned }
  | recycle {s : MoveRun} {k : StrandId} :
      k ∈ s.strands → k ∉ s.freeStrands →
      Step s (.recycle k) { s with freeStrands := s.freeStrands ++ [k] }
  | create {s : MoveRun} {i m : ℕ} {k : StrandId} :
      s.Drains i k → k ∈ s.strands → s.place m = .unborn →
      Step s (.create i m) (s.setPlace m (.strand k))
  | remove {s : MoveRun} {i m : ℕ} {moved : Bool} {k : StrandId} :
      s.Drains i k → s.place m = .strand k →
      Step s (.remove i m moved) (s.setPlace m (if moved then .elsewhere else .destroyed))
  | copyStrands {s : MoveRun} :
      s.base.shutdown = some .joined → s.rest = none →
      Step s .copyStrands
        { s with rest := some s.strands, copied := s.copied <|> some s.strands }
  | copyRoots {s : MoveRun} {k : StrandId} {rest : List StrandId} :
      s.rest = some (k :: rest) → s.sweeping = none →
      Step s .copyRoots
        { s with
          rest := some rest
          -- a root that is not in the list yet is not seen
          sweeping := some (k, fun m => s.place m == .strand k && !s.moves.any (·.enters k m))
          swept := k :: s.swept }
  | destroyNodes {s : MoveRun} {k : StrandId} {doomed : ℕ → Bool} :
      s.sweeping = some (k, doomed) →
      Step s .destroyNodes
        { s with
          sweeping := none
          place := fun m => if doomed m then .destroyed else s.place m }
  | shutdownReturns {s : MoveRun} {b : PoolRun} :
      s.rest = some [] → s.sweeping = none → PoolRun.Step s.base .shutdownReturns b →
      Step s .shutdownReturns { s with base := b, rest := none }

/-- `shutdown` has gone through the strand, or has copied the list of strands without it. -/
def Closed (k : StrandId) : Prop := k ∈ s.swept ∨ ∃ l, s.copied = some l ∧ k ∉ l

/-- No move makes a strand the owner of a node that `shutdown` has gone through or has not
seen, and none is about to enter a root when `shutdown` goes through the strand. -/
def InTime (s : MoveRun) : MoveStep → Prop
  | .publish j => ∀ x k, s.moves[j]? = some x → x.strand? = some k → ¬ s.Closed k
  | .copyRoots => ∀ k rest, s.rest = some (k :: rest) → ∀ x ∈ s.moves, ∀ m, x.enters k m = false
  | _ => True

/-- No node is on a strand of the pool. -/
def Deserted (s : MoveRun) : Prop := ∀ m k, s.place m ≠ .strand k

/-! ### The invariant -/

/-- What is known of the strands and of a shutdown. -/
structure Inv (n : ℕ) (s : MoveRun) : Prop where
  base : PoolRun.Inv n s.base
  placed : ∀ m k, s.place m = .strand k → k ∈ s.strands
  free : ∀ k ∈ s.freeStrands, k ∈ s.strands
  chosen : ∀ x ∈ s.moves, ∀ k, x.strand? = some k → k ∈ s.strands
  /-- A shutdown that has copied the list has joined the workers. -/
  joined : s.copied ≠ none ∨ s.swept ≠ [] ∨ s.rest ≠ none → s.base.pool.joined = true
  /-- What is left on a strand that was gone through is about to be destroyed. -/
  closed : ∀ m k, s.place m = .strand k → s.Closed k →
    ∃ doomed, s.sweeping = some (k, doomed) ∧ doomed m = true
  /-- The strands of the list are gone through one by one. -/
  pending : ∀ l, s.copied = some l → ∀ k ∈ l, k ∈ s.swept ∨ ∃ r, s.rest = some r ∧ k ∈ r
  copied : s.rest ≠ none ∨ 0 < s.base.shutdowns → s.copied ≠ none
  returned : 0 < s.base.shutdowns → s.Deserted ∧ ∀ k, s.Closed k

variable {s s' : MoveRun} {l : MoveStep} {n i : ℕ} {k : StrandId}

/-- Only its end counts a shutdown. -/
theorem shutdowns_of_step {b b' : PoolRun} {x : PoolStep} (hx : x ≠ .shutdownReturns)
    (h : PoolRun.Step b x b') : b'.shutdowns = b.shutdowns := by
  cases h with
  | @start callable =>
      rw [PoolRun.start]
      split <;> rfl
  | @enqueueStrandDrain k =>
      rcases b.enqueueStrandDrain_cases k with heq | ⟨-, heq⟩ <;> rw [heq]
  | shutdownReturns => exact absurd rfl hx
  | _ => rfl

/-- While a drain runs, no shutdown has joined the workers. -/
theorem Inv.running (hi : Inv n s) (hd : s.Drains i k) :
    s.base.pool.joined = false ∧ s.copied = none ∧ s.swept = [] := by
  have hj : s.base.pool.joined = false := by
    by_contra hj
    obtain ⟨hall, -⟩ := hi.base.staffed.joined (by simpa using hj)
    exact absurd (hall _ (List.mem_of_getElem? hd)) (by simp)
  refine ⟨hj, ?_, ?_⟩
  · by_contra hc
    rw [hi.joined (Or.inl hc)] at hj
    exact absurd hj (by simp)
  · by_contra hs
    rw [hi.joined (Or.inr (Or.inl hs))] at hj
    exact absurd hj (by simp)

/-- A step of the pool. -/
theorem Inv.pool {b : PoolRun} {x : PoolStep} (hi : Inv n s) (hx : x ≠ .shutdownReturns)
    (h : PoolRun.Step s.base x b) : Inv n { s with base := b } := by
  have hn := shutdowns_of_step hx h
  refine { hi with
    base := hi.base.step h
    joined := fun hor => ?_
    copied := fun hor => hi.copied (hor.imp_right fun hr => hn ▸ hr)
    returned := fun hr => hi.returned (hn ▸ hr) }
  by_contra hj
  have hfalse := h.joined (by simpa using hj)
  rw [hi.joined hor] at hfalse
  exact absurd hfalse (by simp)

/-- A node gets a place outside of the closed strands. -/
theorem Inv.setPlace {m : ℕ} {p : Place} (hi : Inv n s)
    (hp : ∀ k, p = .strand k → k ∈ s.strands ∧ ¬ s.Closed k) : Inv n (s.setPlace m p) := by
  have hplace : ∀ m', (s.setPlace m p).place m' = if m' = m then p else s.place m' :=
    fun m' => Function.update_apply ..
  refine { hi with
      placed := fun m' k hk => ?_
      closed := fun m' k hk hc => ?_
      returned := fun hr => ⟨fun m' k hk => ?_, (hi.returned hr).2⟩ }
  · rw [hplace] at hk
    split at hk
    · exact (hp k hk).1
    · exact hi.placed m' k hk
  · rw [hplace] at hk
    split at hk
    · exact absurd hc (hp k hk).2
    · exact hi.closed m' k hk hc
  · rw [hplace] at hk
    split at hk
    · exact (hp k hk).2 ((hi.returned hr).2 k)
    · exact (hi.returned hr).1 m' k hk

/-- The moves go on. -/
theorem Inv.withMoves {ms : List MovePhase} (hi : Inv n s)
    (hms : ∀ x ∈ ms, ∀ k, x.strand? = some k → k ∈ s.strands) :
    Inv n { s with moves := ms } :=
  { hi with chosen := hms }

/-- A new strand is created. -/
theorem Inv.addStrand (hi : Inv n s) : Inv n { s with strands := s.strands ++ [k] } :=
  { hi with
    placed := fun m j hj => List.mem_append_left _ (hi.placed m j hj)
    free := fun j hj => List.mem_append_left _ (hi.free j hj)
    chosen := fun x hx j hj => List.mem_append_left _ (hi.chosen x hx j hj) }

/-- `shutdown` copies the list of strands. -/
theorem Inv.copyStrands (hi : Inv n s) (hd : s.base.shutdown = some .joined)
    (hr : s.rest = none) :
    Inv n { s with rest := some s.strands, copied := s.copied <|> some s.strands } := by
  have hj := hi.base.staffed.behind hd
  cases hc : s.copied with
  | none =>
      refine { hi with
          joined := fun _ => hj
          closed := fun m k hk hcl => ?_
          pending := fun l hl k hk => ?_
          copied := fun _ => by simp
          returned := fun hret => absurd hc (hi.copied (Or.inr hret)) }
      · rcases hcl with hs | ⟨l, hl, hnot⟩
        · exact hi.closed m k hk (Or.inl hs)
        · obtain rfl := Option.some.inj hl
          exact absurd (hi.placed m k hk) hnot
      · obtain rfl := Option.some.inj hl
        exact Or.inr ⟨_, rfl, hk⟩
  | some l =>
      refine { hi with
          joined := fun _ => hj
          closed := fun m k hk hcl => ?_
          pending := fun l' hl k hk => ?_
          copied := fun _ => by simp
          returned := fun hret => ⟨(hi.returned hret).1, fun k => ?_⟩ }
      · refine hi.closed m k hk (hcl.imp_right ?_)
        rintro ⟨l', hl, hnot⟩
        exact ⟨l', hc.trans hl, hnot⟩
      · rcases hi.pending l' (hc.trans hl) k hk with hs | ⟨r, hr', -⟩
        · exact Or.inl hs
        · rw [hr] at hr'
          exact absurd hr' (by simp)
      · refine ((hi.returned hret).2 k).imp_right ?_
        rintro ⟨l', hl, hnot⟩
        exact ⟨l', hc.symm.trans hl, hnot⟩

/-- `shutdown` copies the roots of the next strand. -/
theorem Inv.copyRoots {rest : List StrandId} (hi : Inv n s) (hok : s.InTime .copyRoots)
    (hr : s.rest = some (k :: rest)) (hs : s.sweeping = none) :
    Inv n { s with
      rest := some rest
      sweeping := some (k, fun m => s.place m == .strand k && !s.moves.any (·.enters k m))
      swept := k :: s.swept } := by
  have hj : s.base.pool.joined = true := hi.joined (Or.inr (Or.inr (by simp [hr])))
  refine { hi with
      joined := fun _ => hj
      closed := fun m j hm hc => ?_
      pending := fun l hl j hj' => ?_
      copied := fun _ => hi.copied (Or.inl (by simp [hr]))
      returned := fun hret => ⟨(hi.returned hret).1, fun j => ?_⟩ }
  · by_cases hjk : j = k
    · subst hjk
      have hplace : s.place m = .strand j := hm
      have hseen : s.moves.any (·.enters j m) = false :=
        List.any_eq_false.mpr fun x hx => by simp [hok j rest hr x hx m]
      exact ⟨_, rfl, by simp [hplace, hseen]⟩
    · have hc' : s.Closed j := hc.imp_left fun hmem =>
        (List.mem_cons.mp hmem).resolve_left hjk
      obtain ⟨doomed, hsweep, -⟩ := hi.closed m j hm hc'
      rw [hs] at hsweep
      exact absurd hsweep (by simp)
  · rcases hi.pending l hl j hj' with hswept | ⟨r, hr', hmem⟩
    · exact Or.inl (List.mem_cons_of_mem k hswept)
    · obtain rfl := Option.some.inj (hr.symm.trans hr')
      rcases List.mem_cons.mp hmem with rfl | hmem
      · exact Or.inl List.mem_cons_self
      · exact Or.inr ⟨rest, rfl, hmem⟩
  · exact ((hi.returned hret).2 j).imp_left (List.mem_cons_of_mem k)

/-- `shutdown` destroys the nodes of a strand. -/
theorem Inv.destroyNodes {doomed : ℕ → Bool} (hi : Inv n s)
    (hs : s.sweeping = some (k, doomed)) :
    Inv n { s with
      sweeping := none
      place := fun m => if doomed m then .destroyed else s.place m } := by
  have hplace : ∀ m j, (if doomed m then Place.destroyed else s.place m) = .strand j →
      s.place m = .strand j ∧ doomed m = false := by
    intro m j hm
    cases hd : doomed m with
    | true =>
        rw [hd, if_pos rfl] at hm
        exact absurd hm (by simp)
    | false =>
        rw [hd, if_neg (by simp)] at hm
        exact ⟨hm, rfl⟩
  refine { hi with
      placed := fun m j hm => hi.placed m j (hplace m j hm).1
      closed := fun m j hm hc => ?_
      returned := fun hret => ⟨fun m j hm => ?_, (hi.returned hret).2⟩ }
  · obtain ⟨hm', hd⟩ := hplace m j hm
    obtain ⟨doomed', hsweep, hd'⟩ := hi.closed m j hm' hc
    obtain ⟨-, rfl⟩ := Prod.mk.inj (Option.some.inj (hs.symm.trans hsweep))
    rw [hd] at hd'
    exact absurd hd' (by simp)
  · exact (hi.returned hret).1 m j (hplace m j hm).1

/-- **`shutdown` returns**: it has gone through every strand. -/
theorem Inv.shutdownReturns {b : PoolRun} (hi : Inv n s) (hr : s.rest = some [])
    (hs : s.sweeping = none) (hb : PoolRun.Step s.base .shutdownReturns b) :
    Inv n { s with base := b, rest := none } := by
  have hj : s.base.pool.joined = true := hi.joined (Or.inr (Or.inr (by simp [hr])))
  have hcopied : s.copied ≠ none := hi.copied (Or.inl (by simp [hr]))
  have hclosed : ∀ k, s.Closed k := by
    intro k
    obtain ⟨l, hl⟩ := Option.ne_none_iff_exists'.mp hcopied
    by_cases hk : k ∈ l
    · rcases hi.pending l hl k hk with hswept | ⟨r, hr', hmem⟩
      · exact Or.inl hswept
      · obtain rfl := Option.some.inj (hr.symm.trans hr')
        exact absurd hmem List.not_mem_nil
    · exact Or.inr ⟨l, hl, hk⟩
  have hbase := hi.base.step hb
  cases hb with
  | shutdownReturns hd =>
      refine { hi with
          base := hbase
          joined := fun _ => hj
          pending := fun l hl k hk => ?_
          copied := fun _ => hcopied
          returned := fun _ => ⟨fun m k hm => ?_, hclosed⟩ }
      · rcases hi.pending l hl k hk with hswept | ⟨r, hr', hmem⟩
        · exact Or.inl hswept
        · obtain rfl := Option.some.inj (hr.symm.trans hr')
          exact absurd hmem List.not_mem_nil
      · obtain ⟨doomed, hsweep, -⟩ := hi.closed m k hm (hclosed k)
        rw [hs] at hsweep
        exact absurd hsweep (by simp)

/-- **The step lemma.** -/
theorem Inv.step (hi : Inv n s) (hok : s.InTime l) (h : Step s l s') : Inv n s' := by
  have hset : ∀ {j : ℕ} {x : MovePhase}, (∀ k, x.strand? = some k → k ∈ s.strands) →
      ∀ y ∈ s.moves.set j x, ∀ k, y.strand? = some k → k ∈ s.strands := by
    intro j x hx y hmem
    rcases mem_set hmem with rfl | hmem
    · exact hx
    · exact hi.chosen y hmem
  cases h with
  | pool hx hb => exact hi.pool hx hb
  | admitted hm hstop hw =>
      refine hi.withMoves fun x hmem => ?_
      rcases List.mem_append.mp hmem with hmem | hmem
      · exact hi.chosen x hmem
      · obtain rfl := List.mem_singleton.mp hmem
        exact fun k hk => absurd hk (by simp [MovePhase.strand?])
  | rejected hm hor => exact hi
  | @chooseFree j nodes free k hj hfree =>
      have hk : k ∈ s.strands := hi.free k (by simp [hfree])
      have hmoves := hi.withMoves (hset (j := j) (x := .applying k true nodes) fun k' heq =>
        Option.some.inj heq ▸ hk)
      exact { hmoves with free := fun m hm => hi.free m (by simp [hfree, hm]) }
  | @chooseNew j nodes hj hfree =>
      have hnew := hi.addStrand (k := s.strands.length)
      refine hnew.withMoves fun x hmem k hk => ?_
      rcases mem_set hmem with rfl | hmem
      · obtain rfl := Option.some.inj hk
        simp
      · exact hnew.chosen x hmem k hk
  | @publish j m nodes k isRoot hj =>
      have hk : k ∈ s.strands := hi.chosen _ (List.mem_of_getElem? hj) k rfl
      have hplaced := hi.setPlace (m := m) (p := .strand k) fun k' heq => by
        obtain rfl := Place.strand.inj heq
        exact ⟨hk, hok _ k hj rfl⟩
      exact hplaced.withMoves (hset fun k' heq => Option.some.inj heq ▸ hk)
  | register hj =>
      exact hi.withMoves (hset fun k' heq => Option.some.inj heq ▸
        hi.chosen _ (List.mem_of_getElem? hj) _ rfl)
  | moveReturns hj =>
      exact hi.withMoves (hset fun k' heq => absurd heq (by simp [MovePhase.strand?]))
  | @recycle k hk hfree =>
      refine { hi with free := fun m hm => ?_ }
      rcases List.mem_append.mp hm with hm | hm
      · exact hi.free m hm
      · exact List.mem_singleton.mp hm ▸ hk
  | @create i m k hd hk hm =>
      obtain ⟨-, hc, hs⟩ := hi.running hd
      refine hi.setPlace fun k' heq => ?_
      obtain rfl := Place.strand.inj heq
      exact ⟨hk, by simp [Closed, hc, hs]⟩
  | @remove i m moved k hd hm =>
      exact hi.setPlace fun k' heq => absurd heq (by split <;> simp)
  | copyStrands hd hr => exact hi.copyStrands hd hr
  | copyRoots hr hs => exact hi.copyRoots hok hr hs
  | destroyNodes hs => exact hi.destroyNodes hs
  | shutdownReturns hr hs hb => exact hi.shutdownReturns hr hs hb

theorem deserted_initial (n : ℕ) (nodes : List ℕ) : (initial n nodes).Deserted := by
  intro m k
  show (if m ∈ nodes then Place.elsewhere else Place.unborn) ≠ .strand k
  split <;> simp

theorem inv_initial (n : ℕ) (nodes : List ℕ) : Inv n (initial n nodes) where
  base := PoolRun.inv_initial n
  placed m k hm := absurd hm (deserted_initial n nodes m k)
  free k hk := absurd hk List.not_mem_nil
  chosen x hx := absurd hx List.not_mem_nil
  joined h := by simp [initial] at h
  closed m k hm := absurd hm (deserted_initial n nodes m k)
  pending l hl := absurd hl (by simp [initial])
  copied h := by simp [initial, PoolRun.initial] at h
  returned h := absurd h (Nat.lt_irrefl 0)

end MoveRun

/-- **No node is left on a dead pool**, in a run in which no move makes a strand the owner of a node
after `shutdown` has gone through that strand or has copied the list of strands without it, and none
is about to enter a root when `shutdown` goes through its strand: once a call of `shutdown` has
returned, no node is on a strand of the pool, and every move that comes to the pool is rejected and
leaves everything as it is. -/
theorem no_node_left_behind {n : ℕ} {nodes : List ℕ} {s : MoveRun} {ls : List MoveStep}
    (hrun : Run MoveRun.Step MoveRun.InTime (MoveRun.initial n nodes) ls s)
    (hdown : 0 < s.base.shutdowns) :
    s.Deserted ∧ ∀ ns s', MoveRun.Step s (.test ns) s' → s' = s := by
  have hi : MoveRun.Inv n s := by
    refine hrun.invariant (I := MoveRun.Inv n) ?_ (MoveRun.inv_initial n nodes)
    exact fun _ _ _ hi hok h => hi.step hok h
  refine ⟨(hi.returned hdown).1, fun ns s' h => ?_⟩
  obtain ⟨-, hstop⟩ := hi.base.staffed.joined (hi.base.staffed.returned hdown)
  cases h with
  | admitted hm hfalse hw =>
      rw [hstop] at hfalse
      exact absurd hfalse (by simp)
  | rejected hm hor => rfl

/-- A node moves to the pool, which is then shut down. -/
def movedInTime : List MoveStep :=
  [.test [7], .pool .shutdown, .pool .stopAccepting, .choose 0, .publish 0, .register 0,
    .moveReturns 0, .pool (.leave 0), .pool .join, .pool .setJoined, .copyStrands, .copyRoots,
    .destroyNodes, .shutdownReturns]

/-- The shutdown destroys the node. -/
theorem moved_node_destroyed : ∃ s, s.place 7 = .destroyed ∧ s.Deserted ∧
    ∀ ns s', MoveRun.Step s (.test ns) s' → s' = s := by
  have hrun : ∃ s, Run MoveRun.Step MoveRun.InTime (MoveRun.initial 1 [7]) movedInTime s ∧
      s.place 7 = .destroyed ∧ s.base.shutdowns = 1 := by
    refine ⟨_, .cons trivial (.admitted (by decide) rfl (by decide))
      (.cons trivial (.pool nofun (.shutdown rfl)) (.cons trivial (.pool nofun
      (.stopAccepting rfl)) (.cons trivial (.chooseNew rfl rfl) (.cons ?_ (.publish rfl)
      (.cons trivial (.register rfl) (.cons trivial (.moveReturns rfl)
      (.cons trivial (.pool nofun (.leave rfl rfl rfl)) (.cons trivial (.pool nofun (.join rfl rfl))
      (.cons trivial (.pool nofun (.setJoined rfl)) (.cons trivial (.copyStrands rfl rfl)
      (.cons ?_ (.copyRoots rfl rfl) (.cons trivial (.destroyNodes rfl)
      (.cons trivial (.shutdownReturns rfl rfl (.shutdownReturns rfl)) (.nil _)))))))))))))),
      rfl, rfl⟩
    · rintro x k - - (hswept | ⟨l, hl, -⟩)
      · exact absurd hswept List.not_mem_nil
      · exact absurd hl (by simp [MoveRun.initial])
    · -- the move has returned
      rintro k rest - x hx m
      obtain rfl : x = .returned := List.mem_singleton.mp hx
      rfl
  obtain ⟨s, hrun, hdead, hdown⟩ := hrun
  obtain ⟨hnone, hrejects⟩ := no_node_left_behind hrun (by omega)
  exact ⟨s, hdead, hnone, hrejects⟩

/-- A move that has passed the test of `m_stopping` gets a new strand after `shutdown` has copied
the list of strands. -/
def chosenLate : List MoveStep :=
  [.test [7], .pool .shutdown, .pool .stopAccepting, .pool (.leave 0), .pool .join,
    .pool .setJoined, .copyStrands, .choose 0, .publish 0, .register 0, .moveReturns 0,
    .shutdownReturns]

/-- `shutdown` copies the roots of a strand between `setOwnerExecutor` and `addRootNode`. -/
def enteredLate : List MoveStep :=
  [.test [7], .choose 0, .pool .shutdown, .pool .stopAccepting, .pool (.leave 0), .pool .join,
    .pool .setJoined, .copyStrands, .publish 0, .copyRoots, .register 0, .moveReturns 0,
    .destroyNodes, .shutdownReturns]

/-- **A node is left behind** on a strand that nobody runs or destroys. -/
theorem node_left_behind :
    (∃ s, Reaches MoveRun.Step (MoveRun.initial 1 [7]) chosenLate s ∧
      s.base.shutdowns = 1 ∧ s.place 7 = .strand 0 ∧ ¬ s.Deserted) ∧
    ∃ s, Reaches MoveRun.Step (MoveRun.initial 1 [7]) enteredLate s ∧
      s.base.shutdowns = 1 ∧ s.place 7 = .strand 0 ∧ ¬ s.Deserted := by
  have hlate : Reaches MoveRun.Step (MoveRun.initial 1 [7]) chosenLate _ :=
    .cons trivial (.admitted (by decide) rfl (by decide)) <|
    .cons trivial (.pool nofun (.shutdown rfl)) <|
    .cons trivial (.pool nofun (.stopAccepting rfl)) <|
    .cons trivial (.pool nofun (.leave rfl rfl rfl)) <|
    .cons trivial (.pool nofun (.join rfl rfl)) <| .cons trivial (.pool nofun (.setJoined rfl)) <|
    .cons trivial (.copyStrands rfl rfl) <| .cons trivial (.chooseNew rfl rfl) <|
    .cons trivial (.publish rfl) <| .cons trivial (.register rfl) <|
    .cons trivial (.moveReturns rfl) <|
    .cons trivial (.shutdownReturns rfl rfl (.shutdownReturns rfl)) <| .nil _
  have hunlisted : Reaches MoveRun.Step (MoveRun.initial 1 [7]) enteredLate _ :=
    .cons trivial (.admitted (by decide) rfl (by decide)) <|
    .cons trivial (.chooseNew rfl rfl) <| .cons trivial (.pool nofun (.shutdown rfl)) <|
    .cons trivial (.pool nofun (.stopAccepting rfl)) <|
    .cons trivial (.pool nofun (.leave rfl rfl rfl)) <|
    .cons trivial (.pool nofun (.join rfl rfl)) <| .cons trivial (.pool nofun (.setJoined rfl)) <|
    .cons trivial (.copyStrands rfl rfl) <| .cons trivial (.publish rfl) <|
    .cons trivial (.copyRoots rfl rfl) <| .cons trivial (.register rfl) <|
    .cons trivial (.moveReturns rfl) <| .cons trivial (.destroyNodes rfl) <|
    .cons trivial (.shutdownReturns rfl rfl (.shutdownReturns rfl)) <| .nil _
  have hleft : ∀ s : MoveRun, s.place 7 = .strand 0 → ¬ s.Deserted :=
    fun s hplace hnone => hnone 7 0 hplace
  exact ⟨⟨_, hlate, rfl, rfl, hleft _ rfl⟩, _, hunlisted, rfl, rfl, hleft _ rfl⟩

end SimplyNode
