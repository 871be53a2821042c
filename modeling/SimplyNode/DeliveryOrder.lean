import SimplyNode.Connection
import SimplyNode.Lib.Forwarding

/-!
# The Order of Queued Deliveries

The emissions of a thread post their deliveries for a slot one after the other, and every queue is
first-in first-out. But the owner of the receiver may change while a delivery waits. The delivery is
then posted again, behind what has been posted to the new owner in the meantime.

The deliveries of a thread for a slot stay in one line if they are posted, and the receiver is moved
on, only while none of them waits with a former owner.

## Main results

* `Ordered.step`: the deliveries are in line, in the order of their emissions.
* `deliveries_in_order`: the slot runs in the order of the emissions.
* `overtaken`: a run in which the second emission is delivered first.
-/

open Transition

namespace SimplyNode

namespace SignalRun

section Defs

variable (s : SignalRun) (c : ℕ) (thread : ThreadId)

/-- The receiver of a connection. -/
def receiverOf : Option Generation := (s.connections c).bind Connection.receiver

/-- The owner of the receiver. -/
def ownerFor : Option ExecutorId := s.ownerOf (s.receiverOf c)

/-- The delivery is one of the thread, for the connection. -/
def isFor (d : Delivery) : Bool := d.connection = c && d.thread = thread

/-- The emissions of the thread whose deliveries for the connection wait with an executor. -/
def waitsAt (e : ExecutorId) : List ℕ :=
  ((s.queue e).filter (isFor c thread)).map Delivery.emission

/-- The emission of the thread for which the slot was started from a queue. -/
def ranFor : SignalEvent → Option ℕ
  | .started d =>
      if d.queued && d.connection = c && d.thread = thread then some d.emission else none
  | _ => none

/-- The emissions of the thread for which the slot was started from a queue, in that order. -/
def ran : List ℕ := (s.log.filterMap (ranFor c thread)).reverse

/-- An emission of the thread has still to come to the slot. -/
def PendingBy (n : ℕ) : Prop :=
  ∃ E, s.emissions n = some E ∧ E.ctx.thread = thread ∧ 0 < E.pending c

/-- The thread emits the signal of the connection once it has done so the last time. -/
def Sequential (l : SignalStep) : Prop :=
  ∀ signal ctx, l = .emit signal ctx → ctx.thread = thread → c ∈ s.slots signal →
    ∀ n, ¬ s.PendingBy c thread n

/-- The condition on a step: the thread posts a delivery for the connection to the executor `o`, and
the receiver is moved, only while no such delivery waits with another executor than the owner
(or `o`). -/
structure InLine (l : SignalStep) : Prop where
  post : ∀ n E o, l = .post n → s.emissions n = some E → E.ctx.thread = thread →
    E.posting = some (o, c) →
    ∀ e, e ≠ o → s.ownerFor c ≠ some e → s.waitsAt c thread e = []
  move : ∀ g target, l = .applyMoveTo g target → s.receiverOf c = some g →
    ∀ e, s.ownerFor c ≠ some e → s.waitsAt c thread e = []

/-- **The invariant.** The deliveries are in line, and in the order of the emissions; an emission
that has still to come to the slot is the last, and the only one. -/
structure Ordered : Prop where
  line : ∃ o l, (∀ o', s.ownerFor c = some o' → o' = o) ∧
    Forwarding.Line (s.ran c thread) o (s.waitsAt c thread) l ∧ l.Pairwise (· < ·) ∧
    (∀ m ∈ l, m < s.emitted) ∧ ∀ n, s.PendingBy c thread n → ∀ m ∈ l, m < n
  single : ∀ n n', s.PendingBy c thread n → s.PendingBy c thread n' → n = n'
  fresh : s.ownerFor c = none → s.ran c thread = []

end Defs

variable {s s' : SignalRun} {e o : ExecutorId} {t thread : ThreadId} {d : Delivery} {g : Generation}
  {n c : ℕ} {E : Emission} {k : Connection} {rest : List ℕ} {l : SignalStep} {v : SignalEvent}

/-! ### Queues -/

/-- What is posted to an executor stands at the end of its queue. -/
theorem queue_enqueue_self (h : e ∉ s.retired) : (s.enqueue e d).queue e = s.queue e ++ [d] := by
  simp [queue, enqueue, h]

/-- The queues of the others stay. -/
theorem queue_enqueue_of_ne (h : e ≠ o) : (s.enqueue o d).queue e = s.queue e := by
  simp only [queue, enqueue]
  split
  · rfl
  · simp [Ne.symm h]

/-- The first delivery for an executor is the head of its queue. -/
theorem queue_of_posts {before after : List (ExecutorId × Delivery)}
    (hp : s.posts = before ++ (e, d) :: after) (hb : ∀ p ∈ before, p.1 ≠ e) :
    s.queue e = d :: queue { s with posts := before ++ after } e := by
  have hnil : before.filterMap (fun p => if p.1 = e then some p.2 else none) = [] :=
    List.filterMap_eq_nil_iff.mpr fun p hp => if_neg (hb p hp)
  simp [queue, hp, hnil]

/-- Taking it out leaves the other queues as they are. -/
theorem queue_of_posts_of_ne {before after : List (ExecutorId × Delivery)}
    (hp : s.posts = before ++ (e, d) :: after) (he : o ≠ e) :
    s.queue o = queue { s with posts := before ++ after } o := by
  simp [queue, hp, Ne.symm he]

/-- Nothing waits for a connection that is not there. -/
theorem waitsAt_of_none (hr : s.Routed) (hc : s.connections c = none) (e : ExecutorId) :
    s.waitsAt c thread e = [] := by
  rw [waitsAt, List.map_eq_nil_iff, List.filter_eq_nil_iff]
  intro d hd hfor
  obtain ⟨p, hp, hpe⟩ := List.mem_filterMap.mp hd
  obtain ⟨⟨k, _, hk, _⟩, _⟩ := hr.waiting p hp
  obtain rfl : p.2 = d := by
    split at hpe
    · exact Option.some.inj hpe
    · exact nomatch hpe
  rw [of_decide_eq_true (Bool.and_eq_true_iff.mp hfor).1, hc] at hk
  exact nomatch hk

/-! ### Steps aside -/

/-- Nothing new happens to the deliveries of the thread for the connection. -/
structure Aside (c : ℕ) (thread : ThreadId) (s s' : SignalRun) : Prop where
  ran : s'.ran c thread = s.ran c thread
  waits : ∀ e, (s'.waitsAt c thread e).Sublist (s.waitsAt c thread e)
  owner : s'.ownerFor c = s.ownerFor c
  emitted : s.emitted ≤ s'.emitted
  pending : ∀ n, s'.PendingBy c thread n → s.PendingBy c thread n

/-- The order does not depend on what is aside of it. -/
theorem Ordered.aside (h : s.Ordered c thread) (ha : Aside c thread s s') :
    s'.Ordered c thread where
  line := by
    obtain ⟨o, l, ho, hline, hsorted, hlt, hahead⟩ := h.line
    obtain ⟨l', hsub, hline'⟩ := hline.sublist ha.waits
    refine ⟨o, l', fun o' ho' => ho o' (ha.owner ▸ ho'), ?_, hsorted.sublist hsub,
      fun m hm => Nat.lt_of_lt_of_le (hlt m (hsub.subset hm)) ha.emitted,
      fun n hn m hm => hahead n (ha.pending n hn) m (hsub.subset hm)⟩
    rw [ha.ran]
    exact hline'
  single n n' hn hn' := h.single n n' (ha.pending n hn) (ha.pending n' hn')
  fresh ho := by
    rw [ha.ran]
    exact h.fresh (ha.owner ▸ ho)

namespace Aside

/-- Two steps aside are one. -/
theorem trans {s₁ : SignalRun} (h : Aside c thread s s₁) (h' : Aside c thread s₁ s') :
    Aside c thread s s' where
  ran := h'.ran.trans h.ran
  waits e := (h'.waits e).trans (h.waits e)
  owner := h'.owner.trans h.owner
  emitted := Nat.le_trans h.emitted h'.emitted
  pending n hn := h.pending n (h'.pending n hn)

/-- An event that is not about the slot is aside. -/
theorem record (hv : ranFor c thread v = none) : Aside c thread s (s.record v) where
  ran := by
    rw [SignalRun.ran, SignalRun.ran, SignalRun.record, List.filterMap_cons, hv]
  waits _ := List.Sublist.refl _
  owner := rfl
  emitted := Nat.le_refl _
  pending _ := id

/-- A change of a block is aside, unless it is the receiver that moves. -/
theorem setBlock {b : NodeLifetimeBlock}
    (hb : s.receiverOf c = some g → b.owner = (s.blocks g).owner) :
    Aside c thread s (s.setBlock g b) where
  ran := rfl
  waits _ := List.Sublist.refl _
  owner := by
    change (s.setBlock g b).ownerOf (s.receiverOf c) = s.ownerOf (s.receiverOf c)
    cases hr : s.receiverOf c with
    | none => rfl
    | some g' =>
      by_cases heq : g' = g
      · subst heq
        simpa [ownerOf, SignalRun.setBlock] using hb hr
      · simp [ownerOf, SignalRun.setBlock, Function.update_of_ne heq]
  emitted := Nat.le_refl _
  pending _ := id

/-- To cut a connection is aside. -/
theorem sever {c' : ℕ} : Aside c thread s (s.sever c') where
  ran := rfl
  waits _ := List.Sublist.refl _
  owner := by
    have hr : (s.sever c').receiverOf c = s.receiverOf c := by
      by_cases heq : c = c'
      · subst heq
        simp only [receiverOf, SignalRun.sever, Function.update_self]
        cases s.connections c <;> rfl
      · rw [receiverOf, connections_sever_of_ne heq, receiverOf]
    rw [ownerFor, hr]
    rfl
  emitted := Nat.le_refl _
  pending _ := id

/-- An emission has less to do. -/
theorem setEmission {E' : Emission} (hE : s.emissions n = some E) (hctx : E'.ctx = E.ctx)
    (hle : E'.pending c ≤ E.pending c) : Aside c thread s (s.setEmission n E') where
  ran := rfl
  waits _ := List.Sublist.refl _
  owner := rfl
  emitted := Nat.le_refl _
  pending m := by
    rintro ⟨E₁, hE₁, hthread, hpos⟩
    by_cases heq : m = n
    · subst heq
      obtain rfl : E' = E₁ := by simpa [SignalRun.setEmission] using hE₁
      exact ⟨E, hE, hctx ▸ hthread, Nat.lt_of_lt_of_le hpos hle⟩
    · refine ⟨E₁, ?_, hthread, hpos⟩
      simpa [SignalRun.setEmission, Function.update_of_ne heq] using hE₁

/-- Only the posts change. -/
theorem posts {ps : List (ExecutorId × Delivery)}
    (h : ∀ e, (waitsAt { s with posts := ps } c thread e).Sublist (s.waitsAt c thread e)) :
    Aside c thread s { s with posts := ps } where
  ran := rfl
  waits := h
  owner := rfl
  emitted := Nat.le_refl _
  pending _ := id

/-- Another delivery is posted. -/
theorem enqueue (hd : isFor c thread d = false) : Aside c thread s (s.enqueue e d) := by
  refine posts fun e' => ?_
  change ((s.enqueue e d).waitsAt c thread e').Sublist _
  by_cases heq : e' = e
  · subst heq
    by_cases hret : e' ∈ s.retired
    · simp [waitsAt, SignalRun.enqueue, queue, hret]
    · rw [waitsAt, queue_enqueue_self hret, waitsAt]
      simp [hd]
  · rw [waitsAt, queue_enqueue_of_ne heq, waitsAt]

/-- A slot is invoked: what starts on the spot does not come from a queue. -/
theorem invoke {c' : ℕ} (hE : s.emissions n = some E) (hp : E.posting = none)
    (hslots : E.slots = c' :: rest) : Aside c thread s (s.invoke n E c' rest) := by
  have hnext : Aside c thread s (s.setEmission n { E with slots := rest }) := by
    refine setEmission hE rfl ?_
    rw [pending_rest hp, pending_cons hp hslots]
    exact Nat.le_add_right ..
  rcases invoke_cases s n E c' rest with heq | heq | ⟨k, o, _, _, _, heq⟩ | ⟨k, _, _, _, _, heq⟩
  · rw [heq]
    exact hnext
  · rw [heq]
    exact hnext.trans sever
  · rw [heq]
    refine setEmission hE rfl ?_
    rw [pending_cons hp hslots, Emission.pending]
    simp
  · rw [heq]
    exact hnext.trans (record rfl)

end Aside

/-! ### What happens to the line -/

/-- The emission that a delivery waits for has still to come to nothing else. -/
theorem Ordered.post (h : s.Ordered c thread) (hl : s.Ledger) (hE : s.emissions n = some E)
    (hp : E.posting = some (o, c)) (hthread : E.ctx.thread = thread)
    (hidle : ∀ e, e ≠ o → s.ownerFor c ≠ some e → s.waitsAt c thread e = []) :
    (s.post n E o c).Ordered c thread := by
  have hpend : s.PendingBy c thread n :=
    ⟨E, hE, hthread, by rw [Emission.pending, hp]; simp⟩
  have hcount : E.slots.count c = 0 := by
    have hle := hl.once n c
    rw [copies, pending_of_emission hE, Emission.pending, hp] at hle
    simp only [Option.any_some, decide_true, if_true] at hle
    omega
  have hlt : n < s.emitted := by
    by_contra hge
    have hzero := hl.fresh n c (Nat.le_of_not_lt hge)
    rw [copies, pending_of_emission hE, Emission.pending, hp] at hzero
    simp at hzero
  have hset : Aside c thread s (s.setEmission n { E with posting := none }) := by
    refine .setEmission hE rfl ?_
    rw [Emission.pending, Emission.pending]
    exact Nat.add_le_add_left (Nat.zero_le _) _
  have hdone : ∀ m, ¬ (s.setEmission n { E with posting := none }).PendingBy c thread m := by
    intro m hm
    obtain rfl := h.single m n (hset.pending m hm) hpend
    obtain ⟨E', hE', _, hpos⟩ := hm
    obtain rfl : { E with posting := none } = E' := by simpa [SignalRun.setEmission] using hE'
    rw [Emission.pending, hcount] at hpos
    exact Nat.lt_irrefl 0 hpos
  by_cases hret : o ∈ s.retired
  · refine h.aside (hset.trans (.trans (.posts fun e => ?_) (.record rfl)))
    simp only [if_pos (show o ∈ (s.setEmission n { E with posting := none }).retired from hret)]
    exact List.Sublist.refl _
  · obtain ⟨o', l, ho', hline, hsorted, hbound, hahead⟩ := h.line
    have hqueue (e : ExecutorId) : (s.post n E o c).queue e = (s.enqueue o
        ⟨n, E.ctx.thread, c, (s.connections c).bind Connection.receiver⟩).queue e := rfl
    refine ⟨⟨o', l ++ [n], ho', ?_, ?_, ?_, fun m hm => absurd hm (hdone m)⟩,
      fun m _ hm _ => absurd hm (hdone m), h.fresh⟩
    · refine hline.post (o := o) (fun e he heo => hidle e he fun hown => heo (ho' e hown)) ?_
        fun e he => ?_
      · rw [waitsAt, hqueue, queue_enqueue_self hret, waitsAt]
        simp [isFor, hthread]
      · rw [waitsAt, hqueue, queue_enqueue_of_ne he, waitsAt]
    · refine List.pairwise_append.mpr ⟨hsorted, List.pairwise_singleton _ _, fun m hm n' hn' => ?_⟩
      rw [List.mem_singleton.mp hn']
      exact hahead n hpend m hm
    · intro m hm
      rcases List.mem_append.mp hm with hm | hm
      · exact hbound m hm
      · exact List.mem_singleton.mp hm ▸ hlt

/-- The receiver is moved on while its deliveries wait with the owner. -/
theorem Ordered.move {target : ExecutorId} (h : s.Ordered c thread) (hk : s.Known)
    (hal : (s.blocks g).alive = true) (hr : s.receiverOf c = some g)
    (hidle : ∀ e, s.ownerFor c ≠ some e → s.waitsAt c thread e = []) :
    (s.applyMoveTo g target).Ordered c thread := by
  obtain ⟨o, l, ho, hline, hsorted, hbound, hahead⟩ := h.line
  obtain ⟨o', ho', _⟩ := hk.owners g (hk.alive g hal)
  have hown : s.ownerFor c = some o' := by
    rw [ownerFor, hr]
    exact ho'
  obtain rfl := ho o' hown
  have hran : (s.applyMoveTo g target).ran c thread = s.ran c thread := rfl
  have hnew : (s.applyMoveTo g target).ownerFor c = some target := by
    change (s.applyMoveTo g target).ownerOf (s.receiverOf c) = _
    rw [hr]
    simp [ownerOf, applyMoveTo, record, setBlock]
  refine ⟨⟨target, l, fun o hto => ?_, ?_, hsorted, hbound, hahead⟩, h.single, fun hnone => ?_⟩
  · exact Option.some.inj (hto.symm.trans hnew)
  · rw [hran]
    exact hline.move fun e he => hidle e fun heq => he (Option.some.inj (heq.symm.trans hown))
  · cases hnone.symm.trans hnew

/-- A new connection has nothing in line. -/
theorem Ordered.connect {signal : ℕ} {r : Option Generation} {type : ConnectionType}
    (h : s.Ordered s.made thread) (hk : s.Known) (hr : s.Routed) :
    (s.connect signal r type).Ordered s.made thread := by
  have hnone : s.connections s.made = none := by
    cases hc : s.connections s.made with
    | none => rfl
    | some k => exact absurd ((hk.made s.made).mpr ⟨k, hc⟩) (Nat.lt_irrefl _)
  have hran : s.ran s.made thread = [] := by
    refine h.fresh ?_
    rw [ownerFor, receiverOf, hnone]
    rfl
  have hother (o : ExecutorId) : ∃ f, f ≠ o := by
    by_cases ho : o = .loop 0
    · exact ⟨.loop 1, by rw [ho]; decide⟩
    · exact ⟨.loop 0, Ne.symm ho⟩
  have hline (o : ExecutorId) : Forwarding.Line ((s.connect signal r type).ran s.made thread) o
      ((s.connect signal r type).waitsAt s.made thread) [] := by
    obtain ⟨f, hf⟩ := hother o
    rw [show (s.connect signal r type).ran s.made thread = [] from hran]
    exact .nil hf fun e => waitsAt_of_none hr hnone e
  refine ⟨?_, h.single, fun _ => hran⟩
  cases hown : (s.connect signal r type).ownerFor s.made with
  | none => exact ⟨.loop 0, [], nofun, hline _, List.Pairwise.nil, nofun, fun _ _ => nofun⟩
  | some o =>
    exact ⟨o, [], fun o' ho' => (Option.some.inj ho').symm, hline o, List.Pairwise.nil, nofun,
      fun _ _ => nofun⟩

/-- The thread emits again, or somebody else does. -/
theorem Ordered.emit {signal : ℕ} {ctx : CallContext} (h : s.Ordered c thread)
    (hseq : s.Sequential c thread (.emit signal ctx)) :
    (s.emit signal ctx).Ordered c thread := by
  have hpending (n : ℕ) (hn : (s.emit signal ctx).PendingBy c thread n) :
      s.PendingBy c thread n ∨ n = s.emitted ∧ ∀ m, ¬ s.PendingBy c thread m := by
    obtain ⟨E, hE, hthread, hpos⟩ := hn
    by_cases heq : n = s.emitted
    · subst heq
      refine Or.inr ⟨rfl, ?_⟩
      obtain rfl : { ctx, slots := (s.slots signal).filter s.isConnected } = E := by
        simpa [SignalRun.emit, setEmission, pruneDisconnected] using hE
      have hmem : c ∈ (s.slots signal).filter s.isConnected :=
        List.count_pos_iff.mp (by simpa [Emission.pending] using hpos)
      exact hseq signal ctx rfl hthread (List.mem_of_mem_filter hmem)
    · refine Or.inl ⟨E, ?_, hthread, hpos⟩
      simpa [SignalRun.emit, setEmission, pruneDisconnected, Function.update_of_ne heq] using hE
  obtain ⟨o, l, ho, hline, hsorted, hbound, hahead⟩ := h.line
  refine ⟨⟨o, l, ho, hline, hsorted, fun m hm => Nat.lt_succ_of_lt (hbound m hm),
    fun n hn m hm => ?_⟩, fun n n' hn hn' => ?_, h.fresh⟩
  · rcases hpending n hn with hn | ⟨rfl, _⟩
    · exact hahead n hn m hm
    · exact hbound m hm
  · rcases hpending n hn with hn | ⟨rfl, hnone⟩
    · rcases hpending n' hn' with hn' | ⟨_, hnone⟩
      · exact h.single n n' hn hn'
      · exact absurd hn (hnone n)
    · rcases hpending n' hn' with hn' | ⟨rfl, _⟩
      · exact absurd hn' (hnone n')
      · rfl

section Run

variable {before after : List (ExecutorId × Delivery)}

/-- Taking a delivery from one executor leaves what waits at the others. -/
theorem waitsAt_of_posts_of_ne (hp : s.posts = before ++ (e, d) :: after) (he : o ≠ e) :
    waitsAt { s with posts := before ++ after } c thread o = s.waitsAt c thread o := by
  rw [waitsAt, waitsAt, queue_of_posts_of_ne hp he]

/-- Taking a delivery of the slot takes it from what waits. -/
theorem waitsAt_of_posts (hp : s.posts = before ++ (e, d) :: after) (hb : ∀ p ∈ before, p.1 ≠ e)
    (hd : isFor c thread d = true) : s.waitsAt c thread e =
      d.emission :: waitsAt { s with posts := before ++ after } c thread e := by
  rw [waitsAt, waitsAt, queue_of_posts hp hb, List.filter_cons, if_pos hd, List.map_cons]

/-- Taking another delivery takes nothing from what waits. -/
theorem waitsAt_of_posts_of_not (hp : s.posts = before ++ (e, d) :: after)
    (hb : ∀ p ∈ before, p.1 ≠ e) (hd : isFor c thread d = false) :
    s.waitsAt c thread e = waitsAt { s with posts := before ++ after } c thread e := by
  rw [waitsAt, waitsAt, queue_of_posts hp hb, List.filter_cons, if_neg (by simp [hd])]

/-- A task has been taken. -/
theorem Aside.pop (hp : s.posts = before ++ (e, d) :: after) (hb : ∀ p ∈ before, p.1 ≠ e) :
    Aside c thread s { s with posts := before ++ after } := by
  refine .posts fun o => ?_
  by_cases ho : o = e
  · subst ho
    cases hd : isFor c thread d with
    | true =>
      rw [waitsAt_of_posts hp hb hd]
      exact List.sublist_cons_self ..
    | false => rw [waitsAt_of_posts_of_not hp hb hd]
  · rw [waitsAt_of_posts_of_ne hp ho]

/-- A delivery has the owner of its receiver for the owner. -/
theorem ownerFor_of_isFor (hr : s.Routed) (hp : s.posts = before ++ (e, d) :: after)
    (hd : isFor c thread d = true) : s.ownerFor c = s.ownerOf d.receiver := by
  obtain ⟨_, hrec⟩ := hr.waiting (e, d) (by simp [hp])
  rw [of_decide_eq_true (Bool.and_eq_true_iff.mp hd).1] at hrec
  rw [ownerFor, receiverOf, hrec]

/-- A delivery is posted to the owner again. -/
theorem Ordered.forward (h : s.Ordered c thread) (hp : s.posts = before ++ (e, d) :: after)
    (hb : ∀ p ∈ before, p.1 ≠ e) (hd : isFor c thread d = true) (ho : s.ownerFor c = some o)
    (hne : o ≠ e) : (enqueue { s with posts := before ++ after } o d).Ordered c thread := by
  by_cases hret : o ∈ s.retired
  · refine h.aside ((Aside.pop hp hb).trans (.posts fun e' => ?_))
    simp only [if_pos (show o ∈ { s with posts := before ++ after }.retired from hret)]
    exact List.Sublist.refl _
  · obtain ⟨o', l, ho', hline, hsorted, hbound, hahead⟩ := h.line
    obtain rfl := ho' o ho
    refine ⟨⟨o, l, ho', ?_, hsorted, hbound, hahead⟩, h.single, h.fresh⟩
    have hret' : o ∉ { s with posts := before ++ after }.retired := hret
    refine hline.forward (e := e) (m := d.emission) (Ne.symm hne) ?_ ?_ fun e' he' heo => ?_
    · rw [waitsAt_of_posts hp hb hd, waitsAt, waitsAt, queue_enqueue_of_ne (Ne.symm hne)]
    · rw [← waitsAt_of_posts_of_ne hp hne, waitsAt, waitsAt, queue_enqueue_self hret']
      simp [hd]
    · rw [← waitsAt_of_posts_of_ne hp he', waitsAt, waitsAt, queue_enqueue_of_ne heo]

/-- A delivery starts its slot in the owner. -/
theorem Ordered.deliver (h : s.Ordered c thread) (hp : s.posts = before ++ (e, d) :: after)
    (hb : ∀ p ∈ before, p.1 ≠ e) (hd : isFor c thread d = true) (ho : s.ownerFor c = some e) :
    (record { s with posts := before ++ after }
      (.started (startQueued { s with posts := before ++ after } e t d k))).Ordered c thread := by
  obtain ⟨o', l, ho', hline, hsorted, hbound, hahead⟩ := h.line
  obtain rfl := ho' e ho
  have hran : ran (record { s with posts := before ++ after }
      (.started (startQueued { s with posts := before ++ after } e t d k))) c thread =
      s.ran c thread ++ [d.emission] := by
    have hfor : ranFor c thread
        (.started (startQueued { s with posts := before ++ after } e t d k)) = some d.emission :=
      if_pos hd
    simp [ran, record, hfor]
  refine ⟨⟨e, l, ho', ?_, hsorted, hbound, hahead⟩, h.single, fun hnone => ?_⟩
  · rw [hran]
    exact hline.deliver (waitsAt_of_posts hp hb hd) fun e' he' => waitsAt_of_posts_of_ne hp he'
  · cases ho.symm.trans hnone

/-- Running a delivery keeps the order. -/
theorem Ordered.run (h : s.Ordered c thread) (hk : s.Known) (hr : s.Routed)
    (hp : s.posts = before ++ (e, d) :: after) (hb : ∀ p ∈ before, p.1 ≠ e) :
    (runTask { s with posts := before ++ after } e t d).Ordered c thread := by
  have hpop : Aside c thread s { s with posts := before ++ after } := .pop hp hb
  rcases runTask_cases { s with posts := before ++ after } e t d with
    ⟨heq, _⟩ | ⟨o, ho, hne, heq⟩ | ⟨k, _, _, hinv, howner, heq⟩
  · rw [heq]
    exact h.aside hpop
  · rw [heq]
    cases hd : isFor c thread d with
    | true => exact h.forward hp hb hd ((ownerFor_of_isFor hr hp hd).trans ho) hne
    | false => exact h.aside (hpop.trans (.enqueue hd))
  · rw [heq]
    cases hd : isFor c thread d with
    | true =>
      -- a live receiver has an owner, which is the executor itself
      obtain ⟨o, hown⟩ := hk.owner_of_canInvoke hinv
      obtain rfl := howner o hown
      exact h.deliver hp hb hd ((ownerFor_of_isFor hr hp hd).trans hown)
    | false => exact h.aside (hpop.trans (.record (if_neg (Bool.eq_false_iff.mp hd))))

end Run

/-! ### Steps and runs -/

/-- **What a step keeps.** -/
theorem Ordered.step (h : s.Ordered c thread) (hi : s.Inv) (hseq : s.Sequential c thread l)
    (hl : s.InLine c thread l) (hs : Step s l s') : s'.Ordered c thread := by
  cases hs with
  | @create owner =>
    refine h.aside ⟨rfl, fun _ => List.Sublist.refl _, ?_, Nat.le_refl _, fun _ => id⟩
    change (s.create owner).ownerOf (s.receiverOf c) = s.ownerOf (s.receiverOf c)
    cases hr : s.receiverOf c with
    | none => rfl
    | some g =>
      obtain ⟨k, hk, hkr⟩ := Option.bind_eq_some_iff.mp hr
      have hne : g ≠ s.nodes := Nat.ne_of_lt (hi.known.receivers c k g hk hkr)
      simp [ownerOf, SignalRun.create, record, setBlock, Function.update_of_ne hne]
  | @deleteLater g _ =>
    exact h.aside (Aside.trans (.setBlock (b := { s.blocks g with markedForDelete := true })
      fun _ => rfl) (.record rfl))
  | @destroy g _ =>
    exact h.aside (Aside.trans (.setBlock (b := { s.blocks g with alive := false })
      fun _ => rfl) (.record rfl))
  | @applyMoveTo g target hal =>
    by_cases hr : s.receiverOf c = some g
    · exact h.move hi.known hal hr (hl.move g target rfl hr)
    · exact h.aside (Aside.trans (.setBlock (b := { s.blocks g with owner := some target })
        fun heq => absurd heq hr) (.record rfl))
  | @connect signal receiver type _ =>
    by_cases hc : c = s.made
    · subst hc
      exact h.connect hi.known hi.routed
    · refine h.aside ⟨rfl, fun _ => List.Sublist.refl _, ?_, Nat.le_refl _, fun _ => id⟩
      have hr : (s.connect signal receiver type).receiverOf c = s.receiverOf c := by
        simp [receiverOf, SignalRun.connect, Function.update_of_ne hc]
      rw [ownerFor, hr]
      rfl
  | disconnect _ => exact h.aside (Aside.sever.trans (.record rfl))
  | emit => exact h.emit hseq
  | invoke hE hp hslots => exact h.aside (.invoke hE hp hslots)
  | @post n c' E o hE hp =>
    by_cases hfor : c' = c ∧ E.ctx.thread = thread
    · obtain ⟨rfl, hthread⟩ := hfor
      exact h.post hi.ledger hE hp hthread (hl.post n E o rfl hE hthread hp)
    · have hset : Aside c thread s (s.setEmission n { E with posting := none }) :=
        .setEmission hE rfl (Nat.add_le_add_left (Nat.zero_le _) _)
      exact h.aside (hset.trans (.trans (.enqueue (by simpa [isFor] using hfor)) (.record rfl)))
  | run hp hb => exact h.run hi.known hi.routed hp hb
  | @retire e =>
    refine h.aside ⟨rfl, fun e' => ?_, rfl, Nat.le_refl _, fun _ => id⟩
    exact (((List.filter_sublist).filterMap _).filter _).map _

/-- At the start there is nothing to be out of order. -/
theorem Ordered.init : Ordered {} c thread where
  line := ⟨.loop 0, [], nofun, .nil (o := .loop 1) (by decide) fun _ => rfl, List.Pairwise.nil,
    nofun, fun _ _ => nofun⟩
  single n _ hn := by
    obtain ⟨E, hE, _⟩ := hn
    exact nomatch hE
  fresh _ := rfl

end SignalRun

end SimplyNode
