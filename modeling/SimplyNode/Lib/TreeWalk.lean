import SimplyNode.Lib.PointerForest

/-!
# Walks over Trees in Stages

A walk over a tree takes each record through the same stages, from the first to the last, and then
goes on with its children. What is left of the walk is a list of visits: a record, and the stage
that it is to go through next. The visit at the head is under way, and the others are children that
wait for their first stage.

`Ahead s l x` says that the record `x` is still to go through the stage of rank `s`, in one of the
visits of the list `l`. The lemmas say how this set of records changes when a visit goes on and when
it is replaced by the visits of the children.

## Main results

* `Ahead.advance`, `Ahead.descend`: a stage takes one record out of one of the sets, and going down
  to the children takes out none.
* `Apart.not_ahead`: the record at the head goes through a stage once.
* `Apart.advance`, `Apart.descend`: no two visits ever share a record.
-/

open PointerForest

namespace TreeWalk

universe u v

variable {α : Type u} {S : Type v}

/-- A record, and the stage that it is to go through next. -/
structure Visit (α : Type u) (S : Type v) where
  node : α
  stage : S
  deriving DecidableEq

variable (kids : α → List α) (rank : S → ℕ)

/-- The record is still to go through the stage of rank `s`, in the given visit. -/
def Visit.Ahead (s : ℕ) (k : Visit α S) (x : α) : Prop :=
  Below kids k.node x ∧ (x = k.node → rank k.stage ≤ s)

/-- The record is still to go through the stage of rank `s`. -/
def Ahead (s : ℕ) (l : List (Visit α S)) (x : α) : Prop := ∃ k ∈ l, k.Ahead kids rank s x

/-- No two visits share a record. -/
def Apart (l : List (Visit α S)) : Prop :=
  l.Pairwise fun k k' => ∀ x, Below kids k.node x → ¬ Below kids k'.node x

/-- The visits of the children of a record. -/
def childVisits (a : α) (first : S) : List (Visit α S) := (kids a).map fun c => ⟨c, first⟩

variable {kids rank} {s : ℕ} {k : Visit α S} {l : List (Visit α S)} {a c x : α} {i j first : S}

/-- What is ahead in the first visit or in the others. -/
theorem ahead_cons : Ahead kids rank s (k :: l) x ↔ k.Ahead kids rank s x ∨
    Ahead kids rank s l x :=
  List.exists_mem_cons_iff (fun k : Visit α S => k.Ahead kids rank s x) k l

/-- A stage of another rank takes the record out of no set. -/
theorem Ahead.advance (h : Ahead kids rank s (⟨c, i⟩ :: l) x) (hij : rank j = rank i + 1)
    (hx : x = c → rank i ≠ s) : Ahead kids rank s (⟨c, j⟩ :: l) x := by
  rcases ahead_cons.mp h with ⟨hb, hs⟩ | h
  · refine ahead_cons.mpr (Or.inl ⟨hb, fun hxc => ?_⟩)
    have hle : rank i ≤ s := hs hxc
    have hne : rank i ≠ s := hx hxc
    change rank j ≤ s
    omega
  · exact ahead_cons.mpr (Or.inr h)

/-- What is ahead was ahead before. -/
theorem Ahead.of_advance (h : Ahead kids rank s (⟨c, j⟩ :: l) x) (hij : rank j = rank i + 1) :
    Ahead kids rank s (⟨c, i⟩ :: l) x := by
  rcases ahead_cons.mp h with ⟨hb, hs⟩ | h
  · refine ahead_cons.mpr (Or.inl ⟨hb, fun hxc => ?_⟩)
    have hle : rank j ≤ s := hs hxc
    change rank i ≤ s
    omega
  · exact ahead_cons.mpr (Or.inr h)

theorem Ahead.of_tail (h : Ahead kids rank s l x) : Ahead kids rank s (k :: l) x :=
  ahead_cons.mpr (Or.inr h)

/-- A record that is past the stage is not in a visit that shares nothing with its own. -/
theorem Apart.not_ahead (h : Apart kids (⟨c, i⟩ :: l)) (hs : s < rank i) :
    ¬ Ahead kids rank s (⟨c, i⟩ :: l) c := by
  intro hahead
  rcases ahead_cons.mp hahead with ⟨-, hle⟩ | ⟨k, hk, hb, -⟩
  · have hle : rank i ≤ s := hle rfl
    omega
  · exact (List.pairwise_cons.mp h).1 k hk c .refl hb

/-- The same visits, at another stage of the first one. -/
theorem Apart.advance (h : Apart kids (⟨c, i⟩ :: l)) : Apart kids (⟨c, j⟩ :: l) := by
  obtain ⟨hhead, htail⟩ := List.pairwise_cons.mp h
  exact List.pairwise_cons.mpr ⟨hhead, htail⟩

/-- Going down to the children takes nothing out that is behind the first record. -/
theorem Ahead.descend (h : Ahead kids rank s (⟨c, i⟩ :: l) x) (hs : s < rank i)
    (hfirst : rank first = 0) : Ahead kids rank s (childVisits kids c first ++ l) x := by
  rcases ahead_cons.mp h with ⟨hb, hle⟩ | ⟨k, hk, hx⟩
  · have hne : x ≠ c := by
      intro hxc
      have hle : rank i ≤ s := hle hxc
      omega
    rcases Relation.ReflTransGen.cases_head hb with rfl | ⟨d, hd, hdx⟩
    · exact absurd rfl hne
    · refine ⟨⟨d, first⟩, List.mem_append_left _ (List.mem_map_of_mem hd), hdx,
        fun _ => ?_⟩
      change rank first ≤ s
      omega
  · exact ⟨k, List.mem_append_right _ hk, hx⟩

section OneOwner

variable (hone : ∀ p q c, c ∈ kids p → c ∈ kids q → p = q)

include hone

/-- Below a record that nothing below it owns there are no cycles. -/
theorem not_below_parent (htop : ∀ p, Below kids a p → a ∉ kids p) {p : α}
    (hp : Below kids a p) : ∀ c ∈ kids p, ¬ Below kids c p := by
  induction hp with
  | refl =>
      intro c hc hca
      rcases Relation.ReflTransGen.cases_tail hca with hac | ⟨q, hcq, haq⟩
      · exact htop a .refl (hac ▸ hc)
      · exact htop q (.head hc hcq) haq
  | @tail q p hq hqp ih =>
      intro c hc hcp
      rcases Relation.ReflTransGen.cases_tail hcp with rfl | ⟨r, hcr, hrp⟩
      · have hpq : p = q := hone p q p hc hqp
        exact ih p hqp (hpq ▸ .refl)
      · have hrq : r = q := hone r q p hrp hqp
        exact ih p hqp (.head hc (hrq ▸ hcr))

/-- What is ahead of the children was ahead before. -/
theorem Ahead.of_descend (htop : ∀ p, Below kids a p → a ∉ kids p) (hc : Below kids a c)
    (h : Ahead kids rank s (childVisits kids c first ++ l) x) :
    Ahead kids rank s (⟨c, i⟩ :: l) x := by
  obtain ⟨k, hk, hx⟩ := h
  rcases List.mem_append.mp hk with hk | hk
  · obtain ⟨d, hd, rfl⟩ := List.mem_map.mp hk
    refine ahead_cons.mpr (Or.inl ⟨.head hd hx.1, fun hxc => ?_⟩)
    obtain rfl : x = c := hxc
    exact absurd hx.1 (not_below_parent hone htop hc d hd)
  · exact .of_tail ⟨k, hk, hx⟩

/-- The children of a record share nothing with each other, nor with what is left. -/
theorem Apart.descend (h : Apart kids (⟨c, i⟩ :: l)) (hnd : (kids c).Nodup)
    (htop : ∀ p, Below kids a p → a ∉ kids p) (hc : Below kids a c) :
    Apart kids (childVisits kids c first ++ l) := by
  obtain ⟨hhead, htail⟩ := List.pairwise_cons.mp h
  refine List.pairwise_append.mpr ⟨?_, htail, ?_⟩
  · refine List.pairwise_map.mpr (hnd.imp_of_mem fun {d d'} hd hd' hne x hx hx' => ?_)
    -- a record below two children: one child is above the other, so above their parent
    rcases Below.comparable hone hx hx' with hdd | hdd
    · exact not_below_parent hone htop hc d hd (Below.of_sibling hone hd' hdd hne)
    · exact not_below_parent hone htop hc d' hd' (Below.of_sibling hone hd hdd (Ne.symm hne))
  · intro k hk k' hk' x hx hx'
    obtain ⟨d, hd, rfl⟩ := List.mem_map.mp hk
    exact hhead k' hk' x (.head hd hx) hx'

end OneOwner

end TreeWalk
