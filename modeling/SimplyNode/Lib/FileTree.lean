import Mathlib.Data.List.Basic
import Mathlib.Data.List.Infix

/-!
# Trees of Files with Links

A file tree has directories, files and symbolic links, and is given by the entry at each path from
its root. A walk goes through the components of a path, stays where it is for `.` and an empty
component, goes up for `..`, and goes on at the target when it meets a link. It may meet a limited
number of links.

## Main results

* `walk_reached`: a walk ends at a path without links.
* `walk_down`: the walk along such a path ends there.
* `relative_append`, `fst_relative_eq_zero`: the path from a directory to another one goes down only
  iff the other one is inside.
-/

/-- A component of a path. -/
inductive PathStep (α : Type*)
  | stay
  | up
  | down (name : α)
  deriving DecidableEq

/-- What is at a path. A link goes on from the root or from the directory that it is in. -/
inductive FileEntry (α β : Type*)
  | directory
  | file (content : β)
  | link (absolute : Bool) (target : List (PathStep α))
  deriving DecidableEq

/-- The entries at the paths from the root, which is a directory. -/
structure FileTree (α β : Type*) where
  entry : List α → Option (FileEntry α β)

namespace FileTree

variable {α β : Type*} (t : FileTree α β)

/-- The walk up to a link, which is left to `follow`. -/
def walkWith (follow : List α → List (PathStep α) → Option (List α)) :
    List α → List (PathStep α) → Option (List α)
  | p, [] => some p
  | p, .stay :: steps => walkWith follow p steps
  | p, .up :: steps => walkWith follow p.dropLast steps
  | p, .down a :: steps =>
      match t.entry (p ++ [a]) with
      | none => none
      | some .directory => walkWith follow (p ++ [a]) steps
      | some (.file _) => if steps.isEmpty then some (p ++ [a]) else none
      | some (.link absolute target) => follow (if absolute then [] else p) (target ++ steps)

/-- The walk from a directory, over so many links at most. -/
def walk : ℕ → List α → List (PathStep α) → Option (List α)
  | 0 => t.walkWith fun _ _ => none
  | n + 1 => t.walkWith (walk n)

/-- There is a directory at the path, and no link on the way. -/
def IsDirectory (p : List α) : Prop := ∀ q, q <+: p → q ≠ [] → t.entry q = some .directory

/-- There is a directory or a file at the path, and no link on the way. -/
def Reached (p : List α) : Prop :=
  t.IsDirectory p ∨
    ∃ p' a content, p = p' ++ [a] ∧ t.IsDirectory p' ∧ t.entry p = some (.file content)

variable {t}

/-- One component of a walk that goes down. -/
theorem walkWith_cons_down {follow : List α → List (PathStep α) → Option (List α)} {p : List α}
    {a : α} {steps : List (PathStep α)} :
    t.walkWith follow p (.down a :: steps) =
      match t.entry (p ++ [a]) with
      | none => none
      | some .directory => t.walkWith follow (p ++ [a]) steps
      | some (.file _) => if steps.isEmpty then some (p ++ [a]) else none
      | some (.link absolute target) => follow (if absolute then [] else p) (target ++ steps) :=
  rfl

/-- The root is a directory. -/
theorem isDirectory_nil : t.IsDirectory [] := fun _ hq hne =>
  absurd (List.prefix_nil.mp hq) hne

theorem IsDirectory.of_prefix {p q : List α} (h : t.IsDirectory p) (hq : q <+: p) :
    t.IsDirectory q := fun r hr => h r (hr.trans hq)

theorem IsDirectory.snoc {p : List α} {a : α} (h : t.IsDirectory p)
    (ha : t.entry (p ++ [a]) = some .directory) : t.IsDirectory (p ++ [a]) := by
  intro q hq hne
  rcases List.prefix_concat_iff.mp hq with rfl | hq
  · exact ha
  · exact h q hq hne

/-- One stretch of a walk, up to a link. -/
theorem walkWith_reached {follow : List α → List (PathStep α) → Option (List α)}
    (hfollow : ∀ p steps r, t.IsDirectory p → follow p steps = some r → t.Reached r)
    {p r : List α} {steps : List (PathStep α)} (hp : t.IsDirectory p)
    (h : t.walkWith follow p steps = some r) : t.Reached r := by
  induction steps generalizing p with
  | nil =>
      obtain rfl := Option.some.inj h
      exact Or.inl hp
  | cons step steps ih =>
      cases step with
      | stay => exact ih hp h
      | up => exact ih (hp.of_prefix (List.dropLast_prefix p)) h
      | down a =>
          rw [walkWith_cons_down] at h
          split at h
          · cases h
          · exact ih (hp.snoc ‹_›) h
          · rename_i content hentry
            split at h
            · obtain rfl := Option.some.inj h
              exact Or.inr ⟨p, a, content, rfl, hp, hentry⟩
            · cases h
          · rename_i absolute target hentry
            refine hfollow _ _ _ ?_ h
            split
            · exact isDirectory_nil
            · exact hp

/-- **A walk from a directory ends at a path without links.** -/
theorem walk_reached {n : ℕ} {p r : List α} {steps : List (PathStep α)} (hp : t.IsDirectory p)
    (h : t.walk n p steps = some r) : t.Reached r := by
  induction n generalizing p steps r with
  | zero =>
      refine walkWith_reached ?_ hp h
      intro q rest r _ hnone
      cases hnone
  | succ n ih =>
      refine walkWith_reached ?_ hp h
      intro q rest r hq hr
      exact ih hq hr

/-- The walk along a path without links. -/
theorem walkWith_down {follow : List α → List (PathStep α) → Option (List α)} {p q : List α}
    (h : t.Reached (p ++ q)) : t.walkWith follow p (q.map .down) = some (p ++ q) := by
  induction q generalizing p with
  | nil => exact congrArg some (List.append_nil p).symm
  | cons a q ih =>
      have hassoc : p ++ a :: q = (p ++ [a]) ++ q := List.append_cons p a q
      rw [List.map_cons, walkWith_cons_down, hassoc]
      rw [hassoc] at h
      have hnext := ih h
      rcases h with h | ⟨p', b, content, heq, hp', hfile⟩
      · have hentry := h (p ++ [a]) (List.prefix_append _ _) (by simp)
        rw [hentry]
        exact hnext
      · -- the file is at the end of the path, all that comes before is a directory
        rcases List.eq_nil_or_concat q with rfl | ⟨q', c, rfl⟩
        · rw [List.append_nil] at hfile ⊢
          rw [hfile]
          rfl
        · rw [List.concat_eq_append, ← List.append_assoc] at heq
          obtain ⟨hp, -⟩ := List.append_inj' heq rfl
          have hentry := hp' (p ++ [a]) (hp ▸ List.prefix_append _ _) (by simp)
          rw [hentry]
          exact hnext

/-- **The walk along a path without links ends there.** -/
theorem walk_down {n : ℕ} {p : List α} (h : t.Reached p) : t.walk n [] (p.map .down) = some p := by
  cases n with
  | zero => exact walkWith_down h
  | succ n => exact walkWith_down h

/-- The steps that stay do not matter. -/
theorem walk_stay {n : ℕ} {p : List α} {steps : List (PathStep α)} :
    t.walk n p (.stay :: steps) = t.walk n p steps := by
  cases n with
  | zero => rfl
  | succ n => rfl

/-! ### Relative paths -/

variable [DecidableEq α]

/-- From `base` to `p`: how often to go up, and what to go down. -/
def relative : List α → List α → ℕ × List α
  | a :: p, b :: base => if a = b then relative p base else (base.length + 1, a :: p)
  | p, base => (base.length, p)

/-- The path to the root goes up only. -/
theorem relative_nil (base : List α) : relative [] base = (base.length, []) := rfl

/-- What the two paths begin with in common is left out. -/
theorem relative_cons (a b : α) (p base : List α) :
    relative (a :: p) (b :: base) =
      if a = b then relative p base else (base.length + 1, a :: p) :=
  rfl

/-- What lies in a directory is reached from there by going down. -/
theorem relative_append (base p : List α) : relative (base ++ p) base = (0, p) := by
  induction base with
  | nil =>
      cases p with
      | nil => rfl
      | cons a p => rfl
  | cons b base ih =>
      rw [List.cons_append, relative_cons, if_pos rfl]
      exact ih

/-- What is reached without going up lies in the directory. -/
theorem fst_relative_eq_zero {p base : List α} (h : (relative p base).1 = 0) : base <+: p := by
  induction p generalizing base with
  | nil =>
      rw [relative_nil] at h
      exact (List.length_eq_zero_iff.mp h).symm ▸ List.nil_prefix
  | cons a p ih =>
      cases base with
      | nil => exact List.nil_prefix
      | cons b base =>
          rw [relative_cons] at h
          split at h
          · rename_i heq
            exact List.cons_prefix_cons.mpr ⟨heq.symm, ih h⟩
          · cases h

/-- A relative path has only names of the path. -/
theorem mem_of_mem_relative {p base : List α} {a : α} (h : a ∈ (relative p base).2) : a ∈ p := by
  induction p generalizing base with
  | nil =>
      rw [relative_nil] at h
      exact h
  | cons b p ih =>
      cases base with
      | nil => exact h
      | cons c base =>
          rw [relative_cons] at h
          split at h
          · exact List.mem_cons_of_mem b (ih h)
          · exact h

end FileTree
