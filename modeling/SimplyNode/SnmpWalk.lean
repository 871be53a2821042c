import SimplyNode.SnmpValue
import Mathlib.Data.Set.Finite.List
import Mathlib.Data.FinEnum

/-!
# Walking a Subtree

`SnmpV3Session::walk` (`SnmpV3Session.cpp`): GETNEXT requests from the root of a subtree on, each
asked with the name of the first variable of the response before it, until a response is an error,
holds no variable, or begins with an exception or with a name outside the subtree. The variables of
every response before that are collected by `parseVarBinds` and emitted when no error ended the
walk. The agent is the sequence of its responses.

## Main results

* `issued_iff`: which requests are issued, and what has been collected by then.
* `walk_iff`: the cursors of a walk increase, so that it ends, and what it emits lies in the subtree
  and is there once, exactly for the agents whose responses do.
-/

namespace SimplyNode

open Text

/-! ### Responses -/

/-- `SnmpVarBind`. -/
structure SnmpVarBind where
  oid : SnmpOid := {}
  value : SnmpValue := .null
  deriving DecidableEq

/-- A name of net-snmp: an array of `oid`, which is an `unsigned long`. -/
abbrev NetName := List UInt64

/-- The type of a `netsnmp_variable_list` with the member of `val` that goes with it. -/
inductive NetValue
  | integer (v : Int64)
  | counter (v : Int64)
  | gauge (v : Int64)
  | timeTicks (v : Int64)
  | counter64 (high low : UInt64)
  | octetStr (string : Bytes)
  | ipAddress (a b c d : UInt8)
  | objectId (objid : NetName)
  | opaqueBytes (string : Bytes)
  | opaqueFloat (bits : UInt32)
  | opaqueDouble (bits : UInt64)
  | noSuchObject
  | noSuchInstance
  | endOfMibView
  | unknown
  deriving DecidableEq

/-- The exceptions that an agent sends in place of a value. -/
def NetValue.isException : NetValue → Bool
  | .endOfMibView | .noSuchObject | .noSuchInstance => true
  | _ => false

/-- A member of a `netsnmp_variable_list`. -/
structure NetVariable where
  name : NetName
  value : NetValue
  deriving DecidableEq

/-- `toNetSnmpOid`. -/
def toNetSnmpOid (oid : SnmpOid) : NetName := oid.components.map UInt32.toUInt64

/-- The identifier made of a name, each part narrowed. -/
def fromNetName (name : NetName) : SnmpOid := ⟨name.map UInt64.toUInt32⟩

/-- The text that `inet_ntop` makes of an address. -/
def addressText (a b c d : UInt8) : Bytes :=
  let part (n : UInt8) : Bytes := bytes (toString n.toNat)
  part a ++ 46 :: part b ++ 46 :: part c ++ 46 :: part d

/-- The value that `parseVarBinds` makes of a variable. -/
def NetValue.parse : NetValue → SnmpValue
  | .integer v => .integer32 v.toInt32
  | .counter v => .counter32 v.toUInt64.toUInt32
  | .gauge v => .gauge32 v.toUInt64.toUInt32
  | .timeTicks v => .timeTicks v.toUInt64.toUInt32
  | .counter64 high low => .counter64 ((high <<< 32) ||| low)
  | .octetStr s => .fromOctetString s
  | .ipAddress a b c d => .ipAddress (addressText a b c d)
  | .objectId objid => .objectIdentifier (fromNetName objid)
  | .opaqueBytes s => .fromOpaque s
  | .opaqueFloat bits => .float bits
  | .opaqueDouble bits => .double bits
  | .noSuchObject | .noSuchInstance | .endOfMibView | .unknown => .null

/-- `parseVarBinds`. -/
def parseVarBinds (vars : List NetVariable) : List SnmpVarBind :=
  vars.map fun var => { oid := fromNetName var.name, value := var.value.parse }

/-- `SnmpOid::isPrefixOf`. -/
def SnmpOid.isPrefixOf (oid other : SnmpOid) : Bool :=
  if oid.components.length > other.components.length then false
  else oid.components = other.components.take oid.components.length

/-- What `snmp_synch_response` comes back with. -/
inductive Reply
  | success (errstat : ℕ) (vars : List NetVariable)
  | timeout
  | failure (errstr : Option Bytes)
  deriving DecidableEq

/-! ### The walk -/

/-- What the loop of a walk holds. -/
structure Walk where
  currentOid : NetName
  allVarbinds : List SnmpVarBind := []
  deriving DecidableEq

/-- A pass of the loop goes on, or breaks with an error text, which is empty without an error. -/
inductive WalkStep
  | again (w : Walk)
  | done (error : Bytes)
  deriving DecidableEq

section Walks

variable (errstring : ℕ → Bytes) (root : SnmpOid)

/-- What the loop does with a response; `errstring` is `snmp_errstring`. -/
def Walk.answer (w : Walk) : Reply → WalkStep
  | .success errstat vars =>
      if errstat ≠ 0 then
        if errstat ≠ 2 then .done (bytes "SNMP agent error: " ++ errstring errstat) else .done []
      else
        match vars with
        | [] => .done []
        | var :: rest =>
            if var.value.isException then .done []
            else if !root.isPrefixOf (fromNetName var.name) then .done []
            else
              .again { currentOid := var.name
                       allVarbinds := w.allVarbinds ++ parseVarBinds (var :: rest) }
  | .timeout => .done (bytes "Request timed out during walk")
  | .failure errstr => .done (errstr.getD (bytes "Unknown SNMP error"))

/-- The loop when request `n` is issued; `none` when the walk is over by then. -/
def issued (agent : ℕ → Reply) : ℕ → Option Walk
  | 0 => some { currentOid := toNetSnmpOid root }
  | n + 1 =>
      match issued agent n with
      | none => none
      | some w =>
          match w.answer errstring root (agent n) with
          | .again w' => some w'
          | .done _ => none

/-- `walkResult` is emitted with what has been collected. -/
def Emitted (agent : ℕ → Reply) (varbinds : List SnmpVarBind) : Prop :=
  ∃ n w, issued errstring root agent n = some w ∧
    w.answer errstring root (agent n) = .done [] ∧ w.allVarbinds = varbinds

/-- A walk of a subtree: each request is asked further on than the one before it, so that the walk
ends when names have a bounded length, and what is emitted lies in the subtree and is there once. -/
structure WalksSubtree (agent : ℕ → Reply) : Prop where
  advances : ∀ n w w', issued errstring root agent n = some w →
    issued errstring root agent (n + 1) = some w' → w.currentOid < w'.currentOid
  ends : ∀ L, (∀ n w, issued errstring root agent n = some w → w.currentOid.length ≤ L) →
    ∃ n, issued errstring root agent n = none
  contained : ∀ varbinds, Emitted errstring root agent varbinds →
    ∀ vb ∈ varbinds, root.isPrefixOf vb.oid = true
  once : ∀ varbinds, Emitted errstring root agent varbinds → (varbinds.map (·.oid)).Nodup

/-! ### Agents -/

/-- The variables of a response. -/
def Reply.vars : Reply → List NetVariable
  | .success _ vars => vars
  | .timeout => []
  | .failure _ => []

/-- The first name of a response without an error. -/
def Reply.next : Reply → Option NetName
  | .success 0 (var :: _) =>
      if var.value.isException || !root.isPrefixOf (fromNetName var.name) then none
      else some var.name
  | _ => none

/-- A response without an error text; the error status 2 is the end of the MIB. -/
def Reply.isQuiet : Reply → Bool
  | .success errstat _ => errstat = 0 || errstat = 2
  | .timeout => false
  | .failure errstr => errstr = some []

/-- A response that ends a walk without an error. -/
def Reply.endsQuietly (reply : Reply) : Bool := (reply.next root).isNone && reply.isQuiet

/-- The name that request `n` asks with: the root, and later the first name of the response before;
`none` behind a response that ends the walk. -/
def asked (agent : ℕ → Reply) : ℕ → Option NetName
  | 0 => some (toNetSnmpOid root)
  | n + 1 => if (asked agent n).isSome then (agent n).next root else none

/-- The variables of the first `n` responses. -/
def sent (agent : ℕ → Reply) (n : ℕ) : List NetVariable :=
  (List.range n).flatMap fun k => (agent k).vars

/-- What the responses of an agent owe: a response that goes on begins with a greater name than the
one asked with, and those before a quiet end hold no variable outside the subtree and none twice. -/
structure Conforms (agent : ℕ → Reply) : Prop where
  advances : ∀ n name next, asked root agent n = some name → (agent n).next root = some next →
    name < next
  contained : ∀ n, (asked root agent n).isSome = true → (agent n).endsQuietly root = true →
    ∀ var ∈ sent agent n, root.isPrefixOf (fromNetName var.name) = true
  once : ∀ n, (asked root agent n).isSome = true → (agent n).endsQuietly root = true →
    ((sent agent n).map fun var => fromNetName var.name).Nodup

/-! ### What a response does -/

variable {errstring root} {agent : ℕ → Reply}

theorem next_cons (var : NetVariable) (rest : List NetVariable) :
    (Reply.success 0 (var :: rest)).next root =
      if var.value.isException || !root.isPrefixOf (fromNetName var.name) then none
      else some var.name := rfl

theorem answer_of_ne {w : Walk} {errstat : ℕ} {vars : List NetVariable} (h : errstat ≠ 0) :
    w.answer errstring root (.success errstat vars) =
      if errstat ≠ 2 then .done (bytes "SNMP agent error: " ++ errstring errstat) else .done [] :=
  if_pos h

/-- A response that goes on has no error and begins with a value from the subtree. -/
theorem next_eq_some {reply : Reply} {name : NetName} (h : reply.next root = some name) :
    ∃ var rest, reply = .success 0 (var :: rest) ∧ ¬var.value.isException = true ∧
      root.isPrefixOf (fromNetName var.name) = true ∧ var.name = name := by
  cases reply with
  | timeout => cases h
  | failure errstr => cases h
  | success errstat vars =>
      cases errstat with
      | succ errstat => cases h
      | zero =>
          cases vars with
          | nil => cases h
          | cons var rest =>
              rw [next_cons] at h
              split at h
              · cases h
              · rename_i hgoes
                rw [Bool.or_eq_true, not_or, Bool.not_eq_true', Bool.not_eq_false] at hgoes
                exact ⟨var, rest, rfl, hgoes.1, hgoes.2, Option.some.inj h⟩

/-- A response that goes on moves the cursor to its first name, and all its variables are taken. -/
theorem answer_of_next {w : Walk} {reply : Reply} {name : NetName}
    (h : reply.next root = some name) : w.answer errstring root reply =
      .again ⟨name, w.allVarbinds ++ parseVarBinds reply.vars⟩ := by
  obtain ⟨var, rest, rfl, hvalue, hroot, rfl⟩ := next_eq_some h
  rw [Walk.answer, if_neg (by simp), if_neg hvalue, if_neg (by simp [hroot])]
  rfl

/-- A response that does not go on ends the walk, and the error text is empty at a quiet end. -/
theorem answer_of_not_next (errstring : ℕ → Bytes) (w : Walk) {reply : Reply}
    (h : reply.next root = none) :
    ∃ error, w.answer errstring root reply = .done error ∧
      (error = [] ↔ reply.endsQuietly root = true) := by
  rw [Reply.endsQuietly, h, Option.isNone_none, Bool.true_and]
  cases reply with
  | timeout => exact ⟨_, rfl, by decide⟩
  | failure errstr =>
      refine ⟨_, rfl, ?_⟩
      cases errstr with
      | none => exact ⟨fun hnil => absurd hnil (by decide), fun hsome => by cases hsome⟩
      | some error => simp [Reply.isQuiet]
  | success errstat vars =>
      cases errstat with
      | succ errstat =>
          by_cases htwo : errstat + 1 = 2
          · refine ⟨[], ?_, ?_⟩
            · rw [answer_of_ne (Nat.succ_ne_zero _), if_neg (not_not_intro htwo)]
            · simp [Reply.isQuiet, htwo]
          · refine ⟨bytes "SNMP agent error: " ++ errstring (errstat + 1), ?_, ?_⟩
            · rw [answer_of_ne (Nat.succ_ne_zero _), if_pos htwo]
            · refine ⟨fun hnil => ?_, fun hquiet => ?_⟩
              · exact absurd (List.append_eq_nil_iff.mp hnil).1 (by decide)
              · simp [Reply.isQuiet, htwo] at hquiet
      | zero =>
          refine ⟨[], ?_, by simp [Reply.isQuiet]⟩
          cases vars with
          | nil => rfl
          | cons var rest =>
              rw [next_cons] at h
              split at h
              · rename_i hends
                rw [Walk.answer, if_neg (by simp)]
                rw [Bool.or_eq_true] at hends
                by_cases hexception : var.value.isException = true
                · rw [if_pos hexception]
                · rw [if_neg hexception, if_pos (hends.resolve_left hexception)]
              · cases h

theorem answer_done_iff {w : Walk} {reply : Reply} :
    w.answer errstring root reply = .done [] ↔ reply.endsQuietly root = true := by
  cases hnext : reply.next root with
  | none =>
      obtain ⟨error, hanswer, herror⟩ := answer_of_not_next errstring w hnext
      rw [hanswer, ← herror, WalkStep.done.injEq]
  | some name =>
      rw [answer_of_next hnext, Reply.endsQuietly, hnext]
      exact ⟨fun h => (by cases h), fun h => (by cases h)⟩

/-! ### Runs -/

theorem asked_succ {n : ℕ} {next : NetName} : asked root agent (n + 1) = some next ↔
    (asked root agent n).isSome = true ∧ (agent n).next root = some next := by
  rw [asked, Option.ite_none_right_eq_some]

/-- **The requests of a walk**: the name each asks with, and what has been collected by then. -/
theorem issued_eq (n : ℕ) : issued errstring root agent n =
    (asked root agent n).map fun name => ⟨name, parseVarBinds (sent agent n)⟩ := by
  induction n with
  | zero => rfl
  | succ n ih =>
      rw [issued, ih, asked]
      cases hasked : asked root agent n with
      | none => rfl
      | some name =>
          rw [Option.map_some, Option.isSome_some, if_pos rfl]
          cases hnext : (agent n).next root with
          | none =>
              obtain ⟨error, hanswer, -⟩ := answer_of_not_next errstring
                ⟨name, parseVarBinds (sent agent n)⟩ hnext
              simp only [hanswer, Option.map_none]
          | some next =>
              have hsent : sent agent (n + 1) = sent agent n ++ (agent n).vars := by
                rw [sent, List.range_succ, List.flatMap_append, List.flatMap_singleton]
                rfl
              simp only [answer_of_next hnext, Option.map_some]
              rw [hsent, parseVarBinds, parseVarBinds, parseVarBinds, List.map_append]

theorem issued_iff {n : ℕ} {w : Walk} : issued errstring root agent n = some w ↔
    asked root agent n = some w.currentOid ∧ w.allVarbinds = parseVarBinds (sent agent n) := by
  rw [issued_eq, Option.map_eq_some_iff]
  refine ⟨?_, ?_⟩
  · rintro ⟨name, hname, rfl⟩
    exact ⟨hname, rfl⟩
  · rintro ⟨hname, hvarbinds⟩
    refine ⟨w.currentOid, hname, ?_⟩
    rw [← hvarbinds]

/-- What a walk emits has been sent before a quiet end. -/
theorem emitted_iff {varbinds : List SnmpVarBind} : Emitted errstring root agent varbinds ↔
    ∃ n, (asked root agent n).isSome = true ∧ (agent n).endsQuietly root = true ∧
      varbinds = parseVarBinds (sent agent n) := by
  refine ⟨?_, ?_⟩
  · rintro ⟨n, w, hissued, hdone, rfl⟩
    obtain ⟨hasked, hvarbinds⟩ := issued_iff.mp hissued
    exact ⟨n, Option.isSome_of_eq_some hasked, answer_done_iff.mp hdone, hvarbinds⟩
  · rintro ⟨n, hasked, hquiet, rfl⟩
    obtain ⟨name, hname⟩ := Option.isSome_iff_exists.mp hasked
    exact ⟨n, ⟨name, parseVarBinds (sent agent n)⟩, issued_iff.mpr ⟨hname, rfl⟩,
      answer_done_iff.mpr hquiet, rfl⟩

/-! ### The end of a walk -/

/-- Where every request goes further than the one before it, it goes further than all of them. -/
theorem asked_lt {names : ℕ → NetName} (h : ∀ n, names n < names (n + 1)) {m n : ℕ}
    (hmn : m < n) : names m < names n := by
  induction n, hmn using Nat.le_induction with
  | base => exact h m
  | succ n _ ih => exact List.lt_trans ih (h n)

/-- Names of a bounded length do not go further for ever. -/
theorem exists_not_lt {names : ℕ → NetName} {L : ℕ} (h : ∀ n, (names n).length ≤ L) :
    ∃ n, ¬names n < names (n + 1) := by
  by_contra hall
  rw [not_exists] at hall
  have hlt : ∀ n, names n < names (n + 1) := fun n => not_not.mp (hall n)
  have hinjective : Function.Injective names := by
    intro m n heq
    rcases Nat.lt_trichotomy m n with hmn | hmn | hmn
    · exact absurd (heq ▸ asked_lt hlt hmn) (List.lt_irrefl _)
    · exact hmn
    · exact absurd (heq ▸ asked_lt hlt hmn) (List.lt_irrefl _)
  refine Set.infinite_range_of_injective hinjective ?_
  refine (List.finite_length_le UInt64 L).subset ?_
  rintro _ ⟨n, rfl⟩
  exact h n

theorem map_oid_parseVarBinds (vars : List NetVariable) :
    (parseVarBinds vars).map (·.oid) = vars.map fun var => fromNetName var.name := by
  rw [parseVarBinds, List.map_map]
  rfl

/-- **A walk.** The requests go further and further, so that the walk ends, and what is emitted lies
in the subtree and is there once, exactly when the responses of the agent conform. -/
theorem walk_iff (errstring : ℕ → Bytes) (root : SnmpOid) (agent : ℕ → Reply) :
    WalksSubtree errstring root agent ↔ Conforms root agent := by
  refine ⟨fun h => ⟨?_, ?_, ?_⟩, fun h => ⟨?_, ?_, ?_, ?_⟩⟩
  · intro n name next hname hnext
    have hasked : asked root agent (n + 1) = some next :=
      asked_succ.mpr ⟨Option.isSome_of_eq_some hname, hnext⟩
    exact h.advances n ⟨name, parseVarBinds (sent agent n)⟩
      ⟨next, parseVarBinds (sent agent (n + 1))⟩ (issued_iff.mpr ⟨hname, rfl⟩)
      (issued_iff.mpr ⟨hasked, rfl⟩)
  · intro n hasked hquiet
    have hcontained := h.contained _ (emitted_iff.mpr ⟨n, hasked, hquiet, rfl⟩)
    rwa [parseVarBinds, List.forall_mem_map] at hcontained
  · intro n hasked hquiet
    have honce := h.once _ (emitted_iff.mpr ⟨n, hasked, hquiet, rfl⟩)
    rwa [map_oid_parseVarBinds] at honce
  · intro n w w' hw hw'
    obtain ⟨-, hnext⟩ := asked_succ.mp (issued_iff.mp hw').1
    exact h.advances n _ _ (issued_iff.mp hw).1 hnext
  · intro L hbound
    by_contra hall
    rw [not_exists] at hall
    have hissued : ∀ n, ∃ w, issued errstring root agent n = some w := fun n =>
      Option.ne_none_iff_exists'.mp (hall n)
    choose w hw using hissued
    obtain ⟨n, hn⟩ := exists_not_lt fun n => hbound n (w n) (hw n)
    obtain ⟨-, hnext⟩ := asked_succ.mp (issued_iff.mp (hw (n + 1))).1
    exact hn (h.advances n _ _ (issued_iff.mp (hw n)).1 hnext)
  · intro varbinds hemitted
    obtain ⟨n, hasked, hquiet, rfl⟩ := emitted_iff.mp hemitted
    rw [parseVarBinds, List.forall_mem_map]
    exact h.contained n hasked hquiet
  · intro varbinds hemitted
    obtain ⟨n, hasked, hquiet, rfl⟩ := emitted_iff.mp hemitted
    rw [map_oid_parseVarBinds]
    exact h.once n hasked hquiet

/-- An agent that sends the same variable over and over, and one whose response carries a variable
from outside the subtree. -/
theorem walk_strays :
    (∀ n, (issued (fun _ => []) ⟨[1]⟩
      (fun _ => .success 0 [⟨[1, 3], .unknown⟩]) n).isSome = true) ∧
      ¬WalksSubtree (fun _ => []) ⟨[1]⟩ (fun _ => .success 0 [⟨[1, 3], .unknown⟩]) ∧
      ¬WalksSubtree (fun _ => []) ⟨[1]⟩ (fun n =>
        if n = 0 then .success 0 [⟨[1, 3], .unknown⟩, ⟨[2], .unknown⟩] else .success 2 []) := by
  refine ⟨fun n => ?_, fun h => ?_, fun h => ?_⟩
  · rw [issued_eq, Option.isSome_map]
    induction n with
    | zero => rfl
    | succ n ih =>
        rw [asked, if_pos ih]
        rfl
  · exact absurd (h.advances 1 _ _ rfl rfl) (List.lt_irrefl _)
  · have hcontained := h.contained _ ⟨1, _, rfl, rfl, rfl⟩ _
      (List.mem_cons_of_mem _ List.mem_cons_self)
    exact absurd hcontained (by decide)

end Walks

end SimplyNode
