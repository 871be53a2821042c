import Mathlib.Algebra.Order.BigOperators.Group.List
import Mathlib.Algebra.Order.Ring.Nat
import Mathlib.Data.Fintype.Card
import Mathlib.Data.List.FinRange
import Mathlib.Order.Bounds.Basic
import SimplyNode.Lib.KeyedList

/-!
# The Memory Tracker

The accounts of `MemoryTracker.cpp`: a map from the addresses that are in use to the sizes with
which they were recorded, and three counters beside it that are updated with it. The counters are
of the type `size_t`.

## Main results

* `act_cases`, `Tallies.act`: what a call does, and that the counters tally after it.
* `isGreatest_peak`: the peak, as long as no sum has been out of range.
* `tracker_accounts`: the number of addresses, the sum of their sizes and its maximum.
-/

namespace SimplyNode

namespace MemoryTracking

/-- `std::unordered_map<void*, size_t>`: its pairs. -/
structure AddressMap where
  entries : List (UInt64 × UInt64)
  distinct : KeyedList.Distinct entries

namespace AddressMap

/-- An empty map. -/
def empty : AddressMap := ⟨[], List.nodup_nil⟩

/-- `m_map.find(ptr)`. -/
def find (m : AddressMap) (ptr : UInt64) : Option UInt64 := m.entries.lookup ptr

/-- `m_map.emplace(ptr, size)`, for an address that is not in the map. -/
def emplace (m : AddressMap) (ptr size : UInt64) (h : m.find ptr = none) : AddressMap where
  entries := (ptr, size) :: m.entries
  distinct := List.nodup_cons.mpr ⟨KeyedList.lookup_eq_none_iff_notMem.mp h, m.distinct⟩

/-- `m_map.erase(it)`. -/
def erase (m : AddressMap) (ptr : UInt64) : AddressMap where
  entries := m.entries.eraseP (·.1 = ptr)
  distinct := m.distinct.sublist (List.eraseP_sublist.map Prod.fst)

/-- The sum of the recorded sizes. -/
def total (m : AddressMap) : ℕ := (m.entries.map fun e => e.2.toNat).sum

end AddressMap

/-- `MemoryTracker`. -/
structure MemoryTracker where
  map : AddressMap := .empty
  liveBytes : UInt64 := 0
  liveCount : UInt64 := 0
  peakBytes : UInt64 := 0

/-- What `recordAlloc` does under the lock. -/
def MemoryTracker.insert (t : MemoryTracker) (ptr size : UInt64) : MemoryTracker :=
  if h : t.map.find ptr = none then
    let liveBytes := t.liveBytes + size
    { map := t.map.emplace ptr size h
      liveBytes
      liveCount := t.liveCount + 1
      peakBytes := if t.peakBytes < liveBytes then liveBytes else t.peakBytes }
  else t

/-- What `recordFree` does under the lock. -/
def MemoryTracker.remove (t : MemoryTracker) (ptr : UInt64) : MemoryTracker :=
  match t.map.find ptr with
  | some size =>
      { t with
        map := t.map.erase ptr
        liveBytes := t.liveBytes - size
        liveCount := t.liveCount - 1 }
  | none => t

/-- `g_enabled` and `g_instance`. -/
structure Globals where
  enabled : Bool := false
  tracker : Option MemoryTracker := none

/-- `MemSnapshot`. -/
structure MemSnapshot where
  liveCount : UInt64 := 0
  liveBytes : UInt64 := 0
  peakBytes : UInt64 := 0

namespace Globals

/-- `MemoryTracker::enable`. -/
def enable (g : Globals) : Globals :=
  if g.enabled then g else { enabled := true, tracker := some {} }

/-- The beginning of both functions: nothing is recorded while the tracker is off, for a null
pointer, or in a call from within the tracker on the same thread. -/
def record (g : Globals) (inTracker : Bool) (ptr : UInt64)
    (locked : MemoryTracker → MemoryTracker) : Globals :=
  if !g.enabled || g.tracker.isNone || ptr = 0 then g
  else if inTracker then g
  else { g with tracker := g.tracker.map locked }

/-- `MemoryTracker::recordAlloc`. -/
def recordAlloc (g : Globals) (inTracker : Bool) (ptr size : UInt64) : Globals :=
  g.record inTracker ptr fun t => t.insert ptr size

/-- `MemoryTracker::recordFree`. -/
def recordFree (g : Globals) (inTracker : Bool) (ptr : UInt64) : Globals :=
  g.record inTracker ptr fun t => t.remove ptr

/-- `MemoryTracker::snapshot`. -/
def snapshot (g : Globals) : MemSnapshot :=
  match g.tracker with
  | none => {}
  | some t => { liveCount := t.liveCount, liveBytes := t.liveBytes, peakBytes := t.peakBytes }

end Globals

/-- A call, with the flag `g_inTracker` of its thread. -/
inductive Call
  | recordAlloc (inTracker : Bool) (ptr size : UInt64)
  | recordFree (inTracker : Bool) (ptr : UInt64)

/-- A call is made. -/
def perform (g : Globals) : Call → Globals
  | .recordAlloc inTracker ptr size => g.recordAlloc inTracker ptr size
  | .recordFree inTracker ptr => g.recordFree inTracker ptr

/-- A sequence of calls, from when the tracker was enabled. -/
def run (calls : List Call) : Globals := calls.foldl perform (Globals.enable {})

/-- The counters after a sequence of calls. -/
def countersAfter (calls : List Call) : MemSnapshot := (run calls).snapshot

/-- The addresses that are tracked after a sequence of calls. -/
def addressesAfter (calls : List Call) : AddressMap := (run calls).tracker.elim .empty (·.map)

/-- **The accounts are right** after a sequence of calls. -/
structure Accounted (calls : List Call) : Prop where
  count : (countersAfter calls).liveCount.toNat = (addressesAfter calls).entries.length
  bytes : (countersAfter calls).liveBytes.toNat = (addressesAfter calls).total
  noUnderflow : ∀ e ∈ (addressesAfter calls).entries, e.2 ≤ (countersAfter calls).liveBytes
  peak : IsGreatest {n | ∃ earlier, earlier <+: calls ∧
    n = (countersAfter earlier).liveBytes.toNat} (countersAfter calls).peakBytes.toNat

/-! ### The counters -/

namespace AddressMap

theorem total_emplace (m : AddressMap) {ptr size : UInt64} (h : m.find ptr = none) :
    (m.emplace ptr size h).total = size.toNat + m.total := rfl

theorem total_erase {m : AddressMap} {ptr size : UInt64} (h : m.find ptr = some size) :
    m.total = size.toNat + (m.erase ptr).total :=
  ((KeyedList.perm_eraseP h).map fun e : UInt64 × UInt64 => e.2.toNat).sum_eq

theorem length_erase {m : AddressMap} {ptr size : UInt64} (h : m.find ptr = some size) :
    m.entries.length = (m.erase ptr).entries.length + 1 :=
  (KeyedList.perm_eraseP h).length_eq

/-- A tracked size is at most the sum. -/
theorem le_total {m : AddressMap} {e : UInt64 × UInt64} (h : e ∈ m.entries) :
    e.2.toNat ≤ m.total :=
  List.single_le_sum (fun _ _ => Nat.zero_le _) _ (List.mem_map_of_mem h)

/-- There are fewer tracked addresses than addresses. -/
theorem length_lt {m : AddressMap} (h : 0 ∉ m.entries.map Prod.fst) :
    m.entries.length < 2 ^ 64 := by
  have hnodup : ((0 :: m.entries.map Prod.fst).map UInt64.toFin).Nodup :=
    (List.nodup_cons.mpr ⟨h, m.distinct⟩).map fun _ _ => UInt64.toFin_inj.mp
  have hcard := hnodup.length_le_card
  rw [List.length_map, List.length_cons, List.length_map, Fintype.card_fin] at hcard
  exact hcard

end AddressMap

/-- **The counters tally** with the addresses, as numbers of 64 bits. -/
structure Tallies (t : MemoryTracker) : Prop where
  count : t.liveCount = UInt64.ofNat t.map.entries.length
  bytes : t.liveBytes = UInt64.ofNat t.map.total
  null : 0 ∉ t.map.entries.map Prod.fst

theorem tallies_nil : Tallies {} := ⟨rfl, rfl, List.not_mem_nil⟩

/-- The tracker after a call. -/
def MemoryTracker.act (t : MemoryTracker) : Call → MemoryTracker
  | .recordAlloc inTracker ptr size => if ptr = 0 ∨ inTracker then t else t.insert ptr size
  | .recordFree inTracker ptr => if ptr = 0 ∨ inTracker then t else t.remove ptr

/-- **What a call does**: nothing, or it adds an address that is not tracked, or it removes one that
is. -/
theorem act_cases (t : MemoryTracker) (call : Call) :
    t.act call = t ∨
      (∃ ptr size, ∃ h : t.map.find ptr = none, ptr ≠ 0 ∧ t.act call =
        { map := t.map.emplace ptr size h
          liveBytes := t.liveBytes + size
          liveCount := t.liveCount + 1
          peakBytes := if t.peakBytes < t.liveBytes + size then t.liveBytes + size
            else t.peakBytes }) ∨
      ∃ ptr size, t.map.find ptr = some size ∧ t.act call =
        { t with
          map := t.map.erase ptr
          liveBytes := t.liveBytes - size
          liveCount := t.liveCount - 1 } := by
  cases call with
  | recordAlloc inTracker ptr size =>
      rw [MemoryTracker.act]
      split
      · exact Or.inl rfl
      rename_i hptr
      rw [not_or] at hptr
      rw [MemoryTracker.insert]
      split
      · rename_i hnew
        exact Or.inr (Or.inl ⟨ptr, size, hnew, hptr.1, rfl⟩)
      · exact Or.inl rfl
  | recordFree inTracker ptr =>
      rw [MemoryTracker.act]
      split
      · exact Or.inl rfl
      rw [MemoryTracker.remove]
      split
      · rename_i size hsize
        exact Or.inr (Or.inr ⟨ptr, size, hsize, rfl⟩)
      · exact Or.inl rfl

/-- The counters tally after a call. -/
theorem Tallies.act {t : MemoryTracker} (h : Tallies t) (call : Call) : Tallies (t.act call) := by
  obtain heq | ⟨ptr, size, hnew, hptr, heq⟩ | ⟨ptr, size, hsize, heq⟩ := act_cases t call
  · rw [heq]
    exact h
  · rw [heq]
    refine ⟨?_, ?_, List.not_mem_cons_of_ne_of_not_mem (Ne.symm hptr) h.null⟩
    · dsimp only
      rw [h.count]
      exact (UInt64.ofNat_add _ 1).symm
    · dsimp only
      rw [h.bytes, AddressMap.total_emplace, UInt64.ofNat_add, UInt64.ofNat_toNat, UInt64.add_comm]
  · rw [heq]
    refine ⟨?_, ?_, fun hmem => h.null ((List.eraseP_sublist.map Prod.fst).subset hmem)⟩
    · dsimp only
      rw [h.count, AddressMap.length_erase hsize, UInt64.ofNat_add]
      exact UInt64.add_sub_cancel _ _
    · dsimp only
      rw [h.bytes, AddressMap.total_erase hsize, UInt64.ofNat_add, UInt64.ofNat_toNat,
        UInt64.add_comm]
      exact UInt64.add_sub_cancel _ _

theorem Tallies.toNat_count {t : MemoryTracker} (h : Tallies t) :
    t.liveCount.toNat = t.map.entries.length := by
  rw [h.count, UInt64.toNat_ofNat', Nat.mod_eq_of_lt (AddressMap.length_lt h.null)]

theorem Tallies.toNat_bytes {t : MemoryTracker} (h : Tallies t) :
    t.liveBytes.toNat = t.map.total % 2 ^ 64 := by
  rw [h.bytes, UInt64.toNat_ofNat']

/-- **The peak after a call**, where no sum is out of range. -/
theorem Tallies.peak_act {t : MemoryTracker} (h : Tallies t) {call : Call}
    (htotal : t.map.total < 2 ^ 64) (htotal' : (t.act call).map.total < 2 ^ 64)
    (hpeak : t.liveBytes.toNat ≤ t.peakBytes.toNat) :
    (t.act call).peakBytes.toNat = max (t.act call).liveBytes.toNat t.peakBytes.toNat := by
  have hbytes := h.toNat_bytes
  have hbytes' := (h.act call).toNat_bytes
  rw [Nat.mod_eq_of_lt htotal] at hbytes
  rw [Nat.mod_eq_of_lt htotal'] at hbytes'
  obtain heq | ⟨ptr, size, hnew, hptr, heq⟩ | ⟨ptr, size, hsize, heq⟩ := act_cases t call
  · rw [heq, max_eq_right hpeak]
  · rw [heq]
    dsimp only
    split
    · rename_i hlt
      exact (max_eq_left (Nat.le_of_lt (UInt64.lt_iff_toNat_lt.mp hlt))).symm
    · rename_i hle
      exact (max_eq_right (UInt64.le_iff_toNat_le.mp (UInt64.not_lt.mp hle))).symm
  · -- the live bytes have become fewer
    have herased := AddressMap.total_erase hsize
    rw [heq] at hbytes' ⊢
    dsimp only at hbytes' ⊢
    exact (max_eq_right (by omega)).symm

/-! ### Runs -/

/-- A tracker that is enabled. -/
def enabled (t : MemoryTracker) : Globals := { enabled := true, tracker := some t }

theorem perform_enabled (t : MemoryTracker) (call : Call) :
    perform (enabled t) call = enabled (t.act call) := by
  have hrecord (inTracker : Bool) (ptr : UInt64) (locked : MemoryTracker → MemoryTracker) :
      (enabled t).record inTracker ptr locked =
        enabled (if ptr = 0 ∨ inTracker then t else locked t) := by
    rw [Globals.record]
    by_cases hptr : ptr = 0
    · rw [if_pos (by simp [hptr]), if_pos (Or.inl hptr)]
    · rw [if_neg (by simp [enabled, hptr])]
      cases inTracker with
      | false => rw [if_neg Bool.false_ne_true, if_neg (by simp [hptr])]; rfl
      | true => rw [if_pos rfl, if_pos (Or.inr rfl)]
  cases call with
  | recordAlloc inTracker ptr size => exact hrecord inTracker ptr _
  | recordFree inTracker ptr => exact hrecord inTracker ptr _

/-- The tracker after a sequence of calls. -/
def trackerAfter (calls : List Call) : MemoryTracker := calls.foldl MemoryTracker.act {}

theorem run_eq (calls : List Call) : run calls = enabled (trackerAfter calls) := by
  have hfold (t : MemoryTracker) (calls : List Call) :
      calls.foldl perform (enabled t) = enabled (calls.foldl MemoryTracker.act t) := by
    induction calls generalizing t with
    | nil => rfl
    | cons call calls ih => rw [List.foldl_cons, perform_enabled, ih, List.foldl_cons]
  exact hfold {} calls

/-- **The counters tally** after every sequence of calls. -/
theorem tallies_trackerAfter (calls : List Call) : Tallies (trackerAfter calls) :=
  List.foldlRecOn calls MemoryTracker.act tallies_nil fun _ h call _ => h.act call

theorem countersAfter_eq (calls : List Call) : countersAfter calls =
    { liveCount := (trackerAfter calls).liveCount
      liveBytes := (trackerAfter calls).liveBytes
      peakBytes := (trackerAfter calls).peakBytes } := by
  rw [countersAfter, run_eq]
  rfl

theorem addressesAfter_eq (calls : List Call) :
    addressesAfter calls = (trackerAfter calls).map := by
  rw [addressesAfter, run_eq]
  rfl

theorem trackerAfter_concat (calls : List Call) (call : Call) :
    trackerAfter (calls ++ [call]) = (trackerAfter calls).act call :=
  List.foldl_concat ..

/-- What the live bytes have been. -/
def reached (calls : List Call) : Set ℕ :=
  {n | ∃ earlier, earlier <+: calls ∧ n = (trackerAfter earlier).liveBytes.toNat}

theorem reached_concat (calls : List Call) (call : Call) :
    reached (calls ++ [call]) =
      insert (trackerAfter (calls ++ [call])).liveBytes.toNat (reached calls) := by
  ext n
  simp only [reached, List.prefix_concat_iff, Set.mem_insert_iff]
  constructor
  · rintro ⟨earlier, rfl | hearlier, rfl⟩
    · exact Or.inl rfl
    · exact Or.inr ⟨earlier, hearlier, rfl⟩
  · rintro (rfl | ⟨earlier, hearlier, rfl⟩)
    · exact ⟨_, Or.inl rfl, rfl⟩
    · exact ⟨earlier, Or.inr hearlier, rfl⟩

/-- **The peak** is the greatest number of live bytes so far, as long as no sum has been out of
range. -/
theorem isGreatest_peak {calls : List Call}
    (h : ∀ earlier, earlier <+: calls → (trackerAfter earlier).map.total < 2 ^ 64) :
    IsGreatest (reached calls) (trackerAfter calls).peakBytes.toNat := by
  induction calls using List.reverseRecOn with
  | nil =>
      refine ⟨⟨[], List.prefix_rfl, rfl⟩, ?_⟩
      rintro n ⟨earlier, hearlier, rfl⟩
      rw [List.prefix_nil.mp hearlier]
      exact Nat.le_refl 0
  | append_singleton calls call ih =>
      have hbefore := ih fun earlier hearlier => h earlier (hearlier.trans (List.prefix_append _ _))
      have hlive : (trackerAfter calls).liveBytes.toNat ≤ (trackerAfter calls).peakBytes.toNat :=
        hbefore.2 ⟨calls, List.prefix_rfl, rfl⟩
      have htotal := h _ (List.prefix_rfl (l := calls ++ [call]))
      rw [reached_concat]
      rw [trackerAfter_concat] at htotal ⊢
      rw [(tallies_trackerAfter calls).peak_act (h calls (List.prefix_append _ _)) htotal hlive]
      exact hbefore.insert _

/-- The accounts are right where no sum has been out of range. -/
theorem accounted_of_total_lt {calls : List Call}
    (h : ∀ earlier, earlier <+: calls → (addressesAfter earlier).total < 2 ^ 64) :
    Accounted calls := by
  have htallies := tallies_trackerAfter calls
  have hbytes := htallies.toNat_bytes
  simp only [addressesAfter_eq] at h
  rw [Nat.mod_eq_of_lt (h calls List.prefix_rfl)] at hbytes
  constructor
  · rw [countersAfter_eq, addressesAfter_eq]
    exact htallies.toNat_count
  · rw [countersAfter_eq, addressesAfter_eq]
    exact hbytes
  · intro e he
    rw [addressesAfter_eq] at he
    rw [countersAfter_eq, UInt64.le_iff_toNat_le]
    exact (AddressMap.le_total he).trans_eq hbytes.symm
  · simp only [countersAfter_eq]
    exact isGreatest_peak h

end MemoryTracking

open MemoryTracking

/-- **The accounts of the memory tracker.** After every sequence of calls the number of live
allocations is that of the tracked addresses, and the live bytes are the sum of their sizes as a
number of 64 bits. The bytes and their peak have been right throughout if and only if no sum has
been out of the range of the counters. -/
theorem tracker_accounts (calls : List Call) :
    (countersAfter calls).liveCount.toNat = (addressesAfter calls).entries.length ∧
      (countersAfter calls).liveBytes.toNat = (addressesAfter calls).total % 2 ^ 64 ∧
      ((∀ earlier, earlier <+: calls → Accounted earlier) ↔
        ∀ earlier, earlier <+: calls → (addressesAfter earlier).total < 2 ^ 64) := by
  have htallies := tallies_trackerAfter calls
  refine ⟨?_, ?_, ?_⟩
  · rw [countersAfter_eq, addressesAfter_eq]
    exact htallies.toNat_count
  · rw [countersAfter_eq, addressesAfter_eq]
    exact htallies.toNat_bytes
  · constructor
    · intro h earlier hearlier
      rw [← (h earlier hearlier).bytes]
      exact UInt64.toNat_lt _
    · intro h earlier hearlier
      exact accounted_of_total_lt fun first hfirst => h first (hfirst.trans hearlier)

/-- Two allocations of half the range of the counters. -/
def halves : List Call :=
  [.recordAlloc false 16 0x8000000000000000, .recordAlloc false 32 0x8000000000000000]

/-- **The live bytes go around.** -/
theorem counters_wrap : (addressesAfter halves).total = 2 ^ 64 ∧
    (countersAfter halves).liveBytes = 0 ∧ ¬Accounted halves := by
  have htotal : (addressesAfter halves).total = 2 ^ 64 := by decide +kernel
  have hlive : (countersAfter halves).liveBytes = 0 := by decide +kernel
  refine ⟨htotal, hlive, fun h => ?_⟩
  have hbytes := h.bytes
  rw [htotal, hlive] at hbytes
  exact absurd hbytes (by decide)

end SimplyNode
