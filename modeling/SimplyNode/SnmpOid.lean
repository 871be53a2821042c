import SimplyNode.TextNumbers
import Mathlib.Data.List.DropRight
import Mathlib.Data.List.Lex

/-!
# Object Identifiers

`SnmpOid` (`SnmpOid.h/.cpp`): a sequence of 32-bit sub-identifiers, its dotted-decimal text, and the
constructor that reads one. The constructor takes the fields between dots one after the other,
passes over empty ones and hands the others to `std::stoul`, which throws on a field that does not
begin with a number and does not look behind the number; the 64-bit result is narrowed to 32 bits.

A text is a dotted list when the pieces between its dots are decimal numbers below 2 ^ 32. The
header promises an empty identifier for a text that is none.

## Main results

* `ofText_toString`: an identifier is read again from its own text.
* `text_form`: the constructor meets the promise of the header exactly on the texts of nothing but
  dots and those that are a dotted list once their outer dots are gone.
-/

namespace SimplyNode

open Text

/-- `SnmpOid`. -/
structure SnmpOid where
  components : List UInt32 := []
  deriving DecidableEq

namespace SnmpOid

/-- The loop of the constructor over the fields between dots; `none` is an exception of
`std::stoul`. -/
def readFields : List Bytes → Option (List UInt32)
  | [] => some []
  | token :: tokens =>
      if token = [] then readFields tokens
      else
        match stoul token 10 with
        | none => none
        | some n => (readFields tokens).map (UInt32.ofNat n :: ·)

/-- `SnmpOid::SnmpOid(const std::string&)`. -/
def ofText (dotted : Bytes) : Option SnmpOid :=
  if dotted = [] then some {} else (readFields (getlines 46 dotted)).map SnmpOid.mk

/-- `std::to_string` of a sub-identifier. -/
def componentText (c : UInt32) : Bytes := bytes (ToString.toString c.toNat)

/-- `SnmpOid::toString`. -/
def toString (oid : SnmpOid) : Bytes :=
  match oid.components with
  | [] => []
  | c :: cs => componentText c ++ cs.flatMap fun c => 46 :: componentText c

/-- `SnmpOid::isValid`. -/
def isValid (oid : SnmpOid) : Bool := !oid.components.isEmpty

/-- A name that is not valid is empty. -/
theorem eq_empty_of_not_isValid {oid : SnmpOid} (h : oid.isValid = false) : oid = {} := by
  rw [isValid, Bool.not_eq_false', List.isEmpty_iff] at h
  obtain ⟨components⟩ := oid
  exact congrArg SnmpOid.mk h

/-! ### Dotted lists -/

/-- A text without the dots at both ends. -/
def strip (s : Bytes) : Bytes := (s.dropWhile (· = 46)).rdropWhile (· = 46)

/-- A decimal number below 2 ^ 32. -/
def numberOf (field : Bytes) : Option ℕ :=
  if IsNumeral 10 field ∧ numeral 10 field < 2 ^ 32 then some (numeral 10 field) else none

/-- The numbers of a dotted list; `none` for a text that is none. -/
def numbersOf (s : Bytes) : Option (List ℕ) := (s.splitOn 46).mapM numberOf

/-- What the constructor owes for a text: it does not throw, and a valid identifier holds exactly
the numbers of the text, a dotted list between outer dots. -/
def Exact (s : Bytes) : Prop :=
  ∃ oid, ofText s = some oid ∧
    (oid.isValid = false ∨ numbersOf (strip s) = some (oid.components.map UInt32.toNat))

/-! ### Fields and pieces -/

/-- The fields are the pieces between the dots, without the last one where that is empty. -/
theorem splitOn_eq_getlines (sep : UInt8) (s : Bytes) :
    s.splitOn sep = getlines sep s ∨ s.splitOn sep = getlines sep s ++ [[]] := by
  induction s with
  | nil => exact Or.inr rfl
  | cons c s ih =>
      rw [List.splitOn_cons_eq_if_modifyHead, getlines]
      by_cases hc : c = sep
      · rw [if_pos (beq_iff_eq.mpr hc), if_pos hc]
        rcases ih with ih | ih
        · exact Or.inl (congrArg ([] :: ·) ih)
        · exact Or.inr (congrArg ([] :: ·) ih)
      · rw [if_neg (mt beq_iff_eq.mp hc), if_neg hc]
        cases hlines : getlines sep s with
        | nil =>
            rw [hlines] at ih
            rcases ih with ih | ih
            · exact absurd ih (List.splitOn_ne_nil sep s)
            · rw [ih]
              exact Or.inl rfl
        | cons field fields =>
            rw [hlines] at ih
            rcases ih with ih | ih
            · rw [ih]
              exact Or.inl rfl
            · rw [ih]
              exact Or.inr rfl

/-- The pieces that are not empty. -/
def words (s : Bytes) : List Bytes := (s.splitOn 46).filter (· ≠ [])

/-- The fields that are not empty are the words between the dots. -/
theorem filter_getlines (s : Bytes) : (getlines 46 s).filter (· ≠ []) = words s := by
  rcases splitOn_eq_getlines 46 s with h | h
  · rw [words, h]
  · rw [words, h, List.filter_append]
    exact (List.append_nil _).symm

/-- A dot stands between words. -/
theorem words_append_dot (s t : Bytes) : words (s ++ 46 :: t) = words s ++ words t := by
  rw [words, List.splitOn_append_cons_self, List.filter_append]
  rfl

/-- A character that is no dot begins a word. -/
theorem words_cons_of_ne {c : UInt8} (hc : c ≠ 46) (s : Bytes) : words (c :: s) ≠ [] := by
  rw [words, List.splitOn_cons_eq_if_modifyHead, if_neg (mt beq_iff_eq.mp hc)]
  cases hs : s.splitOn 46 with
  | nil => exact absurd hs (List.splitOn_ne_nil _ _)
  | cons piece pieces =>
      rw [List.modifyHead_cons, List.filter_cons_of_pos (by simp)]
      exact List.cons_ne_nil _ _

/-- Outer dots make no words. -/
theorem words_strip (s : Bytes) : words (strip s) = words s := by
  have hfront : words (s.dropWhile (· = 46)) = words s := by
    induction s with
    | nil => rfl
    | cons c s ih =>
        rw [List.dropWhile_cons]
        split
        · rename_i hc
          rw [ih, of_decide_eq_true hc]
          exact (words_append_dot [] s).symm
        · rfl
  rw [← hfront, strip]
  induction s.dropWhile (· = 46) using List.reverseRecOn with
  | nil => rfl
  | append_singleton t c ih =>
      rw [List.rdropWhile_concat]
      split
      · rename_i hc
        rw [ih, of_decide_eq_true hc, words_append_dot]
        exact (List.append_nil _).symm
      · rfl

/-- There is no word if there are only dots. -/
theorem words_eq_nil_iff (s : Bytes) : words s = [] ↔ ∀ b ∈ s, b = 46 := by
  induction s with
  | nil => exact ⟨fun _ => List.forall_mem_nil _, fun _ => rfl⟩
  | cons c s ih =>
      rw [List.forall_mem_cons, ← ih]
      by_cases hc : c = 46
      · have hwords : words (c :: s) = words s := by
          rw [hc]
          exact words_append_dot [] s
        rw [hwords]
        exact ⟨fun h => ⟨hc, h⟩, fun h => h.2⟩
      · exact ⟨fun h => absurd h (words_cons_of_ne hc s), fun h => absurd h.1 hc⟩

/-! ### Reading -/

/-- Empty fields are skipped. -/
theorem readFields_filter (tokens : List Bytes) :
    readFields tokens = readFields (tokens.filter (· ≠ [])) := by
  induction tokens with
  | nil => rfl
  | cons token tokens ih =>
      by_cases htoken : token = []
      · rw [readFields, if_pos htoken, ih, List.filter_cons_of_neg (by simpa using htoken)]
      · rw [List.filter_cons_of_pos (by simpa using htoken), readFields, readFields,
          if_neg htoken, if_neg htoken, ih]

/-- The constructor reads the words of a text. -/
theorem ofText_eq (s : Bytes) : ofText s = (readFields (words s)).map SnmpOid.mk := by
  rw [ofText]
  split
  · rename_i hs
    rw [hs]
    rfl
  · rw [readFields_filter, filter_getlines]

/-- A field that is read. -/
theorem readFields_cons {token : Bytes} {n : ℕ} (hnumeral : IsNumeral 10 token)
    (hvalue : numeral 10 token = n) (hn : n < 2 ^ 32) (tokens : List Bytes) :
    readFields (token :: tokens) = (readFields tokens).map (UInt32.ofNat n :: ·) := by
  have hread := stoul_numeral (t := []) hnumeral (by simp) (by omega)
  rw [List.append_nil, hvalue, if_neg (by rw [wordSize]; omega)] at hread
  rw [readFields, if_neg hnumeral.1, hread]

/-- Fields that are not empty have numbers. -/
theorem readFields_eq_nil {tokens : List Bytes} (h : readFields tokens = some [])
    (hne : ∀ token ∈ tokens, token ≠ []) : tokens = [] := by
  cases tokens with
  | nil => rfl
  | cons token tokens =>
      rw [readFields, if_neg (hne token List.mem_cons_self)] at h
      cases hread : stoul token 10 with
      | none =>
          rw [hread] at h
          cases h
      | some n =>
          rw [hread] at h
          obtain ⟨_, _, hcons⟩ := Option.map_eq_some_iff.mp h
          cases hcons

/-- A field that is a number. -/
theorem numberOf_eq_some {field : Bytes} {n : ℕ} (h : numberOf field = some n) :
    IsNumeral 10 field ∧ numeral 10 field = n ∧ n < 2 ^ 32 := by
  rw [numberOf, Option.ite_none_right_eq_some, Option.some.injEq] at h
  obtain ⟨⟨hnumeral, hlt⟩, rfl⟩ := h
  exact ⟨hnumeral, rfl, hlt⟩

/-- The pieces of a dotted list are read as its numbers. -/
theorem readFields_mapM {fields : List Bytes} {ns : List ℕ}
    (h : fields.mapM numberOf = some ns) :
    (∀ field ∈ fields, field ≠ []) ∧
      ∃ cs, readFields fields = some cs ∧ cs.map UInt32.toNat = ns := by
  induction fields generalizing ns with
  | nil =>
      rw [List.mapM_nil] at h
      cases h
      exact ⟨List.forall_mem_nil _, [], rfl, rfl⟩
  | cons field fields ih =>
      rw [List.mapM_cons] at h
      obtain ⟨n, hfield, h⟩ := Option.bind_eq_some_iff.mp h
      obtain ⟨ms, hfields, h⟩ := Option.bind_eq_some_iff.mp h
      cases h
      obtain ⟨hnumeral, hvalue, hn⟩ := numberOf_eq_some hfield
      obtain ⟨hne, cs, hcs, hmap⟩ := ih hfields
      refine ⟨List.forall_mem_cons.mpr ⟨hnumeral.1, hne⟩, UInt32.ofNat n :: cs, ?_, ?_⟩
      · rw [readFields_cons hnumeral hvalue hn, hcs]
        rfl
      · rw [List.map_cons, hmap, UInt32.toNat_ofNat', Nat.mod_eq_of_lt hn]

/-! ### The text of an identifier -/

/-- The text of a component is its numeral. -/
theorem numeral_componentText (c : UInt32) :
    IsNumeral 10 (componentText c) ∧ numeral 10 (componentText c) = c.toNat :=
  numeral_toString c.toNat

/-- The text of a component has no dot. -/
theorem dot_notMem_componentText (c : UInt32) : 46 ∉ componentText c := by
  intro hmem
  have hdigit := List.all_eq_true.mp (numeral_componentText c).1.2 46 hmem
  exact absurd hdigit (by decide)

/-- The fields of a text are its components. -/
theorem splitOn_toString (c : UInt32) (cs : List UInt32) :
    (componentText c ++ cs.flatMap fun c => 46 :: componentText c).splitOn 46 =
      (c :: cs).map componentText := by
  induction cs generalizing c with
  | nil =>
      rw [List.flatMap_nil, List.append_nil,
        List.splitOn_eq_singleton (dot_notMem_componentText c)]
      rfl
  | cons d cs ih =>
      rw [List.flatMap_cons, List.cons_append, List.splitOn_append_cons_self,
        List.splitOn_eq_singleton (dot_notMem_componentText c), ih d]
      rfl

/-- **Components are read back.** -/
theorem readFields_map_componentText (cs : List UInt32) :
    readFields (cs.map componentText) = some cs := by
  induction cs with
  | nil => rfl
  | cons c cs ih =>
      obtain ⟨hnumeral, hvalue⟩ := numeral_componentText c
      rw [List.map_cons, readFields_cons hnumeral hvalue c.toNat_lt, ih, UInt32.ofNat_toNat]
      rfl

/-- **An identifier is read again** from its own text. -/
theorem ofText_toString (oid : SnmpOid) : ofText oid.toString = some oid := by
  obtain ⟨components⟩ := oid
  cases components with
  | nil => rfl
  | cons c cs =>
      have hne : ∀ field ∈ (c :: cs).map componentText, decide (field ≠ []) = true := by
        intro field hfield
        obtain ⟨d, -, rfl⟩ := List.mem_map.mp hfield
        exact decide_eq_true (numeral_componentText d).1.1
      rw [ofText_eq, toString, words, splitOn_toString, List.filter_eq_self.mpr hne,
        readFields_map_componentText]
      rfl

/-! ### The promise of the header -/

/-- What the constructor makes of a dotted list between dots. -/
theorem ofText_of_numbersOf {s : Bytes} {ns : List ℕ} (h : numbersOf (strip s) = some ns) :
    ∃ oid, ofText s = some oid ∧ oid.components.map UInt32.toNat = ns := by
  obtain ⟨hne, cs, hcs, hmap⟩ := readFields_mapM h
  have hwords : words (strip s) = (strip s).splitOn 46 :=
    List.filter_eq_self.mpr fun field hfield => decide_eq_true (hne field hfield)
  refine ⟨⟨cs⟩, ?_, hmap⟩
  rw [ofText_eq, ← words_strip, hwords, hcs]
  rfl

/-- An empty identifier has been read from nothing but dots. -/
theorem ofText_eq_empty_iff (s : Bytes) : ofText s = some {} ↔ ∀ b ∈ s, b = 46 := by
  rw [← words_eq_nil_iff, ofText_eq]
  refine ⟨fun h => ?_, fun h => by rw [h]; rfl⟩
  obtain ⟨cs, hread, hcs⟩ := Option.map_eq_some_iff.mp h
  cases hcs
  exact readFields_eq_nil hread fun token htoken =>
    of_decide_eq_true (List.mem_filter.mp htoken).2

/-- **The text form.** An identifier is read again from its text; and the constructor neither throws
nor yields other numbers than those of the text exactly when the text is made of nothing but dots or
is a dotted list of decimal numbers below 2 ^ 32 between dots. -/
theorem text_form (oid : SnmpOid) (s : Bytes) :
    ofText oid.toString = some oid ∧
      (Exact s ↔ (∀ b ∈ s, b = 46) ∨ (numbersOf (strip s)).isSome = true) := by
  refine ⟨ofText_toString oid, ⟨?_, ?_⟩⟩
  · rintro ⟨oid, hread, hempty | hnumbers⟩
    · rw [eq_empty_of_not_isValid hempty] at hread
      exact Or.inl ((ofText_eq_empty_iff s).mp hread)
    · exact Or.inr (Option.isSome_of_eq_some hnumbers)
  · rintro (hdots | hsome)
    · exact ⟨{}, (ofText_eq_empty_iff s).mpr hdots, Or.inl rfl⟩
    · obtain ⟨ns, hns⟩ := Option.isSome_iff_exists.mp hsome
      obtain ⟨oid, hread, hmap⟩ := ofText_of_numbersOf hns
      exact ⟨oid, hread, Or.inr (hns.trans (congrArg some hmap.symm))⟩

/-- A word that is no number throws, and a number of 33 bits addresses another object: the text
`1..4294967299` is read as `1.3`. -/
theorem inexact_texts :
    ofText (bytes "1.x") = none ∧ ¬Exact (bytes "1.x") ∧
      ofText (bytes "1..4294967299") = some ⟨[1, 3]⟩ ∧ ¬Exact (bytes "1..4294967299") := by
  have hthrows : ofText (bytes "1.x") = none := by decide
  have hnarrowed : ofText (bytes "1..4294967299") = some ⟨[1, 3]⟩ := by decide +kernel
  refine ⟨hthrows, ?_, hnarrowed, ?_⟩
  · rintro ⟨oid, hread, -⟩
    rw [hthrows] at hread
    cases hread
  · rintro ⟨oid, hread, hexact⟩
    rw [hnarrowed] at hread
    cases hread
    revert hexact
    decide +kernel

end SnmpOid

end SimplyNode
