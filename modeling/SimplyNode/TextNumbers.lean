import SimplyNode.TextLines
import Mathlib.Data.Nat.Digits.Defs

/-!
# Numbers in a Text

A numeral is a text of digits in some base. `std::stoul` reads the numeral that a text begins with,
behind white space, a sign and a prefix, and does not look at what is behind it.

## Main results

* `stoul_numeral`: a numeral is read as its value, whatever follows it.
* `numeral_hexSize`, `numeral_toString`: a number that has been written in base 16 or 10.
-/

namespace SimplyNode

namespace Text

/-- A digit in a base. -/
def isDigitIn (base : ℕ) (c : UInt8) : Bool := (digitValue c).any (· < base)

/-- A text of digits. -/
def IsNumeral (base : ℕ) (s : Bytes) : Prop := s ≠ [] ∧ s.all (isDigitIn base) = true

instance instDecidableIsNumeral (base : ℕ) (s : Bytes) : Decidable (IsNumeral base s) :=
  inferInstanceAs (Decidable (s ≠ [] ∧ s.all (isDigitIn base) = true))

/-- The value of the numeral that a text begins with. -/
def numeral (base : ℕ) (s : Bytes) : ℕ := (digits base s).foldl (fun n d => base * n + d) 0

/-- A digit in a base has a value below it. -/
theorem exists_digitValue {base : ℕ} {c : UInt8} (h : isDigitIn base c = true) :
    ∃ d, digitValue c = some d ∧ d < base := by
  obtain ⟨d, hd, hlt⟩ := (Option.any_eq_true _ _).mp h
  exact ⟨d, hd, of_decide_eq_true hlt⟩

/-- The digits of a text that begins with one. -/
theorem digits_cons {base : ℕ} {c : UInt8} {d : ℕ} (hd : digitValue c = some d) (hlt : d < base)
    (s : Bytes) : digits base (c :: s) = d :: digits base s := by
  rw [digits, hd]
  exact if_pos hlt

/-- A text that does not begin with a digit has none. -/
theorem digits_of_not {base : ℕ} {s : Bytes} (h : ∀ c ∈ s.head?, isDigitIn base c = false) :
    digits base s = [] := by
  cases s with
  | nil => rfl
  | cons c s =>
      have hc := h c rfl
      rw [isDigitIn] at hc
      rw [digits]
      cases hd : digitValue c with
      | none => rfl
      | some d =>
          rw [hd, Option.any_some, decide_eq_false_iff_not] at hc
          exact if_neg hc

/-- The digits of a numeral, whatever follows it. -/
theorem digits_append {base : ℕ} {s t : Bytes} (hs : s.all (isDigitIn base) = true)
    (ht : ∀ c ∈ t.head?, isDigitIn base c = false) : digits base (s ++ t) = digits base s := by
  induction s with
  | nil => exact digits_of_not ht
  | cons c s ih =>
      rw [List.all_cons, Bool.and_eq_true] at hs
      obtain ⟨d, hd, hlt⟩ := exists_digitValue hs.1
      rw [List.cons_append, digits_cons hd hlt, digits_cons hd hlt, ih hs.2]

/-- The digits go on behind a text of digits. -/
theorem digits_append_of_all {base : ℕ} {s : Bytes} (hs : s.all (isDigitIn base) = true)
    (t : Bytes) : digits base (s ++ t) = digits base s ++ digits base t := by
  induction s with
  | nil => rfl
  | cons c s ih =>
      rw [List.all_cons, Bool.and_eq_true] at hs
      obtain ⟨d, hd, hlt⟩ := exists_digitValue hs.1
      rw [List.cons_append, digits_cons hd hlt, digits_cons hd hlt, ih hs.2, List.cons_append]

/-- A numeral has digits. -/
theorem digits_ne_nil {base : ℕ} {s : Bytes} (h : IsNumeral base s) : digits base s ≠ [] := by
  cases s with
  | nil => exact absurd rfl h.1
  | cons c s =>
      have hall := h.2
      rw [List.all_cons, Bool.and_eq_true] at hall
      obtain ⟨d, hd, hlt⟩ := exists_digitValue hall.1
      rw [digits_cons hd hlt]
      exact List.cons_ne_nil _ _

/-- A digit is no white space and no sign. -/
theorem digit_ne {base : ℕ} {c : UInt8} (h : isDigitIn base c = true) :
    isspace c = false ∧ c ≠ 45 ∧ c ≠ 43 := by
  obtain ⟨d, hd, -⟩ := exists_digitValue h
  have hge : 48 ≤ c.toNat := by
    by_contra hlt
    rw [digitValue] at hd
    simp only [UInt8.le_iff_toNat_le, Bool.and_eq_true, decide_eq_true_eq, UInt8.reduceToNat] at hd
    split at hd
    · omega
    · split at hd
      · omega
      · split at hd
        · omega
        · cases hd
  refine ⟨?_, ?_, ?_⟩
  · rw [isspace, Bool.or_eq_false_iff, Bool.and_eq_false_iff, decide_eq_false_iff_not,
      decide_eq_false_iff_not, decide_eq_false_iff_not]
    refine ⟨?_, Or.inr ?_⟩
    · rintro rfl
      exact absurd hge (by decide)
    · intro hle
      have hsmall : c.toNat ≤ 13 := UInt8.le_iff_toNat_le.mp hle
      omega
  · rintro rfl
    exact absurd hge (by decide)
  · rintro rfl
    exact absurd hge (by decide)

/-- There is no prefix where the second character is none. -/
theorem skipBasePrefix_eq {base : ℕ} {s : Bytes}
    (h : base = 16 → ∀ c ∈ s.tail.head?, tolower c ≠ 120) : skipBasePrefix base s = s := by
  cases s with
  | nil => rfl
  | cons c s =>
      cases s with
      | nil => rfl
      | cons x s =>
          rw [skipBasePrefix]
          refine if_neg ?_
          rintro ⟨hbase, -, hx, -⟩
          exact h hbase x rfl hx

/-- **A numeral is read as its value**, whatever follows it. -/
theorem stoul_numeral {base : ℕ} {s t : Bytes} (hs : IsNumeral base s)
    (ht : ∀ c ∈ t.head?, isDigitIn base c = false)
    (hx : base = 16 → ∀ c ∈ (s ++ t).tail.head?, tolower c ≠ 120) :
    stoul (s ++ t) base = if wordSize ≤ numeral base s then none else some (numeral base s) := by
  cases s with
  | nil => exact absurd rfl hs.1
  | cons c s =>
      have hall := hs.2
      rw [List.all_cons, Bool.and_eq_true] at hall
      obtain ⟨hspace, hminus, hplus⟩ := digit_ne hall.1
      have hdrop : (c :: s ++ t).dropWhile isspace = c :: s ++ t :=
        List.dropWhile_cons_of_neg (by rw [hspace]; exact Bool.false_ne_true)
      have hdigits := digits_append hs.2 ht
      have hne : ¬digits base (c :: s) = [] := digits_ne_nil hs
      rw [stoul, hdrop]
      simp only [List.cons_append, List.head?_cons, Option.some.injEq, hminus, hplus, decide_false,
        Bool.or_self, Bool.false_eq_true, if_false]
      rw [← List.cons_append, skipBasePrefix_eq hx, hdigits, if_neg hne]
      rfl

/-! ### Numbers that have been written -/

/-- A digit as it is written in base 16. -/
def hexDigit (d : ℕ) : UInt8 := if d < 10 then UInt8.ofNat (48 + d) else UInt8.ofNat (87 + d)

/-- A number as it is written in base 16. -/
def hexSize (n : ℕ) : Bytes := if n = 0 then [48] else (Nat.digits 16 n).reverse.map hexDigit

/-- A digit that has been written is read back. -/
theorem digitValue_hexDigit {d : ℕ} (h : d < 16) : digitValue (hexDigit d) = some d := by
  have hall : ∀ d < 16, digitValue (hexDigit d) = some d := by decide +kernel
  exact hall d h

/-- Digits that have been written are read back. -/
theorem digits_map_hexDigit {ds : List ℕ} (h : ∀ d ∈ ds, d < 16) :
    digits 16 (ds.map hexDigit) = ds := by
  induction ds with
  | nil => rfl
  | cons d ds ih =>
      have hd := h d List.mem_cons_self
      rw [List.map_cons, digits_cons (digitValue_hexDigit hd) hd,
        ih fun e he => h e (List.mem_cons_of_mem d he)]

/-- **A number that has been written** is read again. -/
theorem numeral_hexSize (n : ℕ) : IsNumeral 16 (hexSize n) ∧ numeral 16 (hexSize n) = n := by
  rw [hexSize]
  split
  · rename_i hzero
    rw [hzero]
    decide
  · rename_i hne
    have hlt : ∀ d ∈ (Nat.digits 16 n).reverse, d < 16 := fun d hd =>
      Nat.digits_lt_base (by decide) (List.mem_reverse.mp hd)
    refine ⟨⟨?_, ?_⟩, ?_⟩
    · rw [ne_eq, List.map_eq_nil_iff, List.reverse_eq_nil_iff]
      exact Nat.digits_ne_nil_iff_ne_zero.mpr hne
    · rw [List.all_eq_true]
      intro c hc
      obtain ⟨d, hd, rfl⟩ := List.mem_map.mp hc
      rw [isDigitIn, digitValue_hexDigit (hlt d hd)]
      exact decide_eq_true (hlt d hd)
    · rw [numeral, digits_map_hexDigit hlt, List.foldl_reverse]
      have hvalue := Nat.ofDigits_digits 16 n
      rw [Nat.ofDigits_eq_foldr] at hvalue
      refine Eq.trans ?_ hvalue
      congr 1
      funext d m
      rw [Nat.cast_id, Nat.add_comm]

/-- The decimal text of a number, by its digits. -/
theorem toDigits_bytes (n : ℕ) : bytes (toString n) =
    (Nat.toDigits 10 n).map fun c => c.val.toUInt8 := by
  rw [bytes, Nat.toString_eq_ofList_toDigits, String.toList_ofList]

/-- The character of a decimal digit has its value. -/
theorem digitValue_digitChar {d : ℕ} (h : d < 10) :
    digitValue d.digitChar.val.toUInt8 = some d := by
  have hall : ∀ d < 10, digitValue d.digitChar.val.toUInt8 = some d := by decide
  exact hall d h

/-- A number that has been written in base 10 is read again. -/
theorem numeral_toString (n : ℕ) :
    IsNumeral 10 (bytes (toString n)) ∧ numeral 10 (bytes (toString n)) = n := by
  rw [toDigits_bytes]
  induction n using Nat.strong_induction_on with
  | _ n ih =>
      rcases lt_or_ge n 10 with hlt | hge
      · have hvalue := digitValue_digitChar hlt
        rw [Nat.toDigits_of_lt_base hlt, List.map_singleton]
        refine ⟨⟨List.cons_ne_nil _ _, ?_⟩, ?_⟩
        · rw [List.all_cons, isDigitIn, hvalue, Option.any_some, decide_eq_true hlt]
          rfl
        · rw [numeral, digits_cons hvalue hlt]
          exact Nat.zero_add n
      · have hlast : n % 10 < 10 := Nat.mod_lt _ (by omega)
        have hvalue := digitValue_digitChar hlast
        obtain ⟨⟨hne, hall⟩, hnum⟩ := ih (n / 10) (by omega)
        rw [Nat.toDigits_of_base_le (by omega) hge, List.map_append, List.map_singleton]
        refine ⟨⟨List.append_ne_nil_of_left_ne_nil hne _, ?_⟩, ?_⟩
        · rw [List.all_append, hall, List.all_cons, isDigitIn, hvalue, Option.any_some,
            decide_eq_true hlast]
          rfl
        · have hdigits : digits 10 [(n % 10).digitChar.val.toUInt8] = [n % 10] :=
            digits_cons hvalue hlast []
          rw [numeral, digits_append_of_all hall, hdigits, List.foldl_append]
          rw [numeral] at hnum
          rw [hnum, List.foldl_cons, List.foldl_nil]
          omega

end Text

end SimplyNode
