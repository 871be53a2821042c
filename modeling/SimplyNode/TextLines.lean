import SimplyNode.HttpRequest
import Mathlib.Data.List.TakeWhile

/-!
# Words and Lines

What the readers of a text make of one that has been put together: words with white space between
them, fields with a separator behind them, and lines with their ends. A text is cut at every line
end, and the lines of two texts with a line end between them are those of the first and those of the
second. A blank line is where one line end follows another.

## Main results

* `nextWord_append`, `getlines_append`, `nextLine_line`: a word, a field and a line are read again.
* `lines_append`: the lines of two texts.
* `cutBlank_iff`: the first blank line.
-/

namespace SimplyNode

namespace Text

/-! ### Words -/

/-- A text without white space. -/
def Solid (s : Bytes) : Prop := s ≠ [] ∧ ∀ c ∈ s, isspace c = false

/-- A word, as a test. -/
theorem solid_iff {s : Bytes} : s ≠ [] ∧ s.all (fun c => !isspace c) = true ↔ Solid s := by
  simp only [Solid, List.all_eq_true, Bool.not_eq_true']

instance instDecidablePredSolid : DecidablePred Solid := fun _ => decidable_of_iff _ solid_iff

/-- A word has no blank. -/
theorem Solid.notMem {s : Bytes} (h : Solid s) {c : UInt8} (hc : isspace c = true) : c ∉ s :=
  fun hmem => absurd (h.2 c hmem) (by rw [hc]; exact Bool.noConfusion)

/-- A digit is no blank. -/
theorem isspace_of_isDigit {c : Char} (h : c.isDigit = true) :
    isspace c.val.toUInt8 = false := by
  rw [Char.isDigit, Bool.and_eq_true, decide_eq_true_eq, decide_eq_true_eq] at h
  obtain ⟨hlow, hhigh⟩ := h
  have hlow : 48 ≤ c.val.toNat := UInt32.le_iff_toNat_le.mp hlow
  have hhigh : c.val.toNat ≤ 57 := UInt32.le_iff_toNat_le.mp hhigh
  have hval : c.val.toUInt8.toNat = c.val.toNat := by
    rw [UInt32.toNat_toUInt8]
    omega
  simp only [isspace, Bool.or_eq_false_iff, Bool.and_eq_false_iff, decide_eq_false_iff_not,
    UInt8.le_iff_toNat_le, ← UInt8.toNat_inj, hval]
  refine ⟨fun heq => ?_, Or.inr fun hle => ?_⟩
  · have hn : c.val.toNat = 32 := heq
    omega
  · have hn : c.val.toNat ≤ 13 := hle
    omega

/-- A number is a word. -/
theorem solid_toString (n : ℕ) : Solid (bytes (toString n)) := by
  have hdigits : (toString n).toList = Nat.toDigits 10 n := String.toList_ofList
  rw [bytes, hdigits]
  refine ⟨?_, fun c hc => ?_⟩
  · rw [Ne, List.map_eq_nil_iff]
    exact Nat.toDigits_ne_nil
  · obtain ⟨d, hd, rfl⟩ := List.mem_map.mp hc
    exact isspace_of_isDigit (Nat.isDigit_of_mem_toDigits (by decide) (by decide) hd)

/-- A word in front of a word. -/
theorem Solid.append {a b : Bytes} (ha : ∀ c ∈ a, isspace c = false) (hb : Solid b) :
    Solid (a ++ b) := by
  refine ⟨List.append_ne_nil_of_right_ne_nil a hb.1, fun c hc => ?_⟩
  exact (List.mem_append.mp hc).elim (ha c) (hb.2 c)

/-- A signed number is a word. -/
theorem solid_toString_int (n : ℤ) : Solid (bytes (toString n)) := by
  cases n with
  | ofNat n => exact solid_toString n
  | negSucc n =>
      have hsign : bytes (toString (Int.negSucc n)) = bytes "-" ++ bytes (toString (n + 1)) := by
        rw [bytes, bytes, bytes, ← List.map_append, ← String.toList_append]
        rfl
      rw [hsign]
      exact Solid.append (by decide : Solid (bytes "-")).2 (solid_toString (n + 1))

/-- What is dropped in front. -/
theorem dropWhile_append {p : UInt8 → Bool} {a b : Bytes} (ha : ∀ c ∈ a, p c = true)
    (hb : ∀ c ∈ b.head?, p c = false) : (a ++ b).dropWhile p = b := by
  induction a with
  | nil =>
      cases b with
      | nil => rfl
      | cons c b => exact List.dropWhile_cons_of_neg (by simp [hb c rfl])
  | cons c a ih =>
      rw [List.cons_append, List.dropWhile_cons_of_pos (ha c List.mem_cons_self)]
      exact ih fun d hd => ha d (List.mem_cons_of_mem c hd)

/-- What is dropped at both ends of a text that begins and ends with something else. -/
theorem dropWhile_both {p : UInt8 → Bool} {a s b : Bytes} (ha : ∀ c ∈ a, p c = true)
    (hb : ∀ c ∈ b, p c = true) (hhead : ∀ c ∈ s.head?, p c = false)
    (hlast : ∀ c ∈ s.getLast?, p c = false) :
    (((a ++ s ++ b).dropWhile p).reverse.dropWhile p).reverse = s := by
  rcases eq_or_ne s [] with rfl | hne
  · have hall : ∀ c ∈ a ++ b, p c = true := fun c hc =>
      (List.mem_append.mp hc).elim (ha c) (hb c)
    have hdrop : (a ++ b).dropWhile p = [] := List.dropWhile_eq_nil_iff.mpr hall
    rw [List.append_nil, hdrop]
    rfl
  · have hfront : (a ++ s ++ b).dropWhile p = s ++ b := by
      rw [List.append_assoc]
      refine dropWhile_append ha ?_
      rwa [List.head?_append_of_ne_nil _ hne]
    rw [hfront, List.reverse_append, dropWhile_append, List.reverse_reverse]
    · exact fun c hc => hb c (List.mem_reverse.mp hc)
    · rwa [List.head?_reverse]

/-- A blank and a word. -/
theorem trim_word {s : Bytes} (h : Solid s) : trim (32 :: s) = s := by
  have hblank (c : UInt8) (hc : isspace c = false) : (c = 32 || c = 9) = false := by
    rw [isspace, Bool.or_eq_false_iff] at hc
    rw [Bool.or_eq_false_iff]
    refine ⟨hc.1, decide_eq_false ?_⟩
    rintro rfl
    exact absurd hc.2 (by decide)
  have htrim := dropWhile_both (p := fun c => c = 32 || c = 9) (a := [32]) (b := [])
    (List.forall_mem_singleton.mpr rfl) (List.forall_mem_nil _)
    (fun c hc => hblank c (h.2 c (List.mem_of_mem_head? hc)))
    (fun c hc => hblank c (h.2 c (List.mem_of_mem_getLast? hc)))
  rwa [List.append_nil] at htrim

/-- What is taken in front. -/
theorem takeWhile_append {p : UInt8 → Bool} {a b : Bytes} (ha : ∀ c ∈ a, p c = true)
    (hb : ∀ c ∈ b.head?, p c = false) : (a ++ b).takeWhile p = a := by
  induction a with
  | nil =>
      cases b with
      | nil => rfl
      | cons c b => exact List.takeWhile_cons_of_neg (by simp [hb c rfl])
  | cons c a ih =>
      rw [List.cons_append, List.takeWhile_cons_of_pos (ha c List.mem_cons_self)]
      exact congrArg (c :: ·) (ih fun d hd => ha d (List.mem_cons_of_mem c hd))

/-- A word between white space. -/
theorem nextWord_append {a word b : Bytes} (ha : ∀ c ∈ a, isspace c = true) (hword : Solid word)
    (hb : ∀ c ∈ b.head?, isspace c = true) : nextWord (a ++ word ++ b) = some (word, b) := by
  have hhead : ∀ c ∈ (word ++ b).head?, isspace c = false := by
    rw [List.head?_append_of_ne_nil _ hword.1]
    exact fun c hc => hword.2 c (List.mem_of_mem_head? hc)
  have hsolid : ∀ c ∈ word, (!isspace c) = true := fun c hc => by rw [hword.2 c hc]; rfl
  have hend : ∀ c ∈ b.head?, (!isspace c) = false := fun c hc => by rw [hb c hc]; rfl
  have hne : word ++ b ≠ [] := fun h => hword.1 (List.append_eq_nil_iff.mp h).1
  rw [nextWord, List.append_assoc, dropWhile_append ha hhead]
  simp only [if_neg hne, takeWhile_append hsolid hend, dropWhile_append hsolid hend]

/-- A line in front of a separator. -/
theorem getlines_append {sep : UInt8} {line : Bytes} (h : sep ∉ line) (rest : Bytes) :
    getlines sep (line ++ sep :: rest) = line :: getlines sep rest := by
  induction line with
  | nil => rw [List.nil_append, getlines, if_pos rfl]
  | cons c line ih =>
      have hc : c ≠ sep := fun heq => h (heq ▸ List.mem_cons_self)
      rw [List.cons_append, getlines, if_neg hc, ih fun hmem => h (List.mem_cons_of_mem c hmem)]

/-- A text is cut at the first separator. -/
theorem cutAt_append {sep : UInt8} {a : Bytes} (h : sep ∉ a) (b : Bytes) :
    cutAt sep (a ++ sep :: b) = some (a, b) := by
  have ha : ∀ c ∈ a, (decide (c ≠ sep)) = true := fun c hc =>
    decide_eq_true fun heq => h (heq ▸ hc)
  have hsep : ∀ c ∈ (sep :: b).head?, (decide (c ≠ sep)) = false := by simp
  have hmem : sep ∈ a ++ sep :: b := by simp
  rw [cutAt, if_pos hmem, takeWhile_append ha hsep, dropWhile_append ha hsep]
  rfl

/-! ### C strings -/

/-- What a function reads through `c_str()`. -/
def cString (s : Bytes) : Bytes := s.takeWhile (· ≠ 0)

/-- A text without a zero byte is a string of C. -/
theorem cString_eq_self_iff {s : Bytes} : cString s = s ↔ 0 ∉ s := by
  rw [cString, List.takeWhile_eq_self_iff]
  refine ⟨fun h hmem => ?_, fun h c hc => decide_eq_true fun hzero => h (hzero ▸ hc)⟩
  exact of_decide_eq_true (h 0 hmem) rfl

/-- A text is cut at its first zero byte. -/
theorem cString_append_zero {s : Bytes} (h : 0 ∉ s) (rest : Bytes) :
    cString (s ++ 0 :: rest) = s :=
  takeWhile_append (fun c hc => decide_eq_true fun hzero => h (hzero ▸ hc)) (by simp)

/-- A string of C in front. -/
theorem cString_append {s : Bytes} (h : 0 ∉ s) (rest : Bytes) :
    cString (s ++ rest) = s ++ cString rest := by
  have hall : ∀ c ∈ s, decide (c ≠ 0) = true := fun c hc =>
    decide_eq_true fun hzero => h (hzero ▸ hc)
  exact List.takeWhile_append_of_pos hall

/-! ### Lines -/

/-- A line that holds no line end is read as it is. -/
theorem nextLine_line {line : Bytes} (h : nextLine line = none) (rest : Bytes) :
    nextLine (line ++ 13 :: 10 :: rest) = some (line, rest) := by
  induction line using nextLine.induct with
  | case1 c d s hcd =>
      rw [nextLine, if_pos hcd] at h
      cases h
  | case2 c d s hcd ih =>
      rw [nextLine, if_neg hcd, Option.map_eq_none_iff] at h
      have hnext := ih h
      rw [List.cons_append] at hnext
      rw [List.cons_append, List.cons_append, nextLine, if_neg hcd, hnext]
      rfl
  | case3 s hs =>
      cases s with
      | nil => rfl
      | cons c s =>
          cases s with
          | nil =>
              have hc : ¬(c = 13 ∧ (13 : UInt8) = 10) := by simp
              rw [List.cons_append, List.nil_append, nextLine, if_neg hc]
              rfl
          | cons d s => exact absurd rfl (hs c d s)

/-- A text without a carriage return holds no line end. -/
theorem nextLine_of_notMem {s : Bytes} (h : 13 ∉ s) : nextLine s = none := by
  induction s using nextLine.induct with
  | case1 c d s hcd => exact absurd (hcd.1 ▸ List.mem_cons_self) h
  | case2 c d s hcd ih =>
      rw [nextLine, if_neg hcd, ih fun hmem => h (List.mem_cons_of_mem c hmem)]
      rfl
  | case3 s hs => rw [nextLine]; exact hs

/-- The line that is read holds no line end. -/
theorem nextLine_of_line {b line rest : Bytes} (h : nextLine b = some (line, rest)) :
    nextLine line = none := by
  have hcut := nextLine_cut h
  cases hline : nextLine line with
  | none => rfl
  | some found =>
      obtain ⟨line', rest'⟩ := found
      rw [nextLine_append hline, Option.some.injEq, Prod.mk.injEq] at hcut
      exact absurd hcut.2 (List.append_ne_nil_of_right_ne_nil _ (by decide))

/-- The lines of a text: it is cut at every line end. -/
def lines (b : Bytes) : List Bytes :=
  match _h : nextLine b with
  | none => [b]
  | some (line, rest) => line :: lines rest
termination_by b.length
decreasing_by exact length_of_nextLine _h

/-- A text without a line end is one line. -/
theorem lines_line {b : Bytes} (h : nextLine b = none) : lines b = [b] := by
  rw [lines]
  split
  · rfl
  · rw [h] at *
    cases ‹none = some _›

/-- The first line, and the others. -/
theorem lines_next {b line rest : Bytes} (h : nextLine b = some (line, rest)) :
    lines b = line :: lines rest := by
  rw [lines]
  split
  · rw [h] at *
    cases ‹some _ = none›
  · rename_i heq
    rw [h] at heq
    cases heq
    rfl

/-- **The lines of two texts** with a line end between them. -/
theorem lines_append (x y : Bytes) : lines (x ++ 13 :: 10 :: y) = lines x ++ lines y := by
  induction x using lines.induct with
  | case1 x h => rw [lines_next (nextLine_line h y), lines_line h, List.singleton_append]
  | case2 x line rest h ih =>
      rw [lines_next (nextLine_append h _), ih, lines_next h, List.cons_append]

/-- The texts in front of the first blank line and behind it. -/
def cutBlank : Bytes → Option (Bytes × Bytes)
  | [] => none
  | c :: s =>
      if [13, 10, 13, 10].isPrefixOf (c :: s) then some ([], s.drop 3)
      else (cutBlank s).map fun p => (c :: p.1, p.2)

/-- The first blank line is behind the first line, or it is the first one of the rest. -/
theorem cutBlank_next {b line rest : Bytes} (h : nextLine b = some (line, rest)) :
    cutBlank b = if [13, 10] <+: rest then some (line, rest.drop 2)
      else (cutBlank rest).map fun p => (line ++ 13 :: 10 :: p.1, p.2) := by
  induction b using nextLine.induct generalizing line with
  | case1 c d s hcd =>
      obtain ⟨rfl, rfl⟩ := hcd
      cases h
      have hstarts : [13, 10, 13, 10].isPrefixOf (13 :: 10 :: rest) = true ↔ [13, 10] <+: rest := by
        rw [List.isPrefixOf_iff_prefix, List.cons_prefix_cons, List.cons_prefix_cons]
        simp
      rw [cutBlank]
      by_cases hblank : [13, 10] <+: rest
      · rw [if_pos (hstarts.mpr hblank), if_pos hblank]
        rfl
      · have hlater : cutBlank (10 :: rest) = (cutBlank rest).map fun p => (10 :: p.1, p.2) := by
          rw [cutBlank, if_neg (by simp [List.isPrefixOf])]
        rw [if_neg (mt hstarts.mp hblank), if_neg hblank, hlater, Option.map_map]
        rfl
  | case2 c d s hcd ih =>
      rw [nextLine, if_neg hcd, Option.map_eq_some_iff] at h
      obtain ⟨⟨line', rest'⟩, hline, heq⟩ := h
      obtain ⟨rfl, rfl⟩ := Prod.mk.inj heq
      have hstarts : ¬[13, 10, 13, 10].isPrefixOf (c :: d :: s) = true := by
        rw [List.isPrefixOf_iff_prefix, List.cons_prefix_cons, List.cons_prefix_cons]
        rintro ⟨rfl, rfl, -⟩
        exact hcd ⟨rfl, rfl⟩
      rw [cutBlank, if_neg hstarts, ih hline]
      split
      · rfl
      · rw [Option.map_map]
        rfl
  | case3 s hs =>
      rw [nextLine] at h
      · cases h
      · exact hs

/-- What is in front of a blank line and behind it. -/
theorem cutBlank_eq_append {b head rest : Bytes} (h : cutBlank b = some (head, rest)) :
    b = head ++ 13 :: 10 :: 13 :: 10 :: rest := by
  induction b generalizing head with
  | nil => cases h
  | cons c s ih =>
      rw [cutBlank] at h
      split at h
      · rename_i hstarts
        obtain ⟨t, ht⟩ := List.isPrefixOf_iff_prefix.mp hstarts
        obtain ⟨rfl, rfl⟩ := Prod.mk.inj (Option.some.inj h)
        obtain ⟨rfl, rfl⟩ := List.cons.inj ht
        rfl
      · obtain ⟨⟨head', rest'⟩, hcut, heq⟩ := Option.map_eq_some_iff.mp h
        obtain ⟨rfl, rfl⟩ := Prod.mk.inj heq
        exact congrArg (c :: ·) (ih hcut)

/-- The head of a text with a line end behind it. -/
theorem crlf_prefix_iff (s rest : Bytes) :
    [13, 10] <+: s ++ 13 :: 10 :: rest ↔ s = [] ∨ [13, 10] <+: s := by
  cases s with
  | nil => simp
  | cons c s =>
      cases s with
      | nil => simp [List.cons_prefix_cons]
      | cons d s => simp [List.cons_prefix_cons]

/-- The first line of a text is empty. -/
theorem head_lines_iff (s : Bytes) : (lines s).head? = some [] ↔ s = [] ∨ [13, 10] <+: s := by
  cases h : nextLine s with
  | none =>
      rw [lines_line h, List.head?_cons, Option.some.injEq]
      constructor
      · exact Or.inl
      · rintro (hnil | ⟨t, rfl⟩)
        · exact hnil
        · cases h
  | some found =>
      obtain ⟨line, rest⟩ := found
      rw [lines_next h, List.head?_cons, Option.some.injEq]
      constructor
      · rintro rfl
        rw [nextLine_eq_append h]
        exact Or.inr (List.prefix_append [13, 10] rest)
      · rintro (rfl | ⟨t, rfl⟩)
        · cases h
        · cases h
          rfl

/-- **The first blank line** is behind a text if no line of it, its first one apart, is empty. -/
theorem cutBlank_iff (head rest : Bytes) :
    cutBlank (head ++ 13 :: 10 :: 13 :: 10 :: rest) = some (head, rest) ↔
      [] ∉ (lines head).tail := by
  induction head using lines.induct with
  | case1 head h =>
      have hblank : [13, 10] <+: 13 :: 10 :: rest := List.prefix_append [13, 10] rest
      rw [cutBlank_next (nextLine_line h _), if_pos hblank, lines_line h]
      exact iff_of_true rfl List.not_mem_nil
  | case2 head line later h ih =>
      have hlater := crlf_prefix_iff later (13 :: 10 :: rest)
      rw [cutBlank_next (nextLine_append h _), lines_next h, List.tail_cons]
      have hhead := nextLine_eq_append h
      by_cases hempty : (lines later).head? = some []
      · -- the line behind the first one is blank
        rw [if_pos (hlater.mpr ((head_lines_iff later).mp hempty))]
        refine iff_of_false ?_ (not_not.mpr (List.mem_of_mem_head? hempty))
        intro heq
        have hlength := congrArg List.length (Prod.mk.inj (Option.some.inj heq)).1
        rw [hhead, List.length_append, List.length_cons] at hlength
        omega
      · rw [if_neg (mt hlater.mp (mt (head_lines_iff later).mpr hempty))]
        have hmem : [] ∉ (lines later).tail ↔ [] ∉ lines later := by
          cases hlines : lines later with
          | nil => rfl
          | cons first others =>
              rw [hlines, List.head?_cons, Option.some.injEq] at hempty
              rw [List.tail_cons, List.mem_cons, not_or]
              exact ⟨fun hno => ⟨fun heq => hempty heq.symm, hno⟩, fun hno => hno.2⟩
        rw [← hmem, ← ih, Option.map_eq_some_iff]
        constructor
        · rintro ⟨⟨head', rest'⟩, hcut, heq⟩
          obtain ⟨hline, rfl⟩ := Prod.mk.inj heq
          rw [hhead] at hline
          have hsame := List.append_cancel_left hline
          rw [List.cons.injEq, List.cons.injEq] at hsame
          obtain rfl : head' = later := hsame.2.2
          exact hcut
        · intro hcut
          exact ⟨(later, rest), hcut, by rw [← hhead]⟩

end Text

end SimplyNode
