import Mathlib.Data.List.Induction
import SimplyNode.SqlTableModel
import SimplyNode.TextLines

/-!
# Literals in a Statement

What a database makes of the literals that `SqlTableModel` builds. A driver hands the text of a
statement over as a C string. The lexer of SQLite knows one escape, a quote that is doubled; that of
MySQL also reads a backslash and the byte behind it as one character, or as two where that byte is
`%` or `_`. Both lexers are stated here as they are documented.

## Main results

* `weight_readQuoted`: a literal is not shorter than what it has been read as.
* `literal_reads_iff`: the literal of a text is read as that text, and the statement goes on behind
  it, exactly for the texts without a zero byte and, on MySQL, without a backslash that escapes.
-/

namespace SimplyNode

open Text

/-! ### Lexers -/

/-- The database behind a model. -/
inductive Backend
  | sqlite
  | mysql
  deriving DecidableEq

/-- What a backslash and a byte stand for in a string of MySQL. -/
def escaped (c : UInt8) : Bytes :=
  if c = 48 then [0]
  else if c = 98 then [8]
  else if c = 110 then [10]
  else if c = 114 then [13]
  else if c = 116 then [9]
  else if c = 90 then [26]
  else if c = 37 ∨ c = 95 then [92, c]
  else [c]

/-- The value of a string behind its opening quote, and the text behind its closing one. -/
def readQuoted (backend : Backend) : Bytes → Option (Bytes × Bytes)
  | [] => none
  | [c] => if c = 39 then some ([], []) else none
  | c :: d :: s =>
      if c = 39 then
        if d = 39 then (readQuoted backend s).map fun r => (39 :: r.1, r.2) else some ([], d :: s)
      else if backend = .mysql ∧ c = 92 then
        (readQuoted backend s).map fun r => (escaped d ++ r.1, r.2)
      else (readQuoted backend (d :: s)).map fun r => (c :: r.1, r.2)

/-- A string literal at the head of a text. -/
def readLiteral (backend : Backend) : Bytes → Option (Bytes × Bytes)
  | [] => none
  | c :: s => if c = 39 then readQuoted backend s else none

/-- The literal of a text is read as that text in every statement, and what stands behind it is left
as it is. In a statement no quote follows a literal. -/
def Reads (doubleText : DoubleText) (backend : Backend) (s : Bytes) : Prop :=
  ∀ rest : Bytes, (∀ c ∈ rest.head?, c ≠ 39) →
    readLiteral backend (cString (variantToSqlLiteral doubleText (.string s) ++ rest)) =
      some (s, cString rest)

/-- Behind every backslash there is `%` or `_`. -/
def EscapesNothing (s : Bytes) : Prop :=
  ∀ a b, s = a ++ 92 :: b → b.head? = some 37 ∨ b.head? = some 95

/-! ### The weight of a text -/

/-- Quotes count once and other bytes twice. -/
def weight (s : Bytes) : ℕ := (s.map fun c => if c = 39 then 1 else 2).sum

/-- A quote weighs one, and any other character two. -/
theorem weight_cons (c : UInt8) (s : Bytes) :
    weight (c :: s) = (if c = 39 then 1 else 2) + weight s := by
  rw [weight, List.map_cons, List.sum_cons, weight]

/-- Weights add up. -/
theorem weight_append (s t : Bytes) : weight (s ++ t) = weight s + weight t := by
  rw [weight, List.map_append, List.sum_append, weight, weight]

/-- A quote is doubled, so that every byte counts twice. -/
theorem weight_escapeQuotes (s : Bytes) : weight (escapeQuotes s) = 2 * s.length := by
  induction s with
  | nil => rfl
  | cons c s ih =>
      rw [escapeQuotes] at ih
      rw [escapeQuotes, List.flatMap_cons, weight_append, ih, List.length_cons]
      by_cases hc : c = 39
      · have htwo : weight [39, 39] = 2 := rfl
        rw [if_pos hc, htwo]
        omega
      · rw [if_neg hc, weight_cons, if_neg hc]
        simp only [weight, List.map_nil, List.sum_nil]
        omega

/-- A wildcard keeps its backslash. -/
theorem escaped_of_wildcard {c : UInt8} (h : c = 37 ∨ c = 95) : escaped c = [92, c] := by
  rcases h with rfl | rfl <;> rfl

/-- How long an escaped character is. -/
theorem length_escaped (c : UInt8) :
    (escaped c).length = if c = 37 ∨ c = 95 then 2 else 1 := by
  split
  · rename_i hc
    rw [escaped_of_wildcard hc]
    rfl
  · rename_i hc
    rw [escaped]
    split_ifs <;> rfl

/-- What is read where two bytes are left. -/
theorem readQuoted_cons (backend : Backend) (c d : UInt8) (s : Bytes) :
    readQuoted backend (c :: d :: s) =
      if c = 39 then
        if d = 39 then (readQuoted backend s).map fun r => (39 :: r.1, r.2) else some ([], d :: s)
      else if backend = .mysql ∧ c = 92 then
        (readQuoted backend s).map fun r => (escaped d ++ r.1, r.2)
      else (readQuoted backend (d :: s)).map fun r => (c :: r.1, r.2) :=
  rfl

/-- **A literal is not shorter than its value**: every byte of the value has taken a weight of two,
and the closing quote is left over. -/
theorem weight_readQuoted {backend : Backend} {text value rest : Bytes}
    (h : readQuoted backend text = some (value, rest)) :
    2 * value.length + 1 + weight rest ≤ weight text := by
  induction text using readQuoted.induct backend generalizing value with
  | case1 => cases h
  | case2 =>
      cases h
      decide
  | case3 c hc =>
      have hnone : readQuoted backend [c] = none := if_neg hc
      rw [hnone] at h
      cases h
  | case4 s ih =>
      rw [readQuoted_cons, if_pos rfl, if_pos rfl, Option.map_eq_some_iff] at h
      obtain ⟨⟨value', rest'⟩, hread, heq⟩ := h
      obtain ⟨rfl, rfl⟩ := Prod.mk.inj heq
      have hle := ih hread
      dsimp only at hle ⊢
      rw [weight_cons, weight_cons, if_pos rfl, List.length_cons]
      omega
  | case5 d s hd =>
      rw [readQuoted_cons, if_pos rfl, if_neg hd] at h
      cases h
      rw [weight_cons 39, if_pos rfl, List.length_nil]
  | case6 c d s hc hescape ih =>
      rw [readQuoted_cons, if_neg hc, if_pos hescape, Option.map_eq_some_iff] at h
      obtain ⟨⟨value', rest'⟩, hread, heq⟩ := h
      obtain ⟨rfl, rfl⟩ := Prod.mk.inj heq
      have hle := ih hread
      dsimp only at hle ⊢
      rw [weight_cons, weight_cons, if_neg hc, List.length_append]
      rw [length_escaped]
      by_cases hd : d = 37 ∨ d = 95
      · have hquote : d ≠ 39 := by rcases hd with rfl | rfl <;> decide
        rw [if_pos hd, if_neg hquote]
        omega
      · rw [if_neg hd]
        split <;> omega
  | case7 c d s hc hescape ih =>
      rw [readQuoted_cons, if_neg hc, if_neg hescape, Option.map_eq_some_iff] at h
      obtain ⟨⟨value', rest'⟩, hread, heq⟩ := h
      obtain ⟨rfl, rfl⟩ := Prod.mk.inj heq
      have hle := ih hread
      dsimp only at hle ⊢
      rw [weight_cons, if_neg hc, List.length_cons]
      omega

/-! ### Reading literals -/

/-- Two quotes are read as one. -/
theorem readQuoted_quotes (backend : Backend) (s : Bytes) :
    readQuoted backend (39 :: 39 :: s) =
      (readQuoted backend s).map fun r => (39 :: r.1, r.2) := by
  rw [readQuoted_cons, if_pos rfl, if_pos rfl]

/-- One quote ends the text. -/
theorem readQuoted_end (backend : Backend) {rest : Bytes} (h : ∀ c ∈ rest.head?, c ≠ 39) :
    readQuoted backend (39 :: rest) = some ([], rest) := by
  cases rest with
  | nil => rfl
  | cons c rest => rw [readQuoted_cons, if_pos rfl, if_neg (h c rfl)]

/-- A backslash is read with the character behind it. -/
theorem readQuoted_escape (d : UInt8) (s : Bytes) :
    readQuoted .mysql (92 :: d :: s) =
      (readQuoted .mysql s).map fun r => (escaped d ++ r.1, r.2) := by
  rw [readQuoted_cons, if_neg (by decide), if_pos ⟨rfl, rfl⟩]

/-- Any other character is read as it is. -/
theorem readQuoted_other {backend : Backend} {c : UInt8} (hc : c ≠ 39)
    (hescape : ¬(backend = .mysql ∧ c = 92)) (s : Bytes) :
    readQuoted backend (c :: s) = (readQuoted backend s).map fun r => (c :: r.1, r.2) := by
  cases s with
  | nil => exact if_neg hc
  | cons d s => rw [readQuoted_cons, if_neg hc, if_neg hescape]

/-- A quote is doubled. -/
theorem escapeQuotes_quote (s : Bytes) : escapeQuotes (39 :: s) = 39 :: 39 :: escapeQuotes s :=
  rfl

/-- Any other character is written as it is. -/
theorem escapeQuotes_other {c : UInt8} (hc : c ≠ 39) (s : Bytes) :
    escapeQuotes (c :: s) = c :: escapeQuotes s := by
  rw [escapeQuotes, List.flatMap_cons, if_neg hc]
  rfl

/-- The characters stay the same. -/
theorem mem_escapeQuotes {c : UInt8} {s : Bytes} : c ∈ escapeQuotes s ↔ c ∈ s := by
  induction s with
  | nil => rfl
  | cons d s ih =>
      rw [List.mem_cons, ← ih]
      by_cases hd : d = 39
      · subst hd
        rw [escapeQuotes_quote, List.mem_cons, List.mem_cons]
        exact or_self_left
      · rw [escapeQuotes_other hd, List.mem_cons]

/-- The empty text has no backslash. -/
theorem escapesNothing_nil : EscapesNothing [] := fun a b h => by
  cases List.append_eq_nil_iff.mp h.symm with
  | intro _ hb => cases hb

/-- The condition, character by character. -/
theorem escapesNothing_cons {c : UInt8} {s : Bytes} : EscapesNothing (c :: s) ↔
    (c = 92 → s.head? = some 37 ∨ s.head? = some 95) ∧ EscapesNothing s := by
  refine ⟨fun h => ⟨?_, fun a b hab => h (c :: a) b (by rw [hab, List.cons_append])⟩, ?_⟩
  · rintro rfl
    exact h [] s rfl
  · rintro ⟨hhead, htail⟩ a b hab
    cases a with
    | nil =>
        obtain ⟨hc, rfl⟩ := List.cons.inj hab
        exact hhead hc
    | cons d a =>
        obtain ⟨-, rfl⟩ := List.cons.inj hab
        exact htail a b rfl

/-- A text in which nothing escapes is read again, on both databases. -/
theorem readQuoted_escapeQuotes {backend : Backend} {s rest : Bytes}
    (hs : backend = .mysql → EscapesNothing s) (hrest : ∀ c ∈ rest.head?, c ≠ 39) :
    readQuoted backend (escapeQuotes s ++ 39 :: rest) = some (s, rest) := by
  induction s using List.twoStepInduction with
  | nil => exact readQuoted_end backend hrest
  | singleton c =>
      by_cases hc : c = 39
      · subst hc
        rw [escapeQuotes_quote, List.cons_append, List.cons_append, readQuoted_quotes]
        exact congrArg (Option.map _) (readQuoted_end backend hrest)
      · have hescape : ¬(backend = .mysql ∧ c = 92) := fun hmysql => by
          have hhead := (escapesNothing_cons.mp (hs hmysql.1)).1 hmysql.2
          simp at hhead
        rw [escapeQuotes_other hc, List.cons_append, readQuoted_other hc hescape]
        exact congrArg (Option.map _) (readQuoted_end backend hrest)
  | cons_cons c d s ih ih' =>
      have htail : backend = .mysql → EscapesNothing (d :: s) := fun hmysql =>
        (escapesNothing_cons.mp (hs hmysql)).2
      by_cases hc : c = 39
      · subst hc
        rw [escapeQuotes_quote, List.cons_append, List.cons_append, readQuoted_quotes, ih' d htail]
        rfl
      by_cases hescape : backend = .mysql ∧ c = 92
      · -- the backslash stands in front of a wildcard, and both are left as they are
        obtain ⟨rfl, rfl⟩ := hescape
        have hwildcard : d = 37 ∨ d = 95 := by
          have hhead := (escapesNothing_cons.mp (hs rfl)).1 rfl
          rwa [List.head?_cons, Option.some.injEq, Option.some.injEq] at hhead
        have hquote : d ≠ 39 := by rcases hwildcard with rfl | rfl <;> decide
        have hrec := ih fun _ => (escapesNothing_cons.mp (htail rfl)).2
        rw [escapeQuotes_other hc, escapeQuotes_other hquote, List.cons_append, List.cons_append,
          readQuoted_escape, hrec, escaped_of_wildcard hwildcard]
        rfl
      · rw [escapeQuotes_other hc, List.cons_append, readQuoted_other hc hescape, ih' d htail]
        rfl

/-- A text that is read again on MySQL is one in which nothing escapes. -/
theorem escapesNothing_of_readQuoted {s : Bytes}
    (h : readQuoted .mysql (escapeQuotes s ++ [39]) = some (s, [])) : EscapesNothing s := by
  induction s using List.twoStepInduction with
  | nil => exact escapesNothing_nil
  | singleton c =>
      refine escapesNothing_cons.mpr ⟨?_, escapesNothing_nil⟩
      rintro rfl
      cases h
  | cons_cons c d s ih ih' =>
      by_cases hc : c = 39
      · subst hc
        rw [escapeQuotes_quote, List.cons_append, List.cons_append, readQuoted_quotes,
          Option.map_eq_some_iff] at h
        obtain ⟨⟨value, rest⟩, hread, heq⟩ := h
        obtain ⟨hvalue, rfl⟩ := Prod.mk.inj heq
        obtain ⟨-, rfl⟩ := List.cons.inj hvalue
        exact escapesNothing_cons.mpr ⟨fun h => absurd h (by decide), ih' d hread⟩
      by_cases hbackslash : c = 92
      · subst hbackslash
        have hlast : weight (escapeQuotes s ++ [39]) = 2 * s.length + 1 := by
          rw [weight_append, weight_escapeQuotes]
          rfl
        rw [escapeQuotes_other hc, List.cons_append] at h
        by_cases hd : d = 39
        · -- the backslash takes the first of the two quotes
          subst hd
          rw [escapeQuotes_quote, List.cons_append, readQuoted_escape,
            Option.map_eq_some_iff] at h
          obtain ⟨⟨value, rest⟩, -, heq⟩ := h
          exact absurd (List.cons.inj (Prod.mk.inj heq).1).1 (by decide)
        · rw [escapeQuotes_other hd, List.cons_append, readQuoted_escape,
            Option.map_eq_some_iff] at h
          obtain ⟨⟨value, rest⟩, hread, heq⟩ := h
          obtain ⟨hvalue, rfl⟩ := Prod.mk.inj heq
          dsimp only at hread hvalue
          have hweight := weight_readQuoted hread
          have hlength := congrArg List.length hvalue
          rw [hlast] at hweight
          rw [List.length_append, length_escaped, List.length_cons, List.length_cons] at hlength
          by_cases hwildcard : d = 37 ∨ d = 95
          · rw [escaped_of_wildcard hwildcard] at hvalue
            obtain ⟨-, hvalue⟩ := List.cons.inj hvalue
            obtain ⟨-, rfl⟩ := List.cons.inj hvalue
            have hbackslash : d ≠ 92 := by rcases hwildcard with rfl | rfl <;> decide
            refine escapesNothing_cons.mpr ⟨fun _ => ?_, escapesNothing_cons.mpr
              ⟨fun h => absurd h hbackslash, ih hread⟩⟩
            rwa [List.head?_cons, Option.some.injEq, Option.some.injEq]
          · rw [if_neg hwildcard] at hlength
            omega
      · have hescape : ¬(Backend.mysql = .mysql ∧ c = 92) := fun hmysql => hbackslash hmysql.2
        rw [escapeQuotes_other hc, List.cons_append, readQuoted_other hc hescape,
          Option.map_eq_some_iff] at h
        obtain ⟨⟨value, rest⟩, hread, heq⟩ := h
        obtain ⟨hvalue, rfl⟩ := Prod.mk.inj heq
        obtain ⟨-, rfl⟩ := List.cons.inj hvalue
        exact escapesNothing_cons.mpr ⟨fun h => absurd h hbackslash, ih' d hread⟩

/-! ### The texts that are read again -/

variable (doubleText : DoubleText)

/-- A literal in front of the rest of a statement. -/
theorem literal_append (s rest : Bytes) :
    variantToSqlLiteral doubleText (.string s) ++ rest =
      39 :: (escapeQuotes s ++ 39 :: rest) := by
  rw [variantToSqlLiteral, List.cons_append, List.append_assoc]
  rfl

/-- A literal with a zero byte is cut in front of its closing quote, and is not read as its text. -/
theorem zero_notMem_of_reads {backend : Backend} {s : Bytes} (h : Reads doubleText backend s) :
    0 ∉ s := by
  intro hmem
  obtain ⟨front, back, hsplit, hfront⟩ :=
    List.eq_append_cons_of_mem (mem_escapeQuotes.mpr hmem)
  have hcut : cString (variantToSqlLiteral doubleText (.string s) ++ []) = 39 :: front := by
    have hzero : 0 ∉ 39 :: front := by
      rw [List.mem_cons, not_or]
      exact ⟨by decide, hfront⟩
    rw [literal_append, hsplit, List.append_assoc]
    exact cString_append_zero hzero _
  have hread := h [] (by simp)
  rw [hcut, readLiteral, if_pos rfl] at hread
  have hweight := weight_readQuoted hread
  have htotal := congrArg weight hsplit
  rw [weight_escapeQuotes, weight_append] at htotal
  omega

/-- **Literals.** On either database the literal of a text is read as that text, and what stands
behind it is left as it is, exactly when the text holds no zero byte and, on MySQL, every backslash
stands in front of `%` or `_`. -/
theorem literal_reads_iff (backend : Backend) (s : Bytes) :
    Reads doubleText backend s ↔ 0 ∉ s ∧ (backend = .mysql → EscapesNothing s) := by
  refine ⟨fun h => ?_, ?_⟩
  · have hzero := zero_notMem_of_reads doubleText h
    refine ⟨hzero, ?_⟩
    rintro rfl
    have hwhole : 0 ∉ 39 :: (escapeQuotes s ++ 39 :: []) := by
      simpa [mem_escapeQuotes] using hzero
    have hread := h [] (by simp)
    rw [literal_append, cString_eq_self_iff.mpr hwhole, readLiteral, if_pos rfl] at hread
    exact escapesNothing_of_readQuoted hread
  · rintro ⟨hzero, hs⟩ rest hrest
    have hliteral : 0 ∉ 39 :: (escapeQuotes s ++ [39]) := by
      simpa [mem_escapeQuotes] using hzero
    have hhead : ∀ c ∈ (cString rest).head?, c ≠ 39 := by
      intro c hc
      cases rest with
      | nil => cases hc
      | cons d rest =>
          rw [cString, List.takeWhile_cons] at hc
          split at hc
          · exact hrest c hc
          · cases hc
    have hcut : cString (variantToSqlLiteral doubleText (.string s) ++ rest) =
        39 :: (escapeQuotes s ++ 39 :: cString rest) := by
      rw [variantToSqlLiteral, cString_append hliteral, List.cons_append, List.append_assoc]
      rfl
    rw [hcut, readLiteral, if_pos rfl]
    exact readQuoted_escapeQuotes hs hhead

/-- On MySQL the literal of a backslash goes on behind its closing quote, and the text of the next
value is read as a part of the statement; on either database a zero byte cuts the statement. -/
theorem literal_escapes :
    readLiteral .mysql (cString (variantToSqlLiteral (fun _ => []) (.string [92]) ++
        bytes ", b = ' OR 1 = 1 -- ' WHERE id = 1")) =
      some (bytes "', b = ", bytes " OR 1 = 1 -- ' WHERE id = 1") ∧
    ¬Reads (fun _ => []) .mysql [92] ∧ ¬Reads (fun _ => []) .sqlite [97, 0] := by
  refine ⟨by decide, fun h => ?_, fun h => ?_⟩
  · have hread := h [] (by simp)
    exact absurd hread (by decide)
  · exact zero_notMem_of_reads (fun _ => []) h (by decide)

/-! ### Literals in an UPDATE statement -/

/-- What stands behind an item of a list with separators: nothing, or a separator. -/
theorem intercalate_split (sep : Bytes) (before : List Bytes) (item : Bytes) (after : List Bytes) :
    ∃ front back, sep.intercalate (before ++ item :: after) = front ++ item ++ back ∧
      (back = [] ∨ ∃ rest, back = sep ++ rest) := by
  induction before with
  | nil =>
      cases after with
      | nil => exact ⟨[], [], by simp, Or.inl rfl⟩
      | cons next after =>
          exact ⟨[], sep ++ sep.intercalate (next :: after), by simp [List.intercalate_cons_cons],
            Or.inr ⟨_, rfl⟩⟩
  | cons first before ih =>
      obtain ⟨front, back, heq, hback⟩ := ih
      refine ⟨first ++ sep ++ front, back, ?_, hback⟩
      rw [List.cons_append, List.intercalate_cons_of_ne_nil (by simp), heq]
      simp

/-- **Literals in a statement.** No quote stands behind the literal of a value that is assigned, or
behind that of the key. -/
theorem exists_statement (m : SqlTableModel) {edits : RowEdits} {e : ℤ × Variant} (he : e ∈ edits)
    (hcolumn : 0 ≤ e.1 ∧ e.1 < m.columnCount) (pkIndex : ℕ) (key : Variant) :
    (∃ front rest, m.updateStatement doubleText (m.setClauses doubleText edits) pkIndex key =
        front ++ (variantToSqlLiteral doubleText e.2 ++ rest) ∧ ∀ c ∈ rest.head?, c ≠ 39) ∧
      ∃ front, m.updateStatement doubleText (m.setClauses doubleText edits) pkIndex key =
        front ++ variantToSqlLiteral doubleText key := by
  refine ⟨?_, _, rfl⟩
  have hknown : e ∈ edits.filter fun e => 0 ≤ e.1 && e.1 < m.columnCount := by
    rw [List.mem_filter, Bool.and_eq_true, decide_eq_true_eq, decide_eq_true_eq]
    exact ⟨he, hcolumn⟩
  obtain ⟨before, after, hsplit⟩ := List.append_of_mem hknown
  obtain ⟨front, back, hclauses, hback⟩ := intercalate_split (bytes ", ")
    (before.map fun e => m.columnNames.getD e.1.toNat [] ++ bytes " = " ++
      variantToSqlLiteral doubleText e.2)
    (m.columnNames.getD e.1.toNat [] ++ bytes " = " ++ variantToSqlLiteral doubleText e.2)
    (after.map fun e => m.columnNames.getD e.1.toNat [] ++ bytes " = " ++
      variantToSqlLiteral doubleText e.2)
  refine ⟨bytes "UPDATE " ++ m.tableName ++ bytes " SET " ++ front ++
      m.columnNames.getD e.1.toNat [] ++ bytes " = ",
    back ++ bytes " WHERE " ++ m.columnNames.getD pkIndex [] ++ bytes " = " ++
      variantToSqlLiteral doubleText key, ?_, ?_⟩
  · rw [SqlTableModel.updateStatement, SqlTableModel.setClauses, hsplit, List.map_append,
      List.map_cons, hclauses]
    simp only [List.append_assoc]
  · rcases hback with rfl | ⟨rest, rfl⟩
    · rintro c hc rfl
      cases hc
    · rintro c hc rfl
      cases hc

end SimplyNode
