import Mathlib.Data.List.Infix

/-!
# JSON Texts

A reader of JSON texts as RFC 8259 defines them: UTF-8 in which one value stands, with white space
around it. The names and strings are decoded; a number is left as it is written. The reader takes a
bound for the length of what it reads, and a text has a value if it is read with some bound.

## Main results

* `isUtf8_append_cons`: a text is cut at an ASCII character.
* `readChars_clean`: a string without escapes is read as it is.
* `readChars_quoted`: the characters that are put between quotes without being escaped come back
  only if nothing in them would have had to be escaped.
* `readMembers_string`, `readMembers_string_cons`: a member whose value is a string.
* `leavesEnd`: what is left is the end of the text, and an object has a brace at its end.
-/

namespace JsonText

/-- The bytes of a text. -/
abbrev Text := List UInt8

/-- The text is UTF-8. -/
def IsUtf8 (s : Text) : Prop := ∃ chars : List Char, chars.flatMap String.utf8EncodeChar = s

/-- A JSON value. A number is what is written for it. -/
inductive Value
  | null
  | bool (b : Bool)
  | number (s : Text)
  | string (s : Text)
  | array (values : List Value)
  | object (members : List (Text × Value))

/-! ### Strings -/

/-- The value of a hexadecimal digit. -/
def hexValue (c : UInt8) : Option ℕ :=
  if 48 ≤ c ∧ c ≤ 57 then some (c.toNat - 48)
  else if 65 ≤ c ∧ c ≤ 70 then some (c.toNat - 55)
  else if 97 ≤ c ∧ c ≤ 102 then some (c.toNat - 87)
  else none

/-- Four hexadecimal digits, and what follows them. -/
def codeUnit : Text → Option (ℕ × Text)
  | a :: b :: c :: d :: s => do
      let a ← hexValue a
      let b ← hexValue b
      let c ← hexValue c
      let d ← hexValue d
      return (((a * 16 + b) * 16 + c) * 16 + d, s)
  | _ => none

/-- The UTF-8 of a code point. -/
def encode (n : ℕ) : Text := String.utf8EncodeChar (Char.ofNat n)

/-- The second half of a surrogate pair, and what follows it. -/
def lowSurrogate : Text → Option (ℕ × Text)
  | a :: b :: s =>
      if a = 92 ∧ b = 117 then
        (codeUnit s).filter fun p => 0xDC00 ≤ p.1 ∧ p.1 < 0xE000
      else none
  | _ => none

/-- The character behind `\u`: a code unit, or two that are a surrogate pair. A surrogate that is in
no pair is replaced. -/
def unicodeEscape (s : Text) : Option (Text × Text) := do
  let (high, s) ← codeUnit s
  if 0xD800 ≤ high ∧ high < 0xDC00 then
    match lowSurrogate s with
    | some (low, s) => return (encode (0x10000 + (high - 0xD800) * 0x400 + (low - 0xDC00)), s)
    | none => return (encode 0xFFFD, s)
  else if 0xDC00 ≤ high ∧ high < 0xE000 then return (encode 0xFFFD, s)
  else return (encode high, s)

/-- The character that a character behind a backslash stands for. -/
def simpleEscape (c : UInt8) : Option UInt8 :=
  if c = 34 then some 34
  else if c = 92 then some 92
  else if c = 47 then some 47
  else if c = 98 then some 8
  else if c = 102 then some 12
  else if c = 110 then some 10
  else if c = 114 then some 13
  else if c = 116 then some 9
  else none

/-- What stands behind a backslash, and what follows it. -/
def readEscape : Text → Option (Text × Text)
  | [] => none
  | c :: s => if c = 117 then unicodeEscape s else (simpleEscape c).map fun x => ([x], s)

/-- The characters of a string up to the quote at its end, and what follows it. -/
def readChars : ℕ → Text → Option (Text × Text)
  | 0, _ => none
  | _ + 1, [] => none
  | n + 1, c :: s =>
      if c = 34 then some ([], s)
      else if c = 92 then do
        let (x, s) ← readEscape s
        let (v, s) ← readChars n s
        return (x ++ v, s)
      else if c < 32 then none
      else do
        let (v, s) ← readChars n s
        return (c :: v, s)

/-! ### Numbers -/

/-- A decimal digit. -/
def isDigit (c : UInt8) : Bool := 48 ≤ c && c ≤ 57

/-- The digits at the beginning, and what follows them. -/
def digits (s : Text) : Text × Text := (s.takeWhile isDigit, s.dropWhile isDigit)

/-- One of some characters at the beginning, if it is there. -/
def optional (cs : Text) : Text → Text × Text
  | [] => ([], [])
  | c :: s => if cs.contains c then ([c], s) else ([], c :: s)

/-- The digits of an integer, without a zero in front of others. -/
def readInt (s : Text) : Option (Text × Text) :=
  match s with
  | [] => none
  | c :: t =>
      if c = 48 then some ([c], t) else if isDigit c then some (digits s) else none

/-- A mark and what must follow it: the fraction, or the exponent. -/
def readPart (mark sign : Text) (s : Text) : Option (Text × Text) :=
  match optional mark s with
  | ([], s) => some ([], s)
  | (m, s) =>
      let (sign, s) := optional sign s
      let (ds, s) := digits s
      if ds = [] then none else some (m ++ sign ++ ds, s)

/-- A number, and what follows it. -/
def readNumber (s : Text) : Option (Text × Text) := do
  let (minus, s) := optional [45] s
  let (int, s) ← readInt s
  let (frac, s) ← readPart [46] [] s
  let (exp, s) ← readPart [69, 101] [43, 45] s
  return (minus ++ int ++ frac ++ exp, s)

/-! ### Values -/

/-- White space. -/
def isSpace (c : UInt8) : Bool := c = 32 || c = 9 || c = 10 || c = 13

/-- What follows white space. -/
def skipSpace (s : Text) : Text := s.dropWhile isSpace

/-- A character behind white space, and what follows it. -/
def expect (c : UInt8) (s : Text) : Option Text :=
  match skipSpace s with
  | [] => none
  | c' :: s => if c' = c then some s else none

/-- What stands behind an item: a comma, or the end of the list. -/
def separator (close : UInt8) (s : Text) : Option (Bool × Text) :=
  match skipSpace s with
  | [] => none
  | c :: s => if c = 44 then some (true, s) else if c = close then some (false, s) else none

/-- `true`, `false` and `null`. -/
def readLiteral (s : Text) : Option (Value × Text) :=
  if [116, 114, 117, 101] <+: s then some (.bool true, s.drop 4)
  else if [102, 97, 108, 115, 101] <+: s then some (.bool false, s.drop 5)
  else if [110, 117, 108, 108] <+: s then some (.null, s.drop 4)
  else none

mutual

/-- A value, and what follows it. -/
def readValue : ℕ → Text → Option (Value × Text)
  | 0, _ => none
  | _ + 1, [] => none
  | n + 1, c :: s =>
      if c = 34 then (readChars n s).map fun p => (.string p.1, p.2)
      else if c = 123 then
        match expect 125 s with
        | some s => some (.object [], s)
        | none => (readMembers n s).map fun p => (.object p.1, p.2)
      else if c = 91 then
        match expect 93 s with
        | some s => some (.array [], s)
        | none => (readElements n s).map fun p => (.array p.1, p.2)
      else
        match readLiteral (c :: s) with
        | some p => some p
        | none => (readNumber (c :: s)).map fun p => (.number p.1, p.2)

/-- The values of an array, and what follows it. -/
def readElements : ℕ → Text → Option (List Value × Text)
  | 0, _ => none
  | n + 1, s => do
      let (v, s) ← readValue n (skipSpace s)
      let (more, s) ← separator 93 s
      if more then
        let (vs, s) ← readElements n s
        return (v :: vs, s)
      else return ([v], s)

/-- The members of an object, and what follows it. -/
def readMembers : ℕ → Text → Option (List (Text × Value) × Text)
  | 0, _ => none
  | n + 1, s => do
      let s ← expect 34 s
      let (key, s) ← readChars n s
      let s ← expect 58 s
      let (v, s) ← readValue n (skipSpace s)
      let (more, s) ← separator 125 s
      if more then
        let (ms, s) ← readMembers n s
        return ((key, v) :: ms, s)
      else return ([(key, v)], s)

end

/-- **The value of a text.** -/
def IsJson (s : Text) (v : Value) : Prop :=
  IsUtf8 s ∧ ∃ n rest, readValue n (skipSpace s) = some (v, rest) ∧ skipSpace rest = []

/-! ### UTF-8 -/

/-- A byte from 128 on is no character by itself. -/
theorem not_ofNat_lt {n : ℕ} (h : 128 ≤ n) (h' : n < 256) : ¬UInt8.ofNat n < 128 := by
  rw [UInt8.not_lt, UInt8.le_iff_toNat_le, UInt8.toNat_ofNat', Nat.mod_eq_of_lt h']
  exact h

/-- A byte below 128 is a character of its own. -/
theorem encodeChar_eq_singleton {char : Char} {b : UInt8} (h : b ∈ String.utf8EncodeChar char)
    (hb : b < 128) : String.utf8EncodeChar char = [b] := by
  simp only [String.utf8EncodeChar] at h ⊢
  split_ifs at h ⊢
  · rw [List.mem_singleton.mp h]
  all_goals
    simp only [List.mem_cons, List.not_mem_nil, or_false] at h
  · rcases h with rfl | rfl
    · exact absurd hb (not_ofNat_lt (by omega) (by omega))
    · exact absurd hb (not_ofNat_lt (by omega) (by omega))
  · rcases h with rfl | rfl | rfl
    · exact absurd hb (not_ofNat_lt (by omega) (by omega))
    · exact absurd hb (not_ofNat_lt (by omega) (by omega))
    · exact absurd hb (not_ofNat_lt (by omega) (by omega))
  · rcases h with rfl | rfl | rfl | rfl
    · exact absurd hb (not_ofNat_lt (by omega) (by omega))
    · exact absurd hb (not_ofNat_lt (by omega) (by omega))
    · exact absurd hb (not_ofNat_lt (by omega) (by omega))
    · exact absurd hb (not_ofNat_lt (by omega) (by omega))

/-- Every byte below 128 is a character. -/
theorem exists_encodeChar_eq {b : UInt8} (hb : b < 128) :
    ∃ char, String.utf8EncodeChar char = [b] := by
  have hall : ∀ n : Fin 128, String.utf8EncodeChar (Char.ofNat n) = [UInt8.ofNat n] := by
    decide +kernel
  have hchar := hall ⟨b.toNat, UInt8.lt_iff_toNat_lt.mp hb⟩
  rw [UInt8.ofNat_toNat] at hchar
  exact ⟨_, hchar⟩

/-- The empty text is text. -/
theorem isUtf8_nil : IsUtf8 [] := ⟨[], rfl⟩

/-- **A text is cut at an ASCII character.** -/
theorem isUtf8_append_cons {b : UInt8} (hb : b < 128) (x y : Text) :
    IsUtf8 (x ++ b :: y) ↔ IsUtf8 x ∧ IsUtf8 y := by
  constructor
  · rintro ⟨chars, hchars⟩
    induction chars generalizing x with
    | nil => exact absurd hchars.symm (by simp)
    | cons char chars ih =>
        rw [List.flatMap_cons] at hchars
        rcases List.append_eq_append_iff.mp hchars with ⟨x', rfl, hrest⟩ | ⟨z, hchar, hrest⟩
        · obtain ⟨⟨front, rfl⟩, hy⟩ := ih x' hrest
          exact ⟨⟨char :: front, List.flatMap_cons⟩, hy⟩
        · rcases z with - | ⟨b', z⟩
          · rw [List.append_nil] at hchar
            obtain ⟨-, hy⟩ := ih [] hrest.symm
            exact ⟨⟨[char], by rw [List.flatMap_singleton, hchar]⟩, hy⟩
          · -- the character is the ASCII character itself
            obtain ⟨rfl, hy⟩ := List.cons.inj hrest
            have hsingle := encodeChar_eq_singleton (hchar ▸ List.mem_append_right x
              List.mem_cons_self) hb
            rw [hsingle] at hchar
            obtain ⟨hx, hz⟩ := List.append_eq_singleton_iff.mp hchar.symm |>.resolve_right
              fun h => List.cons_ne_nil _ _ h.2
            obtain rfl := (List.cons.inj hz).2
            exact ⟨hx ▸ isUtf8_nil, ⟨chars, hy.symm⟩⟩
  · rintro ⟨⟨front, rfl⟩, ⟨back, rfl⟩⟩
    obtain ⟨char, hchar⟩ := exists_encodeChar_eq hb
    refine ⟨front ++ char :: back, ?_⟩
    rw [List.flatMap_append, List.flatMap_cons, hchar]
    rfl

/-- A character of one byte more or less. -/
theorem isUtf8_cons {b : UInt8} (hb : b < 128) (s : Text) : IsUtf8 (b :: s) ↔ IsUtf8 s :=
  (isUtf8_append_cons hb [] s).trans (and_iff_right isUtf8_nil)

/-- ASCII characters may stand in front of any text. -/
theorem isUtf8_ascii_append {p : Text} (hp : p.all (· < 128) = true) (s : Text) :
    IsUtf8 (p ++ s) ↔ IsUtf8 s := by
  induction p with
  | nil => rfl
  | cons b p ih =>
      rw [List.all_cons, Bool.and_eq_true, decide_eq_true_eq] at hp
      rw [List.cons_append, isUtf8_cons hp.1, ih hp.2]

/-! ### Reading strings -/

/-- No character of the text would have to be escaped. -/
def Clean (s : Text) : Prop := ∀ c ∈ s, 32 ≤ c ∧ c ≠ 34 ∧ c ≠ 92

/-- Whether a text is clean can be computed. -/
instance (s : Text) : Decidable (Clean s) :=
  inferInstanceAs (Decidable (∀ c ∈ s, 32 ≤ c ∧ c ≠ 34 ∧ c ≠ 92))

/-- **A string without escapes** is read as it is. -/
theorem readChars_clean {s : Text} (h : Clean s) (t : Text) (n : ℕ) :
    readChars n (s ++ 34 :: t) = if s.length < n then some (s, t) else none := by
  induction s generalizing n with
  | nil =>
      cases n with
      | zero => rfl
      | succ n =>
          rw [List.nil_append, readChars, if_pos rfl]
          exact (if_pos (Nat.succ_pos n)).symm
  | cons c s ih =>
      obtain ⟨⟨hspace, hquote, hslash⟩, hs⟩ := List.forall_mem_cons.mp h
      cases n with
      | zero => rfl
      | succ n =>
          rw [List.cons_append, readChars, if_neg hquote, if_neg hslash,
            if_neg (UInt8.not_lt.mpr hspace), ih hs, List.length_cons]
          by_cases hlt : s.length < n
          · rw [if_pos hlt, if_pos (Nat.succ_lt_succ hlt)]
            rfl
          · rw [if_neg hlt, if_neg (mt Nat.lt_of_succ_lt_succ hlt)]
            rfl

/-- A digit of base 16 is no quote. -/
theorem hexValue_ne {c : UInt8} {v : ℕ} (h : hexValue c = some v) : c ≠ 34 := by
  rintro rfl
  cases h

/-- A code unit is four bytes, none of them a quote. -/
theorem codeUnit_spec {s t : Text} {u : ℕ} (h : codeUnit s = some (u, t)) :
    ∃ raw, s = raw ++ t ∧ raw.length = 4 ∧ 34 ∉ raw := by
  match s, h with
  | a :: b :: c :: d :: s, h =>
    simp only [codeUnit, Option.bind_eq_bind, Option.bind_eq_some_iff, Option.pure_def,
      Option.some.injEq, Prod.mk.injEq] at h
    obtain ⟨a', ha, b', hb, c', hc, d', hd, -, rfl⟩ := h
    refine ⟨[a, b, c, d], rfl, rfl, ?_⟩
    simp only [List.mem_cons, List.not_mem_nil, or_false, not_or]
    exact ⟨(hexValue_ne ha).symm, (hexValue_ne hb).symm, (hexValue_ne hc).symm,
      (hexValue_ne hd).symm⟩

/-- A low surrogate is six bytes, none of them a quote. -/
theorem lowSurrogate_spec {s t : Text} {u : ℕ} (h : lowSurrogate s = some (u, t)) :
    ∃ raw, s = raw ++ t ∧ raw.length = 6 ∧ 34 ∉ raw := by
  match s, h with
  | a :: b :: s, h =>
    rw [lowSurrogate] at h
    split at h
    · rename_i hmark
      obtain ⟨rfl, rfl⟩ := hmark
      obtain ⟨raw, rfl, hlength, hraw⟩ := codeUnit_spec (Option.filter_eq_some_iff.mp h).1
      refine ⟨92 :: 117 :: raw, rfl, by simp [hlength], ?_⟩
      simp [hraw]
    · cases h

/-- A character has four bytes at most. -/
theorem length_encode (n : ℕ) : (encode n).length ≤ 4 := by
  rw [encode, String.length_utf8EncodeChar]
  exact Char.utf8Size_le_four _

/-- What stands behind `\u` has no quote in it, and is no shorter than what it stands for. -/
theorem unicodeEscape_spec {s x t : Text} (h : unicodeEscape s = some (x, t)) :
    ∃ raw, s = raw ++ t ∧ x.length ≤ raw.length ∧ 34 ∉ raw := by
  have hle (n : ℕ) {raw : Text} (hraw : 4 ≤ raw.length) : (encode n).length ≤ raw.length :=
    (length_encode n).trans hraw
  rw [unicodeEscape] at h
  obtain ⟨⟨high, t₁⟩, hhigh, hrest⟩ := Option.bind_eq_some_iff.mp h
  obtain ⟨raw, rfl, hlength, hraw⟩ := codeUnit_spec hhigh
  dsimp only at hrest
  split at hrest
  · split at hrest
    · rename_i low t₂ hlow
      obtain ⟨raw', rfl, hlength', hraw'⟩ := lowSurrogate_spec hlow
      obtain ⟨rfl, rfl⟩ := Prod.mk.inj (Option.some.inj hrest)
      refine ⟨raw ++ raw', (List.append_assoc _ _ _).symm, hle _ ?_, ?_⟩
      · rw [List.length_append]
        omega
      · rw [List.mem_append, not_or]
        exact ⟨hraw, hraw'⟩
    · obtain ⟨rfl, rfl⟩ := Prod.mk.inj (Option.some.inj hrest)
      exact ⟨raw, rfl, hle _ hlength.ge, hraw⟩
  · split at hrest
    · obtain ⟨rfl, rfl⟩ := Prod.mk.inj (Option.some.inj hrest)
      exact ⟨raw, rfl, hle _ hlength.ge, hraw⟩
    · obtain ⟨rfl, rfl⟩ := Prod.mk.inj (Option.some.inj hrest)
      exact ⟨raw, rfl, hle _ hlength.ge, hraw⟩

/-- What stands behind a backslash is a quote, or it has no quote in it; and it is no shorter than
what it stands for. -/
theorem readEscape_spec {s x t : Text} (h : readEscape s = some (x, t)) :
    ∃ raw, s = raw ++ t ∧ x.length ≤ raw.length ∧ (raw = [34] ∧ x = [34] ∨ 34 ∉ raw) := by
  match s, h with
  | c :: s, h =>
    rw [readEscape] at h
    split at h
    · rename_i hc
      obtain ⟨raw, rfl, hlength, hraw⟩ := unicodeEscape_spec h
      refine ⟨c :: raw, rfl, hlength.trans (Nat.le_succ _), Or.inr ?_⟩
      rw [List.mem_cons, not_or]
      exact ⟨hc ▸ by decide, hraw⟩
    · obtain ⟨y, hy, heq⟩ := Option.map_eq_some_iff.mp h
      obtain ⟨rfl, rfl⟩ := Prod.mk.inj heq
      refine ⟨[c], rfl, Nat.le_refl _, ?_⟩
      rcases eq_or_ne c 34 with rfl | hc
      · exact Or.inl ⟨rfl, by rw [← Option.some.inj hy]⟩
      · exact Or.inr fun hmem => hc (List.mem_singleton.mp hmem).symm

/-- A prefix of some text and a quote, without a quote in it, is a prefix of the text. -/
theorem exists_append_of_notMem {raw u s z : Text} (hraw : 34 ∉ raw)
    (h : raw ++ u <+: s ++ 34 :: z) : ∃ s', s = raw ++ s' ∧ u <+: s' ++ 34 :: z := by
  induction raw generalizing s with
  | nil => exact ⟨s, rfl, h⟩
  | cons c raw ih =>
      rw [List.mem_cons, not_or] at hraw
      rcases s with - | ⟨a, s⟩
      · exact absurd (List.cons_prefix_cons.mp h).1.symm hraw.1
      · obtain ⟨rfl, hprefix⟩ := List.cons_prefix_cons.mp h
        obtain ⟨s', rfl, hu⟩ := ih hraw.2 hprefix
        exact ⟨s', rfl, hu⟩

/-- A comma and a quote. -/
theorem readChars_comma {n : ℕ} {u z v t : Text} (hu : u <+: 44 :: 34 :: z)
    (h : readChars n u = some (v, t)) : v = [44] := by
  match n, u, h with
  | n + 1, c :: u, h =>
    obtain ⟨rfl, hrest⟩ := List.cons_prefix_cons.mp hu
    rw [readChars, if_neg (by decide), if_neg (by decide), if_neg (by decide)] at h
    obtain ⟨⟨v₁, u₁⟩, hchars, heq⟩ := Option.bind_eq_some_iff.mp h
    obtain ⟨rfl, -⟩ := Prod.mk.inj (Option.some.inj heq)
    match n, u, hchars with
    | n + 1, c :: u, hchars =>
      obtain ⟨rfl, -⟩ := List.cons_prefix_cons.mp hrest
      rw [readChars, if_pos rfl] at hchars
      obtain ⟨rfl, -⟩ := Prod.mk.inj (Option.some.inj hchars)
      rfl

/-- An escape that begins in the text ends in it, or takes the quote behind it. -/
theorem readEscape_split {u u₁ s z x : Text} (hu : u <+: s ++ 34 :: z)
    (h : readEscape u = some (x, u₁)) :
    (s = [] ∧ x = [34] ∧ u₁ <+: z) ∨
      ∃ raw s', s = raw ++ s' ∧ x.length ≤ raw.length ∧ u₁ <+: s' ++ 34 :: z := by
  obtain ⟨raw, rfl, hlength, ⟨rfl, rfl⟩ | hraw⟩ := readEscape_spec h
  · rcases s with - | ⟨a, s⟩
    · exact Or.inl ⟨rfl, rfl, (List.cons_prefix_cons.mp hu).2⟩
    · obtain ⟨rfl, hrest⟩ := List.cons_prefix_cons.mp hu
      exact Or.inr ⟨[34], s, rfl, hlength, hrest⟩
  · obtain ⟨s', rfl, hrest⟩ := exists_append_of_notMem hraw hu
    exact Or.inr ⟨raw, s', rfl, hlength, hrest⟩

/-- What is read of a text that was put between quotes, up to where the text that follows it was
cut off: the text itself; less than it; or, where the closing quote was taken for an escaped one,
what ends with the comma behind it. -/
theorem readChars_quoted_cases {n : ℕ} {u s z v t : Text} (hu : u <+: s ++ 34 :: 44 :: 34 :: z)
    (h : readChars n u = some (v, t)) :
    (Clean s ∧ v = s ∧ u = s ++ 34 :: t) ∨ v.length < s.length ∨
      ((∃ v', v = v' ++ [44]) ∧ (∃ s', s = s' ++ [92]) ∧ v.length ≤ s.length + 1) := by
  induction n generalizing u s v with
  | zero => cases h
  | succ n ih =>
      rcases u with - | ⟨c, u⟩
      · cases h
      rcases s with - | ⟨a, s⟩
      · -- the closing quote
        obtain ⟨rfl, -⟩ := List.cons_prefix_cons.mp hu
        rw [readChars, if_pos rfl] at h
        obtain ⟨rfl, rfl⟩ := Prod.mk.inj (Option.some.inj h)
        exact Or.inl ⟨fun c hc => absurd hc List.not_mem_nil, rfl, rfl⟩
      rw [List.cons_append] at hu
      obtain ⟨rfl, hrest⟩ := List.cons_prefix_cons.mp hu
      rw [readChars] at h
      split_ifs at h with hquote hslash hspace
      · obtain ⟨rfl, -⟩ := Prod.mk.inj (Option.some.inj h)
        exact Or.inr (Or.inl (Nat.succ_pos _))
      · -- an escape
        subst hslash
        obtain ⟨⟨x, u₁⟩, hescape, hbind⟩ := Option.bind_eq_some_iff.mp h
        obtain ⟨⟨v₁, u₂⟩, hchars, heq⟩ := Option.bind_eq_some_iff.mp hbind
        obtain ⟨rfl, rfl⟩ := Prod.mk.inj (Option.some.inj heq)
        rcases readEscape_split hrest hescape with ⟨rfl, rfl, hu₁⟩ | ⟨raw, s', rfl, hx, hu₁⟩
        · rw [readChars_comma hu₁ hchars]
          exact Or.inr (Or.inr ⟨⟨[34], rfl⟩, ⟨[], rfl⟩, Nat.le_refl _⟩)
        · rw [List.length_append, List.length_cons, List.length_append]
          rcases ih hu₁ hchars with ⟨-, rfl, -⟩ | hlt | ⟨⟨v', rfl⟩, ⟨s', rfl⟩, hle⟩
          · exact Or.inr (Or.inl (by omega))
          · exact Or.inr (Or.inl (by omega))
          · refine Or.inr (Or.inr ⟨⟨x ++ v', ?_⟩, ⟨92 :: (raw ++ s'), ?_⟩, by omega⟩)
            · rw [List.append_assoc]
            · rw [List.cons_append, List.append_assoc]
      · -- a character that stands for itself
        obtain ⟨⟨v₁, u₂⟩, hchars, heq⟩ := Option.bind_eq_some_iff.mp h
        obtain ⟨rfl, rfl⟩ := Prod.mk.inj (Option.some.inj heq)
        rcases ih hrest hchars with ⟨hclean, rfl, rfl⟩ | hlt | ⟨⟨v', rfl⟩, ⟨s', rfl⟩, hle⟩
        · refine Or.inl ⟨List.forall_mem_cons.mpr ⟨⟨?_, hquote, hslash⟩, hclean⟩, rfl, rfl⟩
          exact UInt8.not_lt.mp hspace
        · exact Or.inr (Or.inl (Nat.succ_lt_succ hlt))
        · exact Or.inr (Or.inr ⟨⟨c :: v', rfl⟩, ⟨c :: s', rfl⟩, Nat.succ_le_succ hle⟩)

/-- **What comes back as it was put between quotes** has nothing in it that would have had to be
escaped, and the closing quote is the one behind it. -/
theorem readChars_quoted {n : ℕ} {u s z t : Text} (hu : u <+: s ++ 34 :: 44 :: 34 :: z)
    (h : readChars n u = some (s, t)) : Clean s ∧ u = s ++ 34 :: t := by
  rcases readChars_quoted_cases hu h with ⟨hclean, -, heq⟩ | hlt | ⟨⟨v', hv⟩, ⟨s', hs⟩, -⟩
  · exact ⟨hclean, heq⟩
  · exact absurd hlt (Nat.lt_irrefl _)
  · have hlast := (List.append_inj' (hv.symm.trans hs) rfl).2
    exact absurd hlast (by decide)

/-! ### Reading objects -/

/-- What is left behind white space is the end of the text. -/
theorem suffix_skipSpace (s : Text) : skipSpace s <:+ s := List.dropWhile_suffix isSpace

/-- What is left behind an expected byte is the end of the text. -/
theorem suffix_expect {c : UInt8} {s t : Text} (h : expect c s = some t) : t <:+ s := by
  rw [expect] at h
  split at h
  · cases h
  · rename_i c' u hskip
    split at h
    · rw [← Option.some.inj h]
      exact (List.suffix_cons c' u).trans (hskip ▸ suffix_skipSpace s)
    · cases h

/-- Behind an item stands a comma, or the end of the list. -/
theorem separator_spec {close : UInt8} {s t : Text} {more : Bool}
    (h : separator close s = some (more, t)) : t <:+ s ∧ (more = false → close ∈ s) := by
  rw [separator] at h
  split at h
  · cases h
  · rename_i c u hskip
    have hsuffix : c :: u <:+ s := hskip ▸ suffix_skipSpace s
    split_ifs at h with hcomma hclose
    · obtain ⟨rfl, rfl⟩ := Prod.mk.inj (Option.some.inj h)
      exact ⟨(List.suffix_cons c u).trans hsuffix, fun hmore => absurd hmore (by simp)⟩
    · obtain ⟨rfl, rfl⟩ := Prod.mk.inj (Option.some.inj h)
      exact ⟨(List.suffix_cons c u).trans hsuffix, fun _ => hclose ▸ hsuffix.subset
        List.mem_cons_self⟩

/-- What is left behind the characters of a string is the end of the text. -/
theorem suffix_readChars {n : ℕ} {s v t : Text} (h : readChars n s = some (v, t)) : t <:+ s := by
  induction n generalizing s v with
  | zero => cases h
  | succ n ih =>
      rcases s with - | ⟨c, s⟩
      · cases h
      rw [readChars] at h
      refine List.IsSuffix.trans ?_ (List.suffix_cons c s)
      split_ifs at h
      · obtain ⟨-, rfl⟩ := Prod.mk.inj (Option.some.inj h)
        exact List.suffix_rfl
      · obtain ⟨⟨x, s₁⟩, hescape, hbind⟩ := Option.bind_eq_some_iff.mp h
        obtain ⟨⟨v₁, s₂⟩, hchars, heq⟩ := Option.bind_eq_some_iff.mp hbind
        obtain ⟨-, rfl⟩ := Prod.mk.inj (Option.some.inj heq)
        obtain ⟨raw, rfl, -⟩ := readEscape_spec hescape
        exact (ih hchars).trans (List.suffix_append raw s₁)
      · obtain ⟨⟨v₁, s₂⟩, hchars, heq⟩ := Option.bind_eq_some_iff.mp h
        obtain ⟨-, rfl⟩ := Prod.mk.inj (Option.some.inj heq)
        exact ih hchars

/-- What is left behind an optional byte is the end of the text. -/
theorem suffix_optional (cs s : Text) : (optional cs s).2 <:+ s := by
  rcases s with - | ⟨c, s⟩
  · exact List.suffix_rfl
  · rw [optional]
    split
    · exact List.suffix_cons c s
    · exact List.suffix_rfl

/-- What is left behind digits is the end of the text. -/
theorem suffix_digits (s : Text) : (digits s).2 <:+ s := List.dropWhile_suffix isDigit

/-- What is left behind an integer is the end of the text. -/
theorem suffix_readInt {s v t : Text} (h : readInt s = some (v, t)) : t <:+ s := by
  rcases s with - | ⟨c, s⟩
  · cases h
  rw [readInt] at h
  split_ifs at h
  · obtain ⟨-, rfl⟩ := Prod.mk.inj (Option.some.inj h)
    exact List.suffix_cons c s
  · obtain ⟨-, rfl⟩ := Prod.mk.inj (Option.some.inj h)
    exact suffix_digits (c :: s)

/-- What is left behind a part of a number is the end of the text. -/
theorem suffix_readPart {mark sign s v t : Text} (h : readPart mark sign s = some (v, t)) :
    t <:+ s := by
  have hmark := suffix_optional mark s
  rw [readPart] at h
  split at h
  · rename_i u hoptional
    obtain ⟨-, rfl⟩ := Prod.mk.inj (Option.some.inj h)
    rw [hoptional] at hmark
    exact hmark
  · rename_i m u hne hoptional
    dsimp only at h
    split_ifs at h
    obtain ⟨-, rfl⟩ := Prod.mk.inj (Option.some.inj h)
    rw [hoptional] at hmark
    exact ((suffix_digits _).trans (suffix_optional sign u)).trans hmark

/-- What is left behind a number is the end of the text. -/
theorem suffix_readNumber {s v t : Text} (h : readNumber s = some (v, t)) : t <:+ s := by
  rw [readNumber] at h
  obtain ⟨⟨int, s₁⟩, hint, h⟩ := Option.bind_eq_some_iff.mp h
  obtain ⟨⟨frac, s₂⟩, hfrac, h⟩ := Option.bind_eq_some_iff.mp h
  obtain ⟨⟨exp, s₃⟩, hexp, h⟩ := Option.bind_eq_some_iff.mp h
  obtain ⟨-, rfl⟩ := Prod.mk.inj (Option.some.inj h)
  exact (((suffix_readPart hexp).trans (suffix_readPart hfrac)).trans (suffix_readInt hint)).trans
    (suffix_optional [45] s)

/-- What is left behind a literal is the end of the text. -/
theorem suffix_readLiteral {s t : Text} {v : Value} (h : readLiteral s = some (v, t)) :
    t <:+ s := by
  rw [readLiteral] at h
  split_ifs at h
  · obtain ⟨-, rfl⟩ := Prod.mk.inj (Option.some.inj h)
    exact List.drop_suffix 4 s
  · obtain ⟨-, rfl⟩ := Prod.mk.inj (Option.some.inj h)
    exact List.drop_suffix 5 s
  · obtain ⟨-, rfl⟩ := Prod.mk.inj (Option.some.inj h)
    exact List.drop_suffix 4 s

/-- What is left behind a value, an array or an object is the end of the text, and an object has a
brace at its end. -/
structure LeavesEnd (n : ℕ) : Prop where
  value : ∀ {s v t}, readValue n s = some (v, t) → t <:+ s
  elements : ∀ {s vs t}, readElements n s = some (vs, t) → t <:+ s
  members : ∀ {s ms t}, readMembers n s = some (ms, t) → t <:+ s ∧ 125 ∈ s

/-- So it is behind a value one level higher. -/
theorem LeavesEnd.readValue {n : ℕ} (ih : LeavesEnd n) {s t : Text} {v : Value}
    (h : readValue (n + 1) s = some (v, t)) : t <:+ s := by
  rcases s with - | ⟨c, s⟩
  · rw [JsonText.readValue] at h
    cases h
  rw [JsonText.readValue] at h
  have hcons : s <:+ c :: s := List.suffix_cons c s
  split_ifs at h
  · obtain ⟨⟨w, u⟩, hchars, heq⟩ := Option.map_eq_some_iff.mp h
    obtain ⟨-, rfl⟩ := Prod.mk.inj heq
    exact (suffix_readChars hchars).trans hcons
  · split at h
    · rename_i u hclose
      obtain ⟨-, rfl⟩ := Prod.mk.inj (Option.some.inj h)
      exact (suffix_expect hclose).trans hcons
    · obtain ⟨⟨ms, u⟩, hmembers, heq⟩ := Option.map_eq_some_iff.mp h
      obtain ⟨-, rfl⟩ := Prod.mk.inj heq
      exact (ih.members hmembers).1.trans hcons
  · split at h
    · rename_i u hclose
      obtain ⟨-, rfl⟩ := Prod.mk.inj (Option.some.inj h)
      exact (suffix_expect hclose).trans hcons
    · obtain ⟨⟨vs, u⟩, helements, heq⟩ := Option.map_eq_some_iff.mp h
      obtain ⟨-, rfl⟩ := Prod.mk.inj heq
      exact (ih.elements helements).trans hcons
  · split at h
    · rename_i p hliteral
      obtain rfl := Option.some.inj h
      exact suffix_readLiteral hliteral
    · obtain ⟨⟨w, u⟩, hnumber, heq⟩ := Option.map_eq_some_iff.mp h
      obtain ⟨-, rfl⟩ := Prod.mk.inj heq
      exact suffix_readNumber hnumber

/-- So it is behind the elements one level higher. -/
theorem LeavesEnd.readElements {n : ℕ} (ih : LeavesEnd n) {s t : Text} {vs : List Value}
    (h : readElements (n + 1) s = some (vs, t)) : t <:+ s := by
  rw [JsonText.readElements] at h
  obtain ⟨⟨v, s₁⟩, hvalue, h⟩ := Option.bind_eq_some_iff.mp h
  obtain ⟨⟨more, s₂⟩, hseparator, h⟩ := Option.bind_eq_some_iff.mp h
  have hrest : s₂ <:+ s :=
    ((separator_spec hseparator).1.trans (ih.value hvalue)).trans (suffix_skipSpace s)
  dsimp only at h
  split_ifs at h
  · obtain ⟨⟨vs', s₃⟩, helements, h⟩ := Option.bind_eq_some_iff.mp h
    obtain ⟨-, rfl⟩ := Prod.mk.inj (Option.some.inj h)
    exact (ih.elements helements).trans hrest
  · obtain ⟨-, rfl⟩ := Prod.mk.inj (Option.some.inj h)
    exact hrest

/-- So it is behind the members one level higher, which end at a brace. -/
theorem LeavesEnd.readMembers {n : ℕ} (ih : LeavesEnd n) {s t : Text} {ms : List (Text × Value)}
    (h : readMembers (n + 1) s = some (ms, t)) : t <:+ s ∧ 125 ∈ s := by
  rw [JsonText.readMembers] at h
  obtain ⟨s₁, hopen, h⟩ := Option.bind_eq_some_iff.mp h
  obtain ⟨⟨key, s₂⟩, hkey, h⟩ := Option.bind_eq_some_iff.mp h
  obtain ⟨s₃, hcolon, h⟩ := Option.bind_eq_some_iff.mp h
  obtain ⟨⟨v, s₄⟩, hvalue, h⟩ := Option.bind_eq_some_iff.mp h
  obtain ⟨⟨more, s₅⟩, hseparator, h⟩ := Option.bind_eq_some_iff.mp h
  have hfront : s₄ <:+ s := ((((ih.value hvalue).trans (suffix_skipSpace s₃)).trans
    (suffix_expect hcolon)).trans (suffix_readChars hkey)).trans (suffix_expect hopen)
  obtain ⟨hsuffix, hclose⟩ := separator_spec hseparator
  dsimp only at h
  split_ifs at h with hmore
  · obtain ⟨⟨ms', s₆⟩, hmembers, h⟩ := Option.bind_eq_some_iff.mp h
    obtain ⟨-, rfl⟩ := Prod.mk.inj (Option.some.inj h)
    obtain ⟨hrest, hmem⟩ := ih.members hmembers
    exact ⟨(hrest.trans hsuffix).trans hfront, (hsuffix.trans hfront).subset hmem⟩
  · obtain ⟨-, rfl⟩ := Prod.mk.inj (Option.some.inj h)
    exact ⟨hsuffix.trans hfront, hfront.subset (hclose (by simpa using hmore))⟩

/-- **What is left** is the end of the text. -/
theorem leavesEnd (n : ℕ) : LeavesEnd n := by
  induction n with
  | zero =>
      refine ⟨fun h => ?_, fun h => ?_, fun h => ?_⟩
      · rw [readValue] at h
        cases h
      · rw [readElements] at h
        cases h
      · rw [readMembers] at h
        cases h
  | succ n ih => exact ⟨ih.readValue, ih.readElements, ih.readMembers⟩

/-- In front of another byte there is no white space to be skipped. -/
theorem skipSpace_cons {c : UInt8} (hc : isSpace c = false) (s : Text) :
    skipSpace (c :: s) = c :: s := by
  rw [skipSpace, List.dropWhile_cons_of_neg (by rw [hc]; exact Bool.false_ne_true)]

/-- The expected byte is read. -/
theorem expect_cons {c : UInt8} (hc : isSpace c = false) (s : Text) :
    expect c (c :: s) = some s := by
  rw [expect, skipSpace_cons hc]
  exact if_pos rfl

/-- What follows the value of a member: other members, or the end of the object. -/
def AfterMember (n : ℕ) (s : Text) (ms : List (Text × Value)) (rest : Text) : Prop :=
  (∃ t, separator 125 s = some (true, t) ∧ readMembers n t = some (ms, rest)) ∨
    separator 125 s = some (false, rest) ∧ ms = []

/-- The end of an object is a brace. -/
theorem AfterMember.mem {n : ℕ} {s rest : Text} {ms : List (Text × Value)}
    (h : AfterMember n s ms rest) : 125 ∈ s := by
  obtain ⟨t, hseparator, hmembers⟩ | ⟨hseparator, -⟩ := h
  · exact (separator_spec hseparator).1.subset ((leavesEnd n).members hmembers).2
  · exact (separator_spec hseparator).2 rfl

/-- Behind a comma there are other members. -/
theorem AfterMember.of_comma {n : ℕ} {s rest : Text} {ms : List (Text × Value)}
    (h : AfterMember n (44 :: s) ms rest) : readMembers n s = some (ms, rest) := by
  have hcomma : separator 125 (44 :: s) = some (true, s) := by
    rw [separator, skipSpace_cons (by decide)]
    exact if_pos rfl
  obtain ⟨t, hseparator, hmembers⟩ | ⟨hseparator, -⟩ := h
  · rw [hcomma] at hseparator
    obtain rfl := (Prod.mk.inj (Option.some.inj hseparator)).2
    exact hmembers
  · rw [hcomma] at hseparator
    cases hseparator

/-- A member is its name, its value, and what follows it. -/
theorem readMembers_cases {n : ℕ} {key s rest : Text} {ms : List (Text × Value)} (hkey : Clean key)
    (h : readMembers (n + 1) (34 :: (key ++ 34 :: 58 :: s)) = some (ms, rest)) :
    ∃ v t ms', readValue n (skipSpace s) = some (v, t) ∧ ms = (key, v) :: ms' ∧
      AfterMember n t ms' rest := by
  rw [readMembers] at h
  obtain ⟨s₁, hopen, h⟩ := Option.bind_eq_some_iff.mp h
  obtain ⟨⟨key', s₂⟩, hchars, h⟩ := Option.bind_eq_some_iff.mp h
  obtain ⟨s₃, hcolon, h⟩ := Option.bind_eq_some_iff.mp h
  obtain ⟨⟨v, s₄⟩, hvalue, h⟩ := Option.bind_eq_some_iff.mp h
  obtain ⟨⟨more, s₅⟩, hseparator, h⟩ := Option.bind_eq_some_iff.mp h
  rw [expect_cons (by decide)] at hopen
  obtain rfl := Option.some.inj hopen
  rw [readChars_clean hkey] at hchars
  split_ifs at hchars
  obtain ⟨rfl, rfl⟩ := Prod.mk.inj (Option.some.inj hchars)
  rw [expect_cons (by decide)] at hcolon
  obtain rfl := Option.some.inj hcolon
  dsimp only at h
  cases more with
  | false =>
      obtain ⟨rfl, rfl⟩ := Prod.mk.inj (Option.some.inj h)
      exact ⟨v, s₄, [], hvalue, rfl, Or.inr ⟨hseparator, rfl⟩⟩
  | true =>
      obtain ⟨⟨ms', s₆⟩, hmembers, heq⟩ := Option.bind_eq_some_iff.mp h
      obtain ⟨rfl, rfl⟩ := Prod.mk.inj (Option.some.inj heq)
      exact ⟨v, s₄, ms', hvalue, rfl, Or.inl ⟨s₅, hseparator, hmembers⟩⟩

/-- **A member whose value is a string.** -/
theorem readMembers_string {n : ℕ} {key s rest : Text} {ms : List (Text × Value)} (hkey : Clean key)
    (h : readMembers n (34 :: (key ++ 34 :: 58 :: 34 :: s)) = some (ms, rest)) :
    ∃ k m v t ms', readChars k s = some (v, t) ∧ ms = (key, .string v) :: ms' ∧
      AfterMember m t ms' rest := by
  rcases n with - | n
  · rw [readMembers] at h
    cases h
  obtain ⟨v, t, ms', hvalue, rfl, hafter⟩ := readMembers_cases hkey h
  rw [skipSpace_cons (by decide)] at hvalue
  rcases n with - | n
  · rw [readValue] at hvalue
    cases hvalue
  · rw [readValue, if_pos rfl] at hvalue
    obtain ⟨⟨w, u⟩, hchars, heq⟩ := Option.map_eq_some_iff.mp hvalue
    obtain ⟨rfl, rfl⟩ := Prod.mk.inj heq
    exact ⟨n, n + 1, w, u, ms', hchars, rfl, hafter⟩

/-- A member whose value is a string without escapes, and the next one. -/
theorem readMembers_clean {n : ℕ} {key val s rest : Text} {ms : List (Text × Value)}
    (hkey : Clean key) (hval : Clean val)
    (h : readMembers n (34 :: (key ++ 34 :: 58 :: 34 :: (val ++ 34 :: 44 :: s))) =
      some (ms, rest)) :
    ∃ m ms', ms = (key, .string val) :: ms' ∧ readMembers m s = some (ms', rest) := by
  obtain ⟨k, m, v, t, ms', hchars, rfl, hafter⟩ := readMembers_string hkey h
  rw [readChars_clean hval] at hchars
  split_ifs at hchars
  obtain ⟨rfl, rfl⟩ := Prod.mk.inj (Option.some.inj hchars)
  exact ⟨m, ms', rfl, hafter.of_comma⟩

/-- **An object** that begins with the name of a member. -/
theorem readValue_object {n : ℕ} {s rest : Text} {v : Value}
    (h : readValue n (123 :: 34 :: s) = some (v, rest)) :
    ∃ m ms, v = .object ms ∧ readMembers m (34 :: s) = some (ms, rest) := by
  rcases n with - | n
  · rw [readValue] at h
    cases h
  · rw [readValue, if_neg (by decide), if_pos rfl, expect, skipSpace_cons (by decide)] at h
    obtain ⟨⟨ms, t⟩, hmembers, heq⟩ := Option.map_eq_some_iff.mp h
    obtain ⟨rfl, rfl⟩ := Prod.mk.inj heq
    exact ⟨n, ms, rfl, hmembers⟩

/-! ### What is read -/

/-- An object is read if its members are. -/
theorem readValue_of_members {n : ℕ} {s rest : Text} {ms : List (Text × Value)}
    (h : readMembers n (34 :: s) = some (ms, rest)) :
    readValue (n + 1) (123 :: 34 :: s) = some (.object ms, rest) := by
  rw [readValue, if_neg (by decide), if_pos rfl, expect, skipSpace_cons (by decide)]
  exact congrArg (Option.map fun p => (Value.object p.1, p.2)) h

/-- A member in front of others. -/
theorem readMembers_cons {n : ℕ} {key s t : Text} {v : Value} (hkey : Clean key)
    (hn : key.length < n) (hvalue : readValue n (skipSpace s) = some (v, 44 :: t)) :
    readMembers (n + 1) (34 :: (key ++ 34 :: 58 :: s)) =
      (readMembers n t).map fun p => ((key, v) :: p.1, p.2) := by
  have hcomma : separator 125 (44 :: t) = some (true, t) := by
    rw [separator, skipSpace_cons (by decide)]
    exact if_pos rfl
  rw [readMembers]
  simp only [expect_cons (show isSpace 34 = false by decide), Option.bind_eq_bind, Option.bind_some,
    readChars_clean hkey, if_pos hn, expect_cons (show isSpace 58 = false by decide), hvalue,
    hcomma, if_true]
  cases readMembers n t <;> rfl

/-- The last member of an object. -/
theorem readMembers_last {n : ℕ} {key s t : Text} {v : Value} (hkey : Clean key)
    (hn : key.length < n) (hvalue : readValue n (skipSpace s) = some (v, 125 :: t)) :
    readMembers (n + 1) (34 :: (key ++ 34 :: 58 :: s)) = some ([(key, v)], t) := by
  have hclose : separator 125 (125 :: t) = some (false, t) := by
    rw [separator, skipSpace_cons (by decide)]
    rfl
  rw [readMembers]
  simp only [expect_cons (show isSpace 34 = false by decide), Option.bind_eq_bind, Option.bind_some,
    readChars_clean hkey, if_pos hn, expect_cons (show isSpace 58 = false by decide), hvalue,
    hclose, Bool.false_eq_true, if_false]
  rfl

/-- A string without escapes. -/
theorem readValue_string {n : ℕ} {val : Text} (hval : Clean val) (hn : val.length < n) (t : Text) :
    readValue (n + 1) (34 :: (val ++ 34 :: t)) = some (.string val, t) := by
  rw [readValue, if_pos rfl, readChars_clean hval, if_pos hn]
  rfl

/-- The digits of a number without a zero in front of others. -/
def IsNatural (s : Text) : Prop :=
  s = [48] ∨ ∃ c ds, s = c :: ds ∧ c ≠ 48 ∧ ∀ d ∈ c :: ds, isDigit d = true

/-- The digits in front of another byte are read. -/
theorem digits_append {ds : Text} (h : ∀ d ∈ ds, isDigit d = true) {c : UInt8}
    (hc : isDigit c = false) (t : Text) : digits (ds ++ c :: t) = (ds, c :: t) := by
  have hc' : ¬isDigit c = true := Bool.eq_false_iff.mp hc
  rw [digits, List.takeWhile_append_of_pos h, List.dropWhile_append_of_pos h,
    List.takeWhile_cons_of_neg hc', List.dropWhile_cons_of_neg hc', List.append_nil]

/-- A byte that is not there is left out. -/
theorem optional_of_not {cs : Text} {c : UInt8} (h : c ∉ cs) (s : Text) :
    optional cs (c :: s) = ([], c :: s) := by
  rw [optional, if_neg fun hmem => h (List.contains_iff_mem.mp hmem)]

/-- A natural number begins with a digit. -/
theorem IsNatural.exists_cons {s : Text} (h : IsNatural s) :
    ∃ c ds, s = c :: ds ∧ isDigit c = true := by
  obtain rfl | ⟨c, ds, rfl, -, hall⟩ := h
  · exact ⟨48, [], rfl, rfl⟩
  · exact ⟨c, ds, rfl, hall c List.mem_cons_self⟩

/-- A natural number has digits only. -/
theorem IsNatural.isDigit {s : Text} (h : IsNatural s) : ∀ c ∈ s, isDigit c = true := by
  obtain rfl | ⟨c, ds, rfl, -, hall⟩ := h
  · exact List.forall_mem_singleton.mpr rfl
  · exact hall

/-- A natural number is read as an integer. -/
theorem readInt_natural {s : Text} (h : IsNatural s) {c : UInt8} (hc : isDigit c = false)
    (t : Text) : readInt (s ++ c :: t) = some (s, c :: t) := by
  obtain rfl | ⟨c', ds, rfl, hne, hall⟩ := h
  · rfl
  · rw [List.cons_append, readInt, if_neg hne, if_pos (hall c' List.mem_cons_self),
      ← List.cons_append, digits_append hall hc]

/-- **A natural number** is read up to the comma or the brace behind it. -/
theorem readNumber_natural {s : Text} (h : IsNatural s) {c : UInt8} (hc : c = 44 ∨ c = 125)
    (t : Text) : readNumber (s ++ c :: t) = some (s, c :: t) := by
  have hdigit : isDigit c = false := by
    rcases hc with rfl | rfl <;> rfl
  have hminus : optional [45] (s ++ c :: t) = ([], s ++ c :: t) := by
    obtain ⟨c', ds, rfl, hc'⟩ := h.exists_cons
    refine optional_of_not (fun hmem => ?_) _
    rw [List.mem_singleton.mp hmem] at hc'
    cases hc'
  have hpart : ∀ mark sign : Text, c ∉ mark → readPart mark sign (c :: t) = some ([], c :: t) := by
    intro mark sign hmark
    rw [readPart, optional_of_not hmark]
  have hmarks : c ∉ [46] ∧ c ∉ [69, 101] := by
    rcases hc with rfl | rfl <;> decide
  rw [readNumber, hminus]
  simp only [readInt_natural h hdigit, Option.bind_eq_bind, Option.bind_some, hpart _ _ hmarks.1,
    hpart _ _ hmarks.2, List.append_nil, List.nil_append]
  rfl

/-- A natural number is read as a value. -/
theorem readValue_natural {n : ℕ} {s : Text} (h : IsNatural s) {c : UInt8} (hc : c = 44 ∨ c = 125)
    (t : Text) : readValue (n + 1) (s ++ c :: t) = some (.number s, c :: t) := by
  have hnumber := readNumber_natural h hc t
  obtain ⟨c', ds, rfl, hc'⟩ := h.exists_cons
  have hne : ∀ b : UInt8, isDigit b = false → c' ≠ b := by
    rintro b hb rfl
    exact Bool.false_ne_true (hb.symm.trans hc')
  have hliteral : readLiteral (c' :: (ds ++ c :: t)) = none := by
    rw [readLiteral, if_neg fun hp => hne 116 rfl (List.cons_prefix_cons.mp hp).1.symm,
      if_neg fun hp => hne 102 rfl (List.cons_prefix_cons.mp hp).1.symm,
      if_neg fun hp => hne 110 rfl (List.cons_prefix_cons.mp hp).1.symm]
  rw [List.cons_append] at hnumber ⊢
  rw [readValue, if_neg (hne 34 rfl), if_neg (hne 123 rfl), if_neg (hne 91 rfl), hliteral, hnumber]
  rfl

/-- In front of a natural number there is no white space. -/
theorem skipSpace_natural {s : Text} (h : IsNatural s) (t : Text) :
    skipSpace (s ++ t) = s ++ t := by
  obtain ⟨c, ds, rfl, hc⟩ := h.exists_cons
  refine skipSpace_cons (Bool.eq_false_iff.mpr fun hspace => ?_) (ds ++ t)
  have hcases : c = 32 ∨ c = 9 ∨ c = 10 ∨ c = 13 := by
    simpa only [isSpace, Bool.or_eq_true, decide_eq_true_eq, or_assoc] using hspace
  obtain rfl | rfl | rfl | rfl := hcases <;> cases hc

/-- A member whose value is a string, in front of others. -/
theorem readMembers_string_cons {n : ℕ} {key val : Text} (hkey : Clean key) (hval : Clean val)
    (hkeyLength : key.length ≤ n) (hvalLength : val.length < n) (s : Text) :
    readMembers (n + 2) (34 :: (key ++ 34 :: 58 :: 34 :: (val ++ 34 :: 44 :: s))) =
      (readMembers (n + 1) s).map fun p => ((key, .string val) :: p.1, p.2) := by
  refine readMembers_cons hkey (Nat.lt_succ_of_le hkeyLength) ?_
  rw [skipSpace_cons (by decide)]
  exact readValue_string hval hvalLength (44 :: s)

/-- A member whose value is a number, in front of others. -/
theorem readMembers_natural_cons {n : ℕ} {key num : Text} (hkey : Clean key) (hnum : IsNatural num)
    (hkeyLength : key.length ≤ n) (s : Text) :
    readMembers (n + 2) (34 :: (key ++ 34 :: 58 :: (num ++ 44 :: s))) =
      (readMembers (n + 1) s).map fun p => ((key, .number num) :: p.1, p.2) := by
  refine readMembers_cons hkey (Nat.lt_succ_of_le hkeyLength) ?_
  rw [skipSpace_natural hnum]
  exact readValue_natural hnum (Or.inl rfl) s

/-- A member whose value is a number, at the end. -/
theorem readMembers_natural_last {n : ℕ} {key num : Text} (hkey : Clean key) (hnum : IsNatural num)
    (hkeyLength : key.length ≤ n) (s : Text) :
    readMembers (n + 2) (34 :: (key ++ 34 :: 58 :: (num ++ 125 :: s))) =
      some ([(key, .number num)], s) := by
  refine readMembers_last hkey (Nat.lt_succ_of_le hkeyLength) ?_
  rw [skipSpace_natural hnum]
  exact readValue_natural hnum (Or.inr rfl) s

end JsonText
