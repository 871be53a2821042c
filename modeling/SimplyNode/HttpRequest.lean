import Mathlib.Data.UInt
import Mathlib.Data.List.Lex
import Mathlib.Data.Nat.Basic

/-!
# HTTP Requests and the Text They Are Read From

The bytes of a stream and what the request parser does with them through the standard library:
the first line of a buffer (`find`, `substr` and `erase`), words of an input stream, `getline`
with a separator, `stoul`, and the ordered maps that hold query parameters and headers. The
character classes are those of the default locale. Over them `HttpRequest`
(`HttpRequest.h/.cpp`), the value the parser fills in.

## Main results

* `nextLine_append`, `nextLine_snoc`: the first line of a buffer stays its first line when
  bytes are appended; a byte that completes a line is the last one of the buffer.
* `StringMap.insertOrAssign`: the map stays ordered by its keys.
-/

namespace SimplyNode

/-- A string of the program: its bytes. -/
abbrev Bytes := List UInt8

namespace Text

/-- The bytes of a literal. -/
def bytes (s : String) : Bytes := s.toList.map fun c => c.val.toUInt8

/-- `std::isspace`. -/
def isspace (c : UInt8) : Bool := c = 32 || (9 ≤ c && c ≤ 13)

/-- `std::toupper`. -/
def toupper (c : UInt8) : UInt8 := if 97 ≤ c && c ≤ 122 then c - 32 else c

/-- `std::tolower`. -/
def tolower (c : UInt8) : UInt8 := if 65 ≤ c && c ≤ 90 then c + 32 else c

/-- `stream >> word`: skips white space and reads up to the next one; fails without a
character. -/
def nextWord (s : Bytes) : Option (Bytes × Bytes) :=
  let s := s.dropWhile isspace
  if s = [] then none
  else some (s.takeWhile fun c => !isspace c, s.dropWhile fun c => !isspace c)

/-- `find(sep)`, `substr(0, pos)` and `substr(pos + 1)`: what stands before and behind the
first `sep`. -/
def cutAt (sep : UInt8) (s : Bytes) : Option (Bytes × Bytes) :=
  if sep ∈ s then some (s.takeWhile (· ≠ sep), (s.dropWhile (· ≠ sep)).tail) else none

/-- The fields `std::getline(stream, field, sep)` yields one after the other: an end of the
stream directly behind a separator yields none. -/
def getlines (sep : UInt8) : Bytes → List Bytes
  | [] => []
  | c :: s =>
      if c = sep then [] :: getlines sep s
      else
        match getlines sep s with
        | [] => [[c]]
        | field :: fields => (c :: field) :: fields

/-- `find(pattern) != npos`. -/
def contains (pattern : Bytes) : Bytes → Bool
  | [] => pattern.isEmpty
  | c :: s => pattern.isPrefixOf (c :: s) || contains pattern s

/-- Removing blanks and tabs at both ends. -/
def trim (s : Bytes) : Bytes :=
  let blank : UInt8 → Bool := fun c => c = 32 || c = 9
  ((s.dropWhile blank).reverse.dropWhile blank).reverse

/-- The value of a digit or letter. -/
def digitValue (c : UInt8) : Option ℕ :=
  if 48 ≤ c && c ≤ 57 then some (c.toNat - 48)
  else if 97 ≤ c && c ≤ 122 then some (c.toNat - 87)
  else if 65 ≤ c && c ≤ 90 then some (c.toNat - 55)
  else none

/-- The digits at the head of a string, in a base. -/
def digits (base : ℕ) : Bytes → List ℕ
  | [] => []
  | c :: s =>
      match digitValue c with
      | some d => if d < base then d :: digits base s else []
      | none => []

/-- The number of values of an `unsigned long` and of a `size_t`. -/
def wordSize : ℕ := 2 ^ 64

/-- Base 16 admits a prefix `0x` when a digit stands behind it. -/
def skipBasePrefix (base : ℕ) : Bytes → Bytes
  | c :: x :: s =>
      if base = 16 ∧ c = 48 ∧ tolower x = 120 ∧ digits 16 s ≠ [] then s else c :: x :: s
  | s => s

/-- `std::stoul(s, nullptr, base)`: skips white space, reads a sign, in base 16 a prefix `0x`,
and then digits; what follows them is ignored. A minus sign negates the value modulo the word
size. Without a digit, and for a number too large, it throws. -/
def stoul (s : Bytes) (base : ℕ) : Option ℕ :=
  let s := s.dropWhile isspace
  let negative : Bool := s.head? = some 45
  let s := if s.head? = some 45 || s.head? = some 43 then s.tail else s
  let ds := digits base (skipBasePrefix base s)
  let n := ds.foldl (fun n d => base * n + d) 0
  if ds = [] then none
  else if wordSize ≤ n then none
  else some (if negative then (wordSize - n) % wordSize else n)

/-! ### Lines -/

/-- The first line of a buffer and what follows it: `find("\r\n")`, `substr(0, pos)` and
`erase(0, pos + 2)`; `none` where the buffer holds no end of line. -/
def nextLine : Bytes → Option (Bytes × Bytes)
  | c :: d :: rest =>
      if c = 13 ∧ d = 10 then some ([], rest)
      else (nextLine (d :: rest)).map fun p => (c :: p.1, p.2)
  | _ => none

/-- The end of a line. -/
theorem nextLine_end {c d : UInt8} (h : c = 13 ∧ d = 10) (rest : Bytes) :
    nextLine (c :: d :: rest) = some ([], rest) := if_pos h

/-- A byte of a line. -/
theorem nextLine_byte {c d : UInt8} (h : ¬(c = 13 ∧ d = 10)) (rest : Bytes) :
    nextLine (c :: d :: rest) = (nextLine (d :: rest)).map fun p => (c :: p.1, p.2) := if_neg h

/-- A buffer with fewer than two bytes has no end of line. -/
theorem nextLine_short {b : Bytes} (hb : ∀ c d rest, b ≠ c :: d :: rest) : nextLine b = none := by
  match b with
  | [] => rfl
  | [_] => rfl
  | c :: d :: rest => exact absurd rfl (hb c d rest)

/-- A line and its end are the head of the buffer. -/
theorem nextLine_eq_append {b l r : Bytes} (h : nextLine b = some (l, r)) :
    b = l ++ 13 :: 10 :: r := by
  induction b using nextLine.induct generalizing l with
  | case1 c d rest hcd =>
      rw [nextLine_end hcd, Option.some.injEq, Prod.mk.injEq] at h
      obtain ⟨rfl, rfl⟩ := hcd
      obtain ⟨rfl, rfl⟩ := h
      rfl
  | case2 c d rest hcd ih =>
      rw [nextLine_byte hcd, Option.map_eq_some_iff] at h
      obtain ⟨⟨l', r'⟩, hl, heq⟩ := h
      obtain ⟨rfl, rfl⟩ := Prod.mk.inj heq
      rw [ih hl]
      rfl
  | case3 b hb =>
      rw [nextLine_short hb] at h
      cases h

/-- Taking a line shortens the buffer. -/
theorem length_of_nextLine {b l r : Bytes} (h : nextLine b = some (l, r)) :
    r.length < b.length := by
  have := congrArg List.length (nextLine_eq_append h)
  simp only [List.length_append, List.length_cons] at this
  omega

/-- The first line stays the first line when bytes are appended. -/
theorem nextLine_append {b l r : Bytes} (h : nextLine b = some (l, r)) (t : Bytes) :
    nextLine (b ++ t) = some (l, r ++ t) := by
  induction b using nextLine.induct generalizing l with
  | case1 c d rest hcd =>
      rw [nextLine_end hcd, Option.some.injEq, Prod.mk.injEq] at h
      obtain ⟨rfl, rfl⟩ := h
      rw [List.cons_append, List.cons_append, nextLine_end hcd]
  | case2 c d rest hcd ih =>
      rw [nextLine_byte hcd, Option.map_eq_some_iff] at h
      obtain ⟨⟨l', r'⟩, hl, heq⟩ := h
      obtain ⟨rfl, rfl⟩ := Prod.mk.inj heq
      have := ih hl
      rw [List.cons_append] at this
      rw [List.cons_append, List.cons_append, nextLine_byte hcd, this]
      rfl
  | case3 b hb =>
      rw [nextLine_short hb] at h
      cases h

/-- The bytes of a line and its end alone are the line with nothing behind it. -/
theorem nextLine_cut {b l r : Bytes} (h : nextLine b = some (l, r)) :
    nextLine (l ++ [13, 10]) = some (l, []) := by
  induction b using nextLine.induct generalizing l with
  | case1 c d rest hcd =>
      rw [nextLine_end hcd, Option.some.injEq, Prod.mk.injEq] at h
      obtain ⟨rfl, rfl⟩ := h
      rfl
  | case2 c d rest hcd ih =>
      have hb := nextLine_eq_append h
      rw [nextLine_byte hcd, Option.map_eq_some_iff] at h
      obtain ⟨⟨l', r'⟩, hl, heq⟩ := h
      obtain ⟨rfl, rfl⟩ := Prod.mk.inj heq
      have hrest := ih hl
      -- the byte behind `c` is that of the whole buffer, so `c` still ends no line
      cases l' with
      | nil =>
          have hd : ¬ (c = 13 ∧ (13 : UInt8) = 10) := by simp
          rw [List.singleton_append, nextLine_byte hd]
          rfl
      | cons e l'' =>
          have he : d = e := by
            have := congrArg (fun s => s[1]?) hb
            simpa using this
          rw [List.cons_append, List.cons_append, nextLine_byte (he ▸ hcd)]
          rw [List.cons_append] at hrest
          rw [hrest]
          rfl
  | case3 b hb =>
      rw [nextLine_short hb] at h
      cases h

/-- A byte that completes a line is the last one of the buffer. -/
theorem nextLine_snoc {b l r : Bytes} {c : UInt8} (hb : nextLine b = none)
    (h : nextLine (b ++ [c]) = some (l, r)) : r = [] := by
  -- otherwise the line would end inside `b`
  rcases List.eq_nil_or_concat r with rfl | ⟨r', d, rfl⟩
  · rfl
  · rw [List.concat_eq_append] at h
    have heq := nextLine_eq_append h
    have hcut : b = l ++ 13 :: 10 :: r' := by
      have hcons : l ++ 13 :: 10 :: (r' ++ [d]) = (l ++ 13 :: 10 :: r') ++ [d] := by simp
      rw [hcons] at heq
      exact (List.append_inj' heq rfl).1
    have hline := nextLine_append (nextLine_cut h) r'
    rw [List.append_assoc, List.nil_append] at hline
    rw [hcut] at hb
    simp only [List.cons_append, List.nil_append] at hline
    rw [hline] at hb
    cases hb

end Text

/-! ### Ordered maps -/

/-- The bytes are ordered by their values. -/
instance instLinearOrderUInt8 : LinearOrder UInt8 where
  le_refl := UInt8.le_refl
  le_trans _ _ _ := UInt8.le_trans
  le_antisymm _ _ := UInt8.le_antisymm
  le_total := UInt8.le_total
  lt_iff_le_not_ge a b := by
    rw [UInt8.lt_iff_toNat_lt, UInt8.le_iff_toNat_le, UInt8.le_iff_toNat_le]
    omega
  toDecidableLE := inferInstance

/-- `std::map<std::string, std::string>`: entries ordered by their keys. -/
structure StringMap where
  entries : List (Bytes × Bytes) := []
  sorted : entries.Pairwise (fun a b => a.1 < b.1) := by simp
  deriving DecidableEq

namespace StringMap

/-- The map without entries. -/
def empty : StringMap := {}

/-- Writing an entry into an ordered list of entries. -/
def assign (key value : Bytes) : List (Bytes × Bytes) → List (Bytes × Bytes)
  | [] => [(key, value)]
  | e :: es =>
      if key < e.1 then (key, value) :: e :: es
      else if key = e.1 then (key, value) :: es
      else e :: assign key value es

theorem mem_assign {key value : Bytes} {es : List (Bytes × Bytes)} {e : Bytes × Bytes}
    (h : e ∈ assign key value es) : e = (key, value) ∨ e ∈ es := by
  induction es with
  | nil => exact Or.inl (List.mem_singleton.mp h)
  | cons d es ih =>
      rw [assign] at h
      split at h
      · exact List.mem_cons.mp h
      · split at h
        · exact (List.mem_cons.mp h).imp_right (List.mem_cons_of_mem d)
        · rcases List.mem_cons.mp h with rfl | h
          · exact Or.inr List.mem_cons_self
          · exact (ih h).imp_right (List.mem_cons_of_mem d)

theorem pairwise_assign {key value : Bytes} {es : List (Bytes × Bytes)}
    (h : es.Pairwise fun a b => a.1 < b.1) :
    (assign key value es).Pairwise fun a b => a.1 < b.1 := by
  induction es with
  | nil => exact List.pairwise_singleton _ _
  | cons e es ih =>
      obtain ⟨hhead, htail⟩ := List.pairwise_cons.mp h
      rw [assign]
      split
      · rename_i hlt
        refine List.pairwise_cons.mpr ⟨fun d hd => ?_, h⟩
        rcases List.mem_cons.mp hd with rfl | hd
        · exact hlt
        · exact lt_trans hlt (hhead d hd)
      · rename_i hlt
        split
        · rename_i heq
          exact List.pairwise_cons.mpr ⟨fun d hd => heq ▸ hhead d hd, htail⟩
        · rename_i hne
          refine List.pairwise_cons.mpr ⟨fun d hd => ?_, ih htail⟩
          rcases mem_assign hd with rfl | hd
          · exact lt_of_le_of_ne (not_lt.mp hlt) (Ne.symm hne)
          · exact hhead d hd

/-- `map[key] = value`. -/
def insertOrAssign (m : StringMap) (key value : Bytes) : StringMap where
  entries := assign key value m.entries
  sorted := pairwise_assign m.sorted

/-- The value of an entry, if there is one (`map.find(key)`). -/
def lookup (m : StringMap) (key : Bytes) : Option Bytes :=
  (m.entries.find? fun e => e.1 = key).map Prod.snd

theorem lookup_insertOrAssign (m : StringMap) (key value key' : Bytes) :
    (m.insertOrAssign key value).lookup key' =
      if key = key' then some value else m.lookup key' := by
  rw [lookup, lookup, insertOrAssign]
  dsimp only
  induction m.entries with
  | nil => by_cases h : key = key' <;> simp [assign, h]
  | cons e es ih =>
      rw [assign]
      by_cases h : key = key'
      · -- the entry stands in front of all others with its key
        subst h
        rw [if_pos rfl] at ih ⊢
        split
        · simp
        · split
          · simp
          · rename_i hne
            rw [List.find?_cons_of_neg (by simpa using Ne.symm hne)]
            exact ih
      · rw [if_neg h] at ih ⊢
        split
        · rw [List.find?_cons_of_neg (by simpa using h)]
        · split
          · rename_i heq
            rw [List.find?_cons_of_neg (by simpa using h),
              List.find?_cons_of_neg (by simpa using heq ▸ h)]
          · by_cases he : e.1 = key'
            · rw [List.find?_cons_of_pos (by simpa using he),
                List.find?_cons_of_pos (by simpa using he)]
            · rw [List.find?_cons_of_neg (by simpa using he),
                List.find?_cons_of_neg (by simpa using he)]
              exact ih

end StringMap

/-! ### Requests -/

/-- A parsed request (`HttpRequest`). -/
structure HttpRequest where
  method : Bytes := []
  path : Bytes := []
  queryParams : StringMap := .empty
  headers : StringMap := .empty
  body : Bytes := []
  deriving DecidableEq

namespace HttpRequest

/-- `HttpRequest::getHeader`: the first entry whose key is `key` up to the case of letters. -/
def getHeader (headers : StringMap) (key : Bytes) : Bytes :=
  match headers.entries.find? fun e => e.1.map Text.tolower = key.map Text.tolower with
  | some e => e.2
  | none => []

end HttpRequest

end SimplyNode
