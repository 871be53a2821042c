import SimplyNode.HttpRequest

/-!
# The Key of a Handshake

A client sends sixteen random bytes as its key, in base64, and the server answers with the SHA-1 of
this key and a fixed text, in base64 again (`WebSocketHandshake.cpp`).

## Main results

* `base64Decode_base64Encode`: what was encoded is decoded.
* `isValidClientKey_base64Encode`: sixteen bytes make a valid key.
* `mem_base64Encode`: the characters of an encoded text.
-/

namespace SimplyNode

open Text

namespace WebSocketHandshake

/-! ### Base64 -/

/-- The characters for the values below 64. -/
def alphabet : Bytes := bytes "ABCDEFGHIJKLMNOPQRSTUVWXYZabcdefghijklmnopqrstuvwxyz0123456789+/"

/-- Three octets make a number of 24 bits. -/
def octetTriple (octetA octetB octetC : UInt8) : ℕ :=
  octetA.toNat <<< 16 ||| octetB.toNat <<< 8 ||| octetC.toNat

/-- The character for six bits of a number. -/
def sextetChar (triple shift : ℕ) : UInt8 := alphabet.getD (triple >>> shift &&& 0x3F) 0

/-- `base64Encode`, which takes three octets at a time. -/
def base64Encode : Bytes → Bytes
  | [] => []
  | [octetA] =>
      let triple := octetTriple octetA 0 0
      [sextetChar triple 18, sextetChar triple 12, 61, 61]
  | [octetA, octetB] =>
      let triple := octetTriple octetA octetB 0
      [sextetChar triple 18, sextetChar triple 12, sextetChar triple 6, 61]
  | octetA :: octetB :: octetC :: data =>
      let triple := octetTriple octetA octetB octetC
      sextetChar triple 18 :: sextetChar triple 12 :: sextetChar triple 6 ::
        sextetChar triple 0 :: base64Encode data

/-- `base64Value`. -/
def base64Value (c : UInt8) : Option ℕ :=
  if 65 ≤ c ∧ c ≤ 90 then some (c.toNat - 65)
  else if 97 ≤ c ∧ c ≤ 122 then some (c.toNat - 97 + 26)
  else if 48 ≤ c ∧ c ≤ 57 then some (c.toNat - 48 + 52)
  else if c = 43 then some 62
  else if c = 47 then some 63
  else none

/-- The value of a character behind which the input ends after `remaining` characters, this one
included. A `=` counts as zero, and stands in the padding only. -/
def paddedValue (padding remaining : ℕ) (c : UInt8) : Option ℕ :=
  if c = 61 then if padding < remaining then none else some 0 else base64Value c

/-- The loop of `base64Decode`, over four characters at a time. -/
def decodeGroups (padding : ℕ) : Bytes → Option Bytes
  | c₀ :: c₁ :: c₂ :: c₃ :: input => do
      let v₀ ← paddedValue padding (input.length + 4) c₀
      let v₁ ← paddedValue padding (input.length + 3) c₁
      let v₂ ← paddedValue padding (input.length + 2) c₂
      let v₃ ← paddedValue padding (input.length + 1) c₃
      let triple := v₀ <<< 18 ||| v₁ <<< 12 ||| v₂ <<< 6 ||| v₃
      let output ← decodeGroups padding input
      return (triple >>> 16 &&& 0xFF).toUInt8 ::
        ((if c₂ ≠ 61 then [(triple >>> 8 &&& 0xFF).toUInt8] else []) ++
          ((if c₃ ≠ 61 then [(triple &&& 0xFF).toUInt8] else []) ++ output))
  | _ => some []

/-- How many of the last two characters are `=`. -/
def paddingOf (input : Bytes) : ℕ :=
  (if input[input.length - 1]? = some 61 then 1 else 0) +
    if 1 < input.length ∧ input[input.length - 2]? = some 61 then 1 else 0

/-- `base64Decode`, with its output if it succeeds. -/
def base64Decode (input : Bytes) : Option Bytes :=
  if input = [] ∨ input.length % 4 ≠ 0 then none else decodeGroups (paddingOf input) input

/-- `isValidClientKey`. -/
def isValidClientKey (key : Bytes) : Bool :=
  match base64Decode key with
  | some decoded => decoded.length = 16
  | none => false

/-! ### Decoding what was encoded -/

theorem octetTriple_eq (a b c : UInt8) :
    octetTriple a b c = a.toNat * 65536 + b.toNat * 256 + c.toNat := by
  have hb : b.toNat < 256 := b.toNat_lt
  have hc : c.toNat < 256 := c.toNat_lt
  have hab : a.toNat <<< 16 ||| b.toNat <<< 8 = (a.toNat * 256 + b.toNat) <<< 8 := by
    rw [← Nat.shiftLeft_add_eq_or_of_lt (by rw [Nat.shiftLeft_eq]; omega), Nat.shiftLeft_eq,
      Nat.shiftLeft_eq, Nat.shiftLeft_eq]
    omega
  rw [octetTriple, hab, ← Nat.shiftLeft_add_eq_or_of_lt hc, Nat.shiftLeft_eq]
  omega

/-- Four sextets make a number of 24 bits. -/
theorem sextets_eq {v₀ v₁ v₂ v₃ : ℕ} (h₁ : v₁ < 64) (h₂ : v₂ < 64) (h₃ : v₃ < 64) :
    v₀ <<< 18 ||| v₁ <<< 12 ||| v₂ <<< 6 ||| v₃ =
      v₀ * 262144 + v₁ * 4096 + v₂ * 64 + v₃ := by
  have h₀₁ : v₀ <<< 18 ||| v₁ <<< 12 = (v₀ * 64 + v₁) <<< 12 := by
    rw [← Nat.shiftLeft_add_eq_or_of_lt (by rw [Nat.shiftLeft_eq]; omega), Nat.shiftLeft_eq,
      Nat.shiftLeft_eq, Nat.shiftLeft_eq]
    omega
  have h₀₂ : (v₀ * 64 + v₁) <<< 12 ||| v₂ <<< 6 = ((v₀ * 64 + v₁) * 64 + v₂) <<< 6 := by
    rw [← Nat.shiftLeft_add_eq_or_of_lt (by rw [Nat.shiftLeft_eq]; omega), Nat.shiftLeft_eq,
      Nat.shiftLeft_eq, Nat.shiftLeft_eq]
    omega
  rw [h₀₁, h₀₂, ← Nat.shiftLeft_add_eq_or_of_lt (by omega), Nat.shiftLeft_eq]
  omega

theorem and_sextet (n : ℕ) : n &&& 0x3F = n % 64 := Nat.and_two_pow_sub_one_eq_mod n 6

theorem and_octet (n : ℕ) : n &&& 0xFF = n % 256 := Nat.and_two_pow_sub_one_eq_mod n 8

/-- The characters of the alphabet have their values, are no `=`, and are printable. -/
theorem alphabet_value {v : ℕ} (h : v < 64) :
    base64Value (alphabet.getD v 0) = some v ∧ alphabet.getD v 0 ≠ 61 ∧
      43 ≤ alphabet.getD v 0 ∧ alphabet.getD v 0 ≤ 122 := by
  have hall : ∀ v : Fin 64, base64Value (alphabet.getD v 0) = some v.val ∧
      alphabet.getD v 0 ≠ 61 ∧ 43 ≤ alphabet.getD v 0 ∧ alphabet.getD v 0 ≤ 122 := by
    decide +kernel
  exact hall ⟨v, h⟩

theorem sextetChar_ne (triple shift : ℕ) : sextetChar triple shift ≠ 61 := by
  rw [sextetChar, and_sextet]
  exact (alphabet_value (Nat.mod_lt _ (by decide))).2.1

theorem paddedValue_sextetChar (padding remaining triple shift : ℕ) :
    paddedValue padding remaining (sextetChar triple shift) = some (triple / 2 ^ shift % 64) := by
  rw [paddedValue, if_neg (sextetChar_ne triple shift), sextetChar, and_sextet,
    Nat.shiftRight_eq_div_pow]
  exact (alphabet_value (Nat.mod_lt _ (by decide))).1

theorem paddedValue_padding {padding remaining : ℕ} (h : remaining ≤ padding) :
    paddedValue padding remaining 61 = some 0 := by
  rw [paddedValue, if_pos rfl, if_neg (Nat.not_lt.mpr h)]

theorem toUInt8_eq {a : UInt8} {n : ℕ} (h : n % 256 = a.toNat) : (n &&& 0xFF).toUInt8 = a := by
  rw [and_octet, h]
  exact UInt8.ofNat_toNat

/-- The groups of an encoded text are decoded, if the padding is counted. -/
theorem decodeGroups_base64Encode {padding : ℕ} {data : Bytes}
    (h : 2 * data.length % 3 ≤ padding) : decodeGroups padding (base64Encode data) = some data := by
  induction data using base64Encode.induct with
  | case1 => rfl
  | case2 a =>
      have ha : a.toNat < 256 := a.toNat_lt
      have htriple := octetTriple_eq a 0 0
      have h₂ : 2 ≤ padding := by simpa using h
      rw [base64Encode]
      simp only [decodeGroups, paddedValue_sextetChar, Option.bind_eq_bind, Option.bind_some,
        List.length_nil, paddedValue_padding h₂, paddedValue_padding (Nat.le_of_succ_le h₂),
        ne_eq, not_true_eq_false, if_false, List.append_nil]
      rw [sextets_eq (Nat.mod_lt _ (by decide)) (by decide) (by decide)]
      congr 2
      refine toUInt8_eq ?_
      rw [htriple, Nat.shiftRight_eq_div_pow]
      simp only [UInt8.toNat_zero]
      omega
  | case3 a b =>
      have ha : a.toNat < 256 := a.toNat_lt
      have hb : b.toNat < 256 := b.toNat_lt
      have htriple := octetTriple_eq a b 0
      have h₁ : 1 ≤ padding := by simpa using h
      rw [base64Encode]
      simp only [decodeGroups, paddedValue_sextetChar, Option.bind_eq_bind, Option.bind_some,
        List.length_nil, paddedValue_padding h₁, sextetChar_ne, ne_eq, not_true_eq_false,
        not_false_eq_true, if_false, if_true, List.append_nil]
      rw [sextets_eq (Nat.mod_lt _ (by decide)) (Nat.mod_lt _ (by decide)) (by decide), htriple]
      simp only [UInt8.toNat_zero, Nat.shiftRight_eq_div_pow]
      congr 2
      · exact toUInt8_eq (by omega)
      · exact congrArg (fun c => [c]) (toUInt8_eq (by omega))
  | case4 a b c data ih =>
      have ha : a.toNat < 256 := a.toNat_lt
      have hb : b.toNat < 256 := b.toNat_lt
      have hc : c.toNat < 256 := c.toNat_lt
      have htriple := octetTriple_eq a b c
      have hrest := ih (by simp only [List.length_cons] at h; omega)
      rw [base64Encode]
      simp only [decodeGroups, paddedValue_sextetChar, Option.bind_eq_bind, Option.bind_some,
        hrest, sextetChar_ne, ne_eq, not_false_eq_true, if_true]
      rw [sextets_eq (Nat.mod_lt _ (by decide)) (Nat.mod_lt _ (by decide))
        (Nat.mod_lt _ (by decide)), htriple]
      simp only [Nat.shiftRight_eq_div_pow, List.singleton_append]
      congr 2
      · exact toUInt8_eq (by omega)
      · congr 1
        · exact toUInt8_eq (by omega)
        · congr 1
          exact toUInt8_eq (by omega)

theorem length_base64Encode (data : Bytes) :
    (base64Encode data).length = (data.length + 2) / 3 * 4 := by
  induction data using base64Encode.induct with
  | case1 => rfl
  | case2 a => simp [base64Encode]
  | case3 a b => simp [base64Encode]
  | case4 a b c data ih =>
      rw [base64Encode]
      simp only [List.length_cons, ih]
      omega

/-- The padding of an encoded text is that of its last group. -/
theorem paddingOf_base64Encode (data : Bytes) :
    2 * data.length % 3 ≤ paddingOf (base64Encode data) := by
  induction data using base64Encode.induct with
  | case1 => exact Nat.zero_le _
  | case2 a =>
      rw [base64Encode]
      simp [paddingOf]
  | case3 a b =>
      rw [base64Encode]
      simp [paddingOf]
  | case4 a b c data ih =>
      have hlength := length_base64Encode data
      rcases eq_or_ne data [] with rfl | hne
      · simp
      · have hpos := List.length_pos_iff.mpr hne
        have hpadding : paddingOf (base64Encode (a :: b :: c :: data)) =
            paddingOf (base64Encode data) := by
          obtain ⟨n, hn⟩ := Nat.exists_eq_add_of_le' (show 2 ≤ (base64Encode data).length by omega)
          rw [base64Encode]
          simp [paddingOf, hn]
        rw [hpadding]
        simp only [List.length_cons]
        omega

/-- **What was encoded is decoded.** -/
theorem base64Decode_base64Encode {data : Bytes} (h : data ≠ []) :
    base64Decode (base64Encode data) = some data := by
  have hlength := length_base64Encode data
  have hpos := List.length_pos_iff.mpr h
  have hvalid : ¬ (base64Encode data = [] ∨ (base64Encode data).length % 4 ≠ 0) := by
    rw [← List.length_eq_zero_iff]
    omega
  rw [base64Decode, if_neg hvalid]
  exact decodeGroups_base64Encode (paddingOf_base64Encode data)

/-- **Sixteen bytes make a valid key.** -/
theorem isValidClientKey_base64Encode {nonce : Bytes} (h : nonce.length = 16) :
    isValidClientKey (base64Encode nonce) = true := by
  have hne : nonce ≠ [] := List.ne_nil_of_length_pos (by omega)
  rw [isValidClientKey, base64Decode_base64Encode hne]
  exact decide_eq_true h

/-- The characters of an encoded text are printable. -/
theorem mem_base64Encode {data : Bytes} {c : UInt8} (h : c ∈ base64Encode data) :
    43 ≤ c ∧ c ≤ 122 := by
  have hsextet (triple shift : ℕ) :
      43 ≤ sextetChar triple shift ∧ sextetChar triple shift ≤ 122 := by
    rw [sextetChar, and_sextet]
    exact (alphabet_value (Nat.mod_lt _ (by decide))).2.2
  induction data using base64Encode.induct with
  | case1 => cases h
  | case2 a =>
      simp only [base64Encode, List.mem_cons, List.not_mem_nil, or_false] at h
      rcases h with rfl | rfl | rfl | rfl
      · exact hsextet _ _
      · exact hsextet _ _
      · decide
      · decide
  | case3 a b =>
      simp only [base64Encode, List.mem_cons, List.not_mem_nil, or_false] at h
      rcases h with rfl | rfl | rfl | rfl
      · exact hsextet _ _
      · exact hsextet _ _
      · exact hsextet _ _
      · decide
  | case4 a b c data ih =>
      simp only [base64Encode, List.mem_cons] at h
      rcases h with rfl | rfl | rfl | rfl | h
      · exact hsextet _ _
      · exact hsextet _ _
      · exact hsextet _ _
      · exact hsextet _ _
      · exact ih h

/-! ### SHA-1 -/

/-- The words `m_h0` to `m_h4`. -/
structure Sha1Words where
  h0 : UInt32 := 0x67452301
  h1 : UInt32 := 0xEFCDAB89
  h2 : UInt32 := 0x98BADCFE
  h3 : UInt32 := 0x10325476
  h4 : UInt32 := 0xC3D2E1F0
  deriving DecidableEq

/-- `Sha1`. -/
structure Sha1 where
  words : Sha1Words := {}
  totalBytes : UInt64 := 0
  buffer : Bytes := []
  deriving DecidableEq

namespace Sha1

/-- `leftRotate`. -/
def leftRotate (value shift : UInt32) : UInt32 := value <<< shift ||| value >>> (32 - shift)

/-- `writeWord`. -/
def writeWord (value : UInt32) : Bytes :=
  [(value >>> 24 &&& 0xFF).toUInt8, (value >>> 16 &&& 0xFF).toUInt8,
    (value >>> 8 &&& 0xFF).toUInt8, (value &&& 0xFF).toUInt8]

/-- `readWord`, of the four bytes from a position on. -/
def readWord (input : Bytes) (i : ℕ) : UInt32 :=
  (input.getD i 0).toUInt32 <<< 24 ||| (input.getD (i + 1) 0).toUInt32 <<< 16 |||
    (input.getD (i + 2) 0).toUInt32 <<< 8 ||| (input.getD (i + 3) 0).toUInt32

/-- The 80 words of a block. -/
def schedule (block : Bytes) : List UInt32 :=
  (List.range' 16 64).foldl
    (fun w i => w ++ [leftRotate
      (w.getD (i - 3) 0 ^^^ w.getD (i - 8) 0 ^^^ w.getD (i - 14) 0 ^^^ w.getD (i - 16) 0) 1])
    ((List.range 16).map fun i => readWord block (i * 4))

/-- One round of `processBlock`. -/
def round (s : Sha1Words) (i : ℕ) (w : UInt32) : Sha1Words :=
  let (f, k) : UInt32 × UInt32 :=
    if i < 20 then ((s.h1 &&& s.h2) ||| (~~~s.h1 &&& s.h3), 0x5A827999)
    else if i < 40 then (s.h1 ^^^ s.h2 ^^^ s.h3, 0x6ED9EBA1)
    else if i < 60 then
      ((s.h1 &&& s.h2) ||| (s.h1 &&& s.h3) ||| (s.h2 &&& s.h3), 0x8F1BBCDC)
    else (s.h1 ^^^ s.h2 ^^^ s.h3, 0xCA62C1D6)
  { h0 := leftRotate s.h0 5 + f + s.h4 + k + w
    h1 := s.h0
    h2 := leftRotate s.h1 30
    h3 := s.h2
    h4 := s.h3 }

/-- `Sha1::processBlock`. -/
def processBlock (words : Sha1Words) (block : Bytes) : Sha1Words :=
  let s := (schedule block).zipIdx.foldl (fun s p => round s p.2 p.1) words
  { h0 := words.h0 + s.h0
    h1 := words.h1 + s.h1
    h2 := words.h2 + s.h2
    h3 := words.h3 + s.h3
    h4 := words.h4 + s.h4 }

/-- The loop over the blocks of a buffer, with what is left of it. -/
def processBlocks : ℕ → Sha1Words → Bytes → Sha1Words × Bytes
  | 0, words, buffer => (words, buffer)
  | n + 1, words, buffer =>
      if 64 ≤ buffer.length then
        processBlocks n (processBlock words (buffer.take 64)) (buffer.drop 64)
      else (words, buffer)

/-- `Sha1::update`. -/
def update (s : Sha1) (data : Bytes) : Sha1 :=
  let buffer := s.buffer ++ data
  let p := processBlocks buffer.length s.words buffer
  { words := p.1, totalBytes := s.totalBytes + data.length.toUInt64, buffer := p.2 }

/-- The big-endian bytes of the length in bits. -/
def lengthBytes (totalBits : UInt64) : Bytes :=
  let shifts : List UInt64 := [56, 48, 40, 32, 24, 16, 8, 0]
  shifts.map fun shift => (totalBits >>> shift &&& 0xFF).toUInt8

/-- The buffer with what `final` appends: a bit, zeros up to 56 bytes of the last block, and the
length. -/
def finalBuffer (s : Sha1) : Bytes :=
  let buffer := s.buffer ++ [0x80]
  buffer ++ List.replicate ((120 - buffer.length % 64) % 64) 0 ++ lengthBytes (s.totalBytes * 8)

/-- `Sha1::final`. -/
def final (s : Sha1) : Bytes :=
  let words := (processBlocks s.finalBuffer.length s.words s.finalBuffer).1
  writeWord words.h0 ++ writeWord words.h1 ++ writeWord words.h2 ++ writeWord words.h3 ++
    writeWord words.h4

end Sha1

/-- `kWebSocketGuid`. -/
def webSocketGuid : Bytes := bytes "258EAFA5-E914-47DA-95CA-C5AB0DC85B11"

/-- `computeAcceptKey`. -/
def computeAcceptKey (clientKey : Bytes) : Bytes :=
  base64Encode (Sha1.update {} (clientKey ++ webSocketGuid)).final

example : computeAcceptKey (bytes "dGhlIHNhbXBsZSBub25jZQ==") =
    bytes "s3pPLMBiTxaQ9kYGzzhZRbK+xOo=" := by
  decide +kernel

end WebSocketHandshake

end SimplyNode
