import SimplyNode.WebSocketKey

/-!
# The Base64 of a Handshake

What the decoder of the handshake accepts (`WebSocketHandshake.cpp`): full groups of four
characters of the alphabet, of which the last one or two may be padding.

## Main results

* `decodeGroups_isSome`, `base64Decode_isSome_iff`: the decoder accepts exactly the padded texts.
* `length_decodeGroups`: three octets a group, less the padding.
* `base64_codec`: the round trip, what is accepted, and which keys are valid.
-/

namespace SimplyNode

open Text

namespace WebSocketHandshake

/-- Full groups of characters of the alphabet, of which the last so many are `=`. -/
structure IsPadded (padding : ℕ) (s : Bytes) : Prop where
  ne : s ≠ []
  groups : s.length % 4 = 0
  chars : ∃ body, s = body ++ List.replicate padding 61 ∧ ∀ c ∈ body, c ∈ alphabet

/-- **A base64 text**: at most its last two characters are padding. -/
def IsBase64 (s : Bytes) : Prop := ∃ padding ≤ 2, IsPadded padding s

/-! ### Characters -/

/-- A value belongs to the character that has it in the alphabet. -/
theorem getElem?_of_base64Value {c : UInt8} {v : ℕ} (h : base64Value c = some v) :
    alphabet[v]? = some c := by
  have hall : ∀ n : Fin 256, ∀ v ∈ base64Value (UInt8.ofNat n),
      alphabet[v]? = some (UInt8.ofNat n) := by
    decide +kernel
  have hc := hall ⟨c.toNat, c.toNat_lt⟩ v
  rw [UInt8.ofNat_toNat] at hc
  exact hc h

/-- The characters that have a value are those of the alphabet. -/
theorem base64Value_isSome_iff (c : UInt8) : (base64Value c).isSome ↔ c ∈ alphabet := by
  constructor
  · intro h
    obtain ⟨v, hv⟩ := Option.isSome_iff_exists.mp h
    exact List.mem_of_getElem? (getElem?_of_base64Value hv)
  · intro h
    obtain ⟨v, hlt, rfl⟩ := List.mem_iff_getElem.mp h
    have hlength : v < 64 := hlt
    rw [List.getElem_eq_getD 0, (alphabet_value hlength).1]
    rfl
theorem notMem_alphabet : (61 : UInt8) ∉ alphabet := by decide +kernel

/-- A character of the padding is decoded when it is a `=`, too. -/
theorem paddedValue_isSome_iff (padding remaining : ℕ) (c : UInt8) :
    (paddedValue padding remaining c).isSome ↔ c ∈ alphabet ∨ (c = 61 ∧ remaining ≤ padding) := by
  rw [paddedValue]
  rcases eq_or_ne c 61 with rfl | hc
  · rw [if_pos rfl, or_iff_right notMem_alphabet, and_iff_right rfl]
    rcases Nat.lt_or_ge padding remaining with h | h
    · rw [if_pos h]
      exact iff_of_false Bool.false_ne_true (Nat.not_le.mpr h)
    · rw [if_neg (Nat.not_lt.mpr h)]
      exact iff_of_true rfl h
  · rw [if_neg hc, base64Value_isSome_iff]
    exact (or_iff_left fun h => hc h.1).symm

/-! ### Groups -/

/-- Every character of a text is decoded. -/
def AllDecoded (padding : ℕ) : Bytes → Prop
  | [] => True
  | c :: input => (paddedValue padding (input.length + 1) c).isSome ∧ AllDecoded padding input

/-- Of a text that ends in so many characters as the padding, these may be `=`. -/
theorem allDecoded_append (body tail : Bytes) :
    AllDecoded tail.length (body ++ tail) ↔
      (∀ c ∈ body, c ∈ alphabet) ∧ ∀ c ∈ tail, c ∈ alphabet ∨ c = 61 := by
  have htail : ∀ padding, ∀ tail : Bytes, tail.length ≤ padding →
      (AllDecoded padding tail ↔ ∀ c ∈ tail, c ∈ alphabet ∨ c = 61) := by
    intro padding tail h
    induction tail with
    | nil => exact iff_of_true trivial fun c hc => absurd hc List.not_mem_nil
    | cons c tail ih =>
        rw [List.length_cons] at h
        rw [AllDecoded, ih (by omega), paddedValue_isSome_iff, and_iff_left h,
          List.forall_mem_cons]
  induction body with
  | nil =>
      rw [List.nil_append, htail _ _ (Nat.le_refl _)]
      exact (and_iff_right fun c hc => absurd hc List.not_mem_nil).symm
  | cons c body ih =>
      have hbody : ¬(body ++ tail).length + 1 ≤ tail.length := by
        rw [List.length_append]
        omega
      rw [List.cons_append, AllDecoded, paddedValue_isSome_iff, or_iff_left fun h => hbody h.2,
        List.forall_mem_cons, and_assoc]
      exact and_congr_right' ih

/-- What remains behind the full groups of a text that has no other characters. -/
theorem eq_nil_of_length_mod {input : Bytes} (h : input.length % 4 = 0)
    (hshort : ∀ c₀ c₁ c₂ c₃ rest, input = c₀ :: c₁ :: c₂ :: c₃ :: rest → False) : input = [] := by
  rcases input with - | ⟨c₀, - | ⟨c₁, - | ⟨c₂, - | ⟨c₃, input⟩⟩⟩⟩
  · rfl
  · cases h
  · cases h
  · cases h
  · exact absurd rfl (hshort c₀ c₁ c₂ c₃ input)

/-- **The loop accepts** a text whose characters are all decoded. -/
theorem decodeGroups_isSome {padding : ℕ} {input : Bytes} (h : input.length % 4 = 0) :
    (decodeGroups padding input).isSome ↔ AllDecoded padding input := by
  induction input using decodeGroups.induct with
  | case1 c₀ c₁ c₂ c₃ input ih =>
      rw [decodeGroups]
      have hrest := ih (by rw [List.length_cons] at h; simp only [List.length_cons] at h; omega)
      simp only [AllDecoded, List.length_cons, ← hrest]
      cases paddedValue padding (input.length + 1 + 1 + 1 + 1) c₀ with
      | none => simp
      | some v₀ =>
        cases paddedValue padding (input.length + 1 + 1 + 1) c₁ with
        | none => simp
        | some v₁ =>
          cases paddedValue padding (input.length + 1 + 1) c₂ with
          | none => simp
          | some v₂ =>
            cases paddedValue padding (input.length + 1) c₃ with
            | none => simp
            | some v₃ => cases decodeGroups padding input <;> simp
  | case2 input hshort =>
      obtain rfl := eq_nil_of_length_mod h hshort
      exact iff_of_true rfl trivial

/-- In front of the padding there is no `=`. -/
theorem ne_of_paddedValue {padding remaining v : ℕ} {c : UInt8} (h : padding < remaining)
    (hv : paddedValue padding remaining c = some v) : c ≠ 61 := by
  rintro rfl
  rw [paddedValue, if_pos rfl, if_pos h] at hv
  cases hv

/-- A character of the last two yields an octet, or is a `=`. -/
theorem length_octet (c octet : UInt8) :
    (if c ≠ 61 then [octet] else []).length + (if c = 61 then 1 else 0) = 1 := by
  rcases eq_or_ne c 61 with rfl | hc
  · rfl
  · rw [if_pos hc, if_neg hc]
    rfl

/-- **The octets of the groups**: three for each, less the padding. -/
theorem length_decodeGroups {padding : ℕ} (hpadding : padding ≤ 2) {input output : Bytes}
    (hgroups : input.length % 4 = 0) (h : decodeGroups padding input = some output) :
    output.length + input.count 61 = input.length / 4 * 3 := by
  induction input using decodeGroups.induct generalizing output with
  | case1 c₀ c₁ c₂ c₃ input ih =>
      simp only [List.length_cons] at hgroups
      simp only [decodeGroups, Option.bind_eq_bind, Option.bind_eq_some_iff, Option.pure_def,
        Option.some.injEq] at h
      obtain ⟨v₀, h₀, v₁, h₁, v₂, -, v₃, -, rest, hrest, rfl⟩ := h
      have hne₀ : c₀ ≠ 61 := ne_of_paddedValue (by omega) h₀
      have hne₁ : c₁ ≠ 61 := ne_of_paddedValue (by omega) h₁
      have hlength := ih (by omega) hrest
      have h₂ := length_octet c₂ ((v₀ <<< 18 ||| v₁ <<< 12 ||| v₂ <<< 6 ||| v₃) >>> 8 &&&
        0xFF).toUInt8
      have h₃ := length_octet c₃ ((v₀ <<< 18 ||| v₁ <<< 12 ||| v₂ <<< 6 ||| v₃) &&& 0xFF).toUInt8
      simp only [List.length_cons, List.length_append, List.count_cons, beq_iff_eq, hne₀, hne₁,
        if_false]
      omega
  | case2 input hshort =>
      obtain rfl := eq_nil_of_length_mod hgroups hshort
      obtain rfl := Option.some.inj h
      rfl

/-! ### Texts -/

theorem IsPadded.count {padding : ℕ} {s : Bytes} (h : IsPadded padding s) :
    s.count 61 = padding := by
  obtain ⟨body, rfl, hbody⟩ := h.chars
  rw [List.count_append, List.count_eq_zero.mpr fun hmem => notMem_alphabet (hbody 61 hmem),
    List.count_replicate_self, Nat.zero_add]

theorem IsPadded.four_le {padding : ℕ} {s : Bytes} (h : IsPadded padding s) : 4 ≤ s.length := by
  have hpos := List.length_pos_iff.mpr h.ne
  have hgroups := h.groups
  omega

/-- The padding that the decoder counts. -/
theorem IsPadded.paddingOf_eq {padding : ℕ} {s : Bytes} (h : IsPadded padding s)
    (hle : padding ≤ 2) : paddingOf s = padding := by
  have hlength := h.four_le
  obtain ⟨body, rfl, hbody⟩ := h.chars
  rw [List.length_append, List.length_replicate] at hlength
  have hne : ∀ i, i < body.length → (body ++ List.replicate padding 61)[i]? ≠ some 61 := by
    intro i hi heq
    rw [List.getElem?_append_left hi] at heq
    exact notMem_alphabet (hbody 61 (List.mem_of_getElem? heq))
  have heq : ∀ i, body.length ≤ i → i < body.length + padding →
      (body ++ List.replicate padding 61)[i]? = some 61 := by
    intro i hle hlt
    rw [List.getElem?_append_right hle, List.getElem?_replicate, if_pos (by omega)]
  rw [paddingOf, List.length_append, List.length_replicate]
  obtain rfl | rfl | rfl : padding = 0 ∨ padding = 1 ∨ padding = 2 := by omega
  · rw [if_neg (hne _ (by omega)), if_neg fun hlast => hne _ (by omega) hlast.2]
  · rw [if_pos (heq _ (by omega) (by omega)), if_neg fun hlast => hne _ (by omega) hlast.2]
  · rw [if_pos (heq _ (by omega) (by omega)),
      if_pos ⟨by omega, heq _ (by omega) (by omega)⟩]

theorem paddingOf_append (front : Bytes) (x y : UInt8) :
    paddingOf (front ++ [x, y]) = (if y = 61 then 1 else 0) + if x = 61 then 1 else 0 := by
  have hlast : (front ++ [x, y])[(front ++ [x, y]).length - 1]? = some y := by
    rw [List.getElem?_append_right (by simp)]
    simp
  have hsecond : (front ++ [x, y])[(front ++ [x, y]).length - 2]? = some x := by
    rw [List.getElem?_append_right (by simp)]
    simp
  have hlength : 1 < (front ++ [x, y]).length := by simp
  rw [paddingOf, hlast, hsecond]
  simp only [Option.some.injEq, hlength, true_and]

/-- What is decoded is padded. -/
theorem isBase64_of_allDecoded {s : Bytes} (hne : s ≠ []) (hgroups : s.length % 4 = 0)
    (h : AllDecoded (paddingOf s) s) : IsBase64 s := by
  have hpos := List.length_pos_iff.mpr hne
  obtain ⟨front, hfront, htail⟩ : ∃ front, front ++ s.drop (s.length - 2) = s ∧
      (s.drop (s.length - 2)).length = 2 := by
    refine ⟨_, List.take_append_drop (s.length - 2) s, ?_⟩
    rw [List.length_drop]
    omega
  obtain ⟨x, y, hxy⟩ := List.length_eq_two.mp htail
  rw [hxy] at hfront
  subst hfront
  rw [paddingOf_append] at h
  rcases eq_or_ne y 61 with rfl | hy
  · rcases eq_or_ne x 61 with rfl | hx
    · have hall := (allDecoded_append front [61, 61]).mp h
      exact ⟨2, Nat.le_refl _, hne, hgroups, front, rfl, hall.1⟩
    · rw [if_pos rfl, if_neg hx, List.append_cons] at h
      have hall := (allDecoded_append (front ++ [x]) [61]).mp h
      exact ⟨1, Nat.le_succ _, hne, hgroups, front ++ [x], List.append_cons _ _ _, hall.1⟩
  · rcases eq_or_ne x 61 with rfl | hx
    · -- a `=` that is followed by another character is not padding
      rw [if_neg hy, if_pos rfl, List.append_cons] at h
      have hall := (allDecoded_append (front ++ [61]) [y]).mp h
      exact absurd (hall.1 61 (by simp)) notMem_alphabet
    · rw [if_neg hy, if_neg hx, ← List.append_nil (front ++ [x, y])] at h
      have hall := (allDecoded_append (front ++ [x, y]) []).mp h
      exact ⟨0, Nat.zero_le _, hne, hgroups, front ++ [x, y], (List.append_nil _).symm, hall.1⟩

/-- **What the decoder accepts.** -/
theorem base64Decode_isSome_iff (s : Bytes) : (base64Decode s).isSome ↔ IsBase64 s := by
  rw [base64Decode]
  constructor
  · intro h
    split at h
    · cases h
    · rename_i hvalid
      rw [not_or, not_not] at hvalid
      exact isBase64_of_allDecoded hvalid.1 hvalid.2 ((decodeGroups_isSome hvalid.2).mp h)
  · rintro ⟨padding, hle, h⟩
    rw [if_neg fun hvalid => hvalid.elim h.ne fun hgroups => hgroups h.groups,
      decodeGroups_isSome h.groups, h.paddingOf_eq hle]
    obtain ⟨body, rfl, hbody⟩ := h.chars
    have hall := allDecoded_append body (List.replicate padding 61)
    rw [List.length_replicate] at hall
    exact hall.mpr ⟨hbody, fun c hc => Or.inr (List.eq_of_mem_replicate hc)⟩

/-- The octets of what is decoded. -/
theorem IsPadded.length_decoded {padding : ℕ} {s decoded : Bytes} (h : IsPadded padding s)
    (hle : padding ≤ 2) (hdecoded : base64Decode s = some decoded) :
    decoded.length + padding = s.length / 4 * 3 := by
  rw [base64Decode, if_neg fun hvalid => hvalid.elim h.ne fun hgroups => hgroups h.groups,
    h.paddingOf_eq hle] at hdecoded
  rw [← h.count]
  exact length_decodeGroups (h.count ▸ hle) h.groups (h.count ▸ hdecoded)

/-- **A valid key** has six groups, and two characters of padding. -/
theorem isValidClientKey_iff (key : Bytes) :
    isValidClientKey key = true ↔ key.length = 24 ∧ IsPadded 2 key := by
  rw [isValidClientKey]
  constructor
  · intro h
    cases hdecoded : base64Decode key with
    | none =>
        rw [hdecoded] at h
        cases h
    | some decoded =>
        rw [hdecoded] at h
        have hlength : decoded.length = 16 := of_decide_eq_true h
        have hsome : (base64Decode key).isSome := by rw [hdecoded]; rfl
        obtain ⟨padding, hle, hkey⟩ := (base64Decode_isSome_iff key).mp hsome
        have hgroups := hkey.groups
        have htotal := hkey.length_decoded hle hdecoded
        obtain rfl : padding = 2 := by omega
        exact ⟨by omega, hkey⟩
  · rintro ⟨hlength, hkey⟩
    obtain ⟨decoded, hdecoded⟩ := Option.isSome_iff_exists.mp
      ((base64Decode_isSome_iff key).mpr ⟨2, Nat.le_refl _, hkey⟩)
    have htotal := hkey.length_decoded (Nat.le_refl _) hdecoded
    rw [hdecoded]
    exact decide_eq_true (by omega)

/-- A padded text has no `=` but those at its end. -/
theorem isPadded_two_iff (s : Bytes) :
    IsPadded 2 s ↔ IsBase64 s ∧ ∃ body, s = body ++ [61, 61] ∧ 61 ∉ body := by
  constructor
  · intro h
    obtain ⟨body, heq, hbody⟩ := h.chars
    exact ⟨⟨2, Nat.le_refl _, h⟩, body, heq, fun hmem => notMem_alphabet (hbody 61 hmem)⟩
  · rintro ⟨⟨padding, -, h⟩, body, rfl, hbody⟩
    have hcount := h.count
    rw [List.count_append, List.count_eq_zero.mpr hbody] at hcount
    obtain rfl : padding = 2 := hcount.symm
    exact h

end WebSocketHandshake

open WebSocketHandshake

/-- **The codec**: what was encoded is decoded, unless it is empty; the decoder accepts exactly the
base64 texts; and the valid keys are those of 24 characters that end in exactly two `=`. -/
theorem base64_codec :
    (∀ data, base64Decode (base64Encode data) = some data ↔ data ≠ []) ∧
      (∀ s, (base64Decode s).isSome ↔ IsBase64 s) ∧
      ∀ key, isValidClientKey key = true ↔
        IsBase64 key ∧ key.length = 24 ∧ ∃ body, key = body ++ [61, 61] ∧ 61 ∉ body := by
  refine ⟨fun data => ⟨?_, base64Decode_base64Encode⟩, base64Decode_isSome_iff, fun key => ?_⟩
  · rintro h rfl
    cases h
  · rw [isValidClientKey_iff, isPadded_two_iff, and_left_comm]

end SimplyNode
