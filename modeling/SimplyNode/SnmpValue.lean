import SimplyNode.SnmpOid

/-!
# Values for an Agent

`SnmpValue` (`SnmpValue.h/.cpp`) and what `SnmpV3Session::set` hands to `snmp_add_var` for one: a
type character and a text as a C string, which ends at its first zero byte. The bytes of an octet
string are the text itself; those of an opaque value are written one after the other in base 16,
each with as many digits as it has.

## Main results

* `hexText_injective`: two digits for each byte tell byte strings apart.
* `byte_values_intact`: octet strings are handed over whole exactly without a zero byte, opaque
  values as two digits a byte exactly without a byte below 16; such values are told apart.
-/

namespace SimplyNode

open Text

/-- `SnmpValue` with its `SnmpValueType`; a floating-point value is its bit pattern. -/
inductive SnmpValue
  | null
  | integer32 (v : Int32)
  | counter32 (v : UInt32)
  | gauge32 (v : UInt32)
  | timeTicks (v : UInt32)
  | counter64 (v : UInt64)
  | octetString (bytes : Bytes)
  | ipAddress (dotted : Bytes)
  | objectIdentifier (oid : SnmpOid)
  | opaqueBytes (bytes : Bytes)
  | float (bits : UInt32)
  | double (bits : UInt64)
  deriving DecidableEq

/-- How a stream prints floating-point values with all their digits. -/
structure FloatPrinter where
  float : UInt32 → Bytes
  double : UInt64 → Bytes

namespace SnmpValue

/-- `SnmpValue::fromOctetString`. -/
def fromOctetString (bytes : Bytes) : SnmpValue := .octetString bytes

/-- `SnmpValue::fromOpaque`. -/
def fromOpaque (bytes : Bytes) : SnmpValue := .opaqueBytes bytes

/-- `SnmpValue::netSnmpTypeChar`. -/
def netSnmpTypeChar : SnmpValue → Char
  | .integer32 _ => 'i'
  | .counter32 _ => 'c'
  | .gauge32 _ => 'u'
  | .timeTicks _ => 't'
  | .counter64 _ => 'C'
  | .octetString _ => 's'
  | .ipAddress _ => 'a'
  | .objectIdentifier _ => 'o'
  | .opaqueBytes _ => 'x'
  | .float _ => 'F'
  | .double _ => 'D'
  | .null => 'n'

/-- `SnmpValue::toNetSnmpString`. -/
def toNetSnmpString (p : FloatPrinter) : SnmpValue → Bytes
  | .integer32 v => bytes (toString v.toInt)
  | .counter32 v | .gauge32 v | .timeTicks v => bytes (toString v.toNat)
  | .counter64 v => bytes (toString v.toNat)
  | .octetString b => b
  | .ipAddress dotted => dotted
  | .objectIdentifier oid => oid.toString
  | .opaqueBytes b => b.flatMap fun c => hexSize c.toNat
  | .float bits => p.float bits
  | .double bits => p.double bits
  | .null => []

end SnmpValue

/-- The type and the value that `SnmpV3Session::set` hands to `snmp_add_var`. -/
def addedVar (p : FloatPrinter) (value : SnmpValue) : Char × Bytes :=
  (value.netSnmpTypeChar, cString (value.toNetSnmpString p))

/-! ### Base 16 -/

/-- Two digits for a byte. -/
def hexByte (c : UInt8) : Bytes := [hexDigit (c.toNat / 16), hexDigit (c.toNat % 16)]

/-- Two digits for each byte. -/
def hexText (s : Bytes) : Bytes := s.flatMap hexByte

/-- Distinct digits are written differently. -/
theorem hexDigit_injective {d e : ℕ} (hd : d < 16) (he : e < 16) (h : hexDigit d = hexDigit e) :
    d = e := by
  have hvalue := digitValue_hexDigit hd
  rw [h, digitValue_hexDigit he] at hvalue
  exact (Option.some.inj hvalue).symm

/-- Two digits for each byte tell byte strings apart. -/
theorem hexText_injective {s t : Bytes} (h : hexText s = hexText t) : s = t := by
  induction s generalizing t with
  | nil =>
      cases t with
      | nil => rfl
      | cons d t => cases h
  | cons c s ih =>
      cases t with
      | nil => cases h
      | cons d t =>
          rw [hexText, hexText, List.flatMap_cons, List.flatMap_cons, hexByte, hexByte] at h
          obtain ⟨hhigh, h⟩ := List.cons.inj h
          obtain ⟨hlow, htail⟩ := List.cons.inj h
          have hc := c.toNat_lt
          have hd := d.toNat_lt
          have hquot := hexDigit_injective (by omega) (by omega) hhigh
          have hrem := hexDigit_injective (by omega) (by omega) hlow
          have hcd : c = d := UInt8.toNat_inj.mp (by omega)
          rw [hcd, ih htail]

/-- From 16 on a byte has two digits. -/
theorem hexSize_of_le {c : UInt8} (h : 16 ≤ c) : hexSize c.toNat = hexByte c := by
  have hle : 16 ≤ c.toNat := UInt8.le_iff_toNat_le.mp h
  have hlt := c.toNat_lt
  have hhigh : c.toNat / 16 < 16 := by omega
  rw [hexSize, if_neg (by omega), Nat.digits_def' (by omega) (by omega),
    Nat.digits_def' (by omega) (by omega), Nat.div_eq_of_lt hhigh, Nat.digits_zero,
    Nat.mod_eq_of_lt hhigh]
  rfl

/-- A byte below 16 is written with one digit. -/
theorem length_hexSize_of_lt {c : UInt8} (h : ¬16 ≤ c) : (hexSize c.toNat).length = 1 := by
  have hlt : c.toNat < 16 := by
    by_contra hge
    exact h (UInt8.le_iff_toNat_le.mpr (by simpa using hge))
  rw [hexSize]
  split
  · rfl
  · rename_i hne
    rw [Nat.digits_of_lt 16 _ hne hlt]
    rfl

/-- The digits the stream prints are at most two a byte, and two a byte only from 16 on. -/
theorem length_hexSizes_le (s : Bytes) :
    (s.flatMap fun c => hexSize c.toNat).length ≤ 2 * s.length ∧
      ((s.flatMap fun c => hexSize c.toNat).length = 2 * s.length → ∀ c ∈ s, 16 ≤ c) := by
  induction s with
  | nil => exact ⟨Nat.zero_le _, fun _ => List.forall_mem_nil _⟩
  | cons c s ih =>
      obtain ⟨hle, hall⟩ := ih
      rw [List.flatMap_cons, List.length_append, List.length_cons]
      by_cases hc : 16 ≤ c
      · rw [hexSize_of_le hc, hexByte]
        simp only [List.length_cons, List.length_nil]
        refine ⟨by omega, fun heq => ?_⟩
        exact List.forall_mem_cons.mpr ⟨hc, hall (by omega)⟩
      · rw [length_hexSize_of_lt hc]
        exact ⟨by omega, fun heq => by omega⟩

/-- Two digits are written for each byte. -/
theorem length_hexText (s : Bytes) : (hexText s).length = 2 * s.length := by
  induction s with
  | nil => rfl
  | cons c s ih =>
      rw [hexText] at ih
      rw [hexText, List.flatMap_cons, List.length_append, ih, List.length_cons, hexByte]
      simp only [List.length_cons, List.length_nil]
      omega

/-- No digit is the byte 0. -/
theorem hexDigit_ne_zero {d : ℕ} (h : d < 16) : hexDigit d ≠ 0 := by
  have hall : ∀ d < 16, hexDigit d ≠ 0 := by decide
  exact hall d h

/-- The text in base 16 has no byte 0. -/
theorem zero_notMem_hexText (s : Bytes) : 0 ∉ hexText s := by
  intro hmem
  obtain ⟨c, -, hc⟩ := List.mem_flatMap.mp hmem
  have hlt := c.toNat_lt
  rw [hexByte, List.mem_cons, List.mem_singleton] at hc
  rcases hc with hc | hc
  · exact hexDigit_ne_zero (by omega) hc.symm
  · exact hexDigit_ne_zero (by omega) hc.symm

/-! ### What the agent is sent -/

variable (p : FloatPrinter)

/-- Two byte strings are handed over as the texts that stand for them, and told apart. -/
def Intact (fromBytes : Bytes → SnmpValue) (text : Bytes → Bytes) (a b : Bytes) : Prop :=
  (addedVar p (fromBytes a) = addedVar p (fromBytes b) → a = b) ∧
    (addedVar p (fromBytes a)).2 = text a ∧ (addedVar p (fromBytes b)).2 = text b

/-- Where every byte is 16 at least, the value is the text in base 16. -/
theorem addedVar_fromOpaque (s : Bytes) (h : ∀ c ∈ s, 16 ≤ c) :
    (addedVar p (.fromOpaque s)).2 = hexText s := by
  have hdigits : (SnmpValue.fromOpaque s).toNetSnmpString p = hexText s :=
    List.flatMap_congr fun c hc => hexSize_of_le (h c hc)
  rw [addedVar, hdigits]
  exact cString_eq_self_iff.mpr (zero_notMem_hexText s)

/-- Where the value is the text in base 16, every byte is 16 at least. -/
theorem le_of_addedVar_fromOpaque (s : Bytes) (h : (addedVar p (.fromOpaque s)).2 = hexText s) :
    ∀ c ∈ s, 16 ≤ c := by
  obtain ⟨hle, hall⟩ := length_hexSizes_le s
  refine hall (Nat.le_antisymm hle ?_)
  have hcut : (cString (s.flatMap fun c => hexSize c.toNat)).length ≤
      (s.flatMap fun c => hexSize c.toNat).length :=
    (List.takeWhile_prefix _).length_le
  have hlength := congrArg List.length h
  rw [length_hexText] at hlength
  exact hlength ▸ hcut

/-- **Byte values.** Two octet strings are handed over whole and told apart exactly when neither
holds a zero byte; two opaque values are handed over with two digits a byte and told apart exactly
when neither holds a byte below 16. -/
theorem byte_values_intact (a b : Bytes) :
    (Intact p .fromOctetString id a b ↔ 0 ∉ a ∧ 0 ∉ b) ∧
      (Intact p .fromOpaque hexText a b ↔ (∀ c ∈ a, 16 ≤ c) ∧ ∀ c ∈ b, 16 ≤ c) := by
  refine ⟨⟨?_, ?_⟩, ⟨?_, ?_⟩⟩
  · rintro ⟨-, ha, hb⟩
    exact ⟨cString_eq_self_iff.mp ha, cString_eq_self_iff.mp hb⟩
  · rintro ⟨ha, hb⟩
    have ha : (addedVar p (.fromOctetString a)).2 = a := cString_eq_self_iff.mpr ha
    have hb : (addedVar p (.fromOctetString b)).2 = b := cString_eq_self_iff.mpr hb
    refine ⟨fun heq => ?_, ha, hb⟩
    rw [← ha, ← hb, heq]
  · rintro ⟨-, ha, hb⟩
    exact ⟨le_of_addedVar_fromOpaque p a ha, le_of_addedVar_fromOpaque p b hb⟩
  · rintro ⟨ha, hb⟩
    have ha := addedVar_fromOpaque p a ha
    have hb := addedVar_fromOpaque p b hb
    refine ⟨fun heq => hexText_injective ?_, ha, hb⟩
    rw [← ha, ← hb, heq]

/-- `A`, a zero byte and `B` are handed over as `A`; the opaque values `10` and `01 00` are both
handed over as the digits `10`. -/
theorem byte_values_collide :
    let p : FloatPrinter := ⟨fun _ => [], fun _ => []⟩
    addedVar p (.fromOctetString [65, 0, 66]) = addedVar p (.fromOctetString [65]) ∧
      addedVar p (.fromOpaque [16]) = addedVar p (.fromOpaque [1, 0]) ∧
      ¬Intact p .fromOctetString id [65, 0, 66] [65] ∧
      ¬Intact p .fromOpaque hexText [16] [1, 0] := by
  have hoctets : addedVar ⟨fun _ => [], fun _ => []⟩ (.fromOctetString [65, 0, 66]) =
      addedVar ⟨fun _ => [], fun _ => []⟩ (.fromOctetString [65]) := by decide
  have hdigits : addedVar ⟨fun _ => [], fun _ => []⟩ (.fromOpaque [16]) =
      addedVar ⟨fun _ => [], fun _ => []⟩ (.fromOpaque [1, 0]) := by decide
  refine ⟨hoctets, hdigits, fun h => ?_, fun h => ?_⟩
  · exact absurd (h.1 hoctets) (by decide)
  · exact absurd (h.1 hdigits) (by decide)

end SimplyNode
