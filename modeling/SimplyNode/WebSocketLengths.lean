import SimplyNode.WebSocketGrammar

/-!
# The End of a Payload

`tryParseOne` compares the size of the buffer with `offset + payloadSize`, a sum of `size_t`. In
front of it there is a check that the length of the payload is a `size_t`, but none that the sum is
one. With 64 bits the top bit of a length is clear, and the sum is far from the end of the range.
With 32 bits the last lengths that pass the check go around with the header in front of them.

## Main results

* `tryParseOne_eq_header`: the checks in front of the sum, and what follows them.
* `frameHeader_sum`: when the sum is out of range.
* `lengthsFit_iff`: **the arithmetic is exact** if and only if a `size_t` has 64 bits or the length
  is not at the top of the range of 32 bits.
-/

namespace SimplyNode

open Text Incremental

/-- The sizes of a `size_t`. -/
inductive SizeWidth
  | w32
  | w64
  deriving DecidableEq

/-- The bits of a `size_t`. -/
def SizeWidth.bits : SizeWidth → ℕ
  | .w32 => 32
  | .w64 => 64

/-- The variables of `tryParseOne` when it compares the size of the buffer with the end of the
payload. -/
structure FrameHeader where
  fin : Bool
  opcode : OpCode
  masked : Bool
  maskKey : Bytes
  offset : ℕ
  payloadSize : ℕ
  deriving DecidableEq

/-- The checks of `tryParseOne` in front of the sum. There are bytes missing, or there is an
error. -/
def frameHeader (sizeBits : ℕ) (buffer : Bytes) : Except (Option String) FrameHeader :=
  if buffer.length < 2 then .error none
  else
    let first := buffer.getD 0 0
    let second := buffer.getD 1 0
    let fin : Bool := first &&& 0x80 ≠ 0
    let masked : Bool := second &&& 0x80 ≠ 0
    if first &&& 0x70 ≠ 0 then .error (some "Reserved frame bits are not supported")
    else
      match opCode (first &&& 0x0F) with
      | none => .error (some "Unsupported WebSocket opcode")
      | some opcode =>
          match readPayloadLength buffer (second &&& 0x7F).toNat with
          | .error e => .error e
          | .ok (payloadLength, offset) =>
              if isControlOpcode opcode ∧ fin = false then
                .error (some "Fragmented WebSocket control frames are invalid")
              else if isControlOpcode opcode ∧ 125 < payloadLength then
                .error (some "WebSocket control frame payload is too large")
              else if masked ∧ buffer.length < offset + 4 then .error none
              else if 2 ^ sizeBits ≤ payloadLength then
                .error (some "WebSocket payload is too large for this platform")
              else
                .ok { fin := fin, opcode := opcode, masked := masked,
                      maskKey := if masked then (buffer.drop offset).take 4 else [],
                      offset := if masked then offset + 4 else offset,
                      payloadSize := payloadLength }

namespace FrameHeader

variable (header : FrameHeader)

/-- The sum, as the machine computes it. -/
def sum (sizeBits : ℕ) : ℕ := (header.offset + header.payloadSize) % 2 ^ sizeBits

/-- **The arithmetic is exact**: the sum is in range, the test for completeness says what it should,
and behind it what is copied and erased lies in the buffer. -/
structure Exact (sizeBits : ℕ) (buffer : Bytes) : Prop where
  fits : header.offset + header.payloadSize ≤ 2 ^ sizeBits - 1
  complete : buffer.length < header.sum sizeBits ↔
    buffer.length < header.offset + header.payloadSize
  inside : ¬buffer.length < header.sum sizeBits →
    header.offset + header.payloadSize ≤ buffer.length ∧ header.sum sizeBits ≤ buffer.length

end FrameHeader

/-- The arithmetic is exact whenever the checks in front of it have passed. -/
def LengthsFit (width : SizeWidth) (buffer : Bytes) : Prop :=
  ∀ header, frameHeader width.bits buffer = .ok header → header.Exact width.bits buffer

/-- The first two bytes of a buffer. -/
def FrameHead.ofBuffer (buffer : Bytes) : FrameHead := ⟨buffer.getD 0 0, buffer.getD 1 0⟩

/-- The bytes in front of the payload, with a length of eight bytes. -/
def longHeaderSize (head : FrameHead) : ℕ := if head.masked then 14 else 10

/-- **The top of the range**: the header of a data frame with a length of eight bytes has arrived,
and the length is less than the size of this header below the end of 32 bits. -/
structure TopOfRange (buffer : Bytes) : Prop where
  reserved : (FrameHead.ofBuffer buffer).reserved = false
  data : ∃ opcode, (FrameHead.ofBuffer buffer).opcode = some opcode ∧
    isControlOpcode opcode = false
  form : (FrameHead.ofBuffer buffer).lengthForm = 127
  arrived : longHeaderSize (FrameHead.ofBuffer buffer) ≤ buffer.length
  below : readBigEndian buffer 2 8 < 2 ^ 32
  top : 2 ^ 32 ≤ longHeaderSize (FrameHead.ofBuffer buffer) + readBigEndian buffer 2 8

/-- **The checks in front of the sum**, and what follows them. -/
theorem tryParseOne_eq_header (sizeBits : ℕ) (buffer : Bytes) :
    tryParseOne sizeBits buffer =
      match frameHeader sizeBits buffer with
      | .error none => .more
      | .error (some message) => .failed message
      | .ok header =>
          if buffer.length < header.sum sizeBits then .more
          else
            .done { fin := header.fin, opcode := header.opcode, masked := header.masked,
                    payload := unmask header.maskKey
                      ((buffer.drop header.offset).take header.payloadSize) }
              (buffer.drop (header.sum sizeBits)) := by
  rw [tryParseOne, frameHeader]
  split
  · rfl
  · dsimp only
    split
    · rfl
    · cases opCode (buffer.getD 0 0 &&& 0x0F) with
      | none => rfl
      | some opcode =>
          dsimp only
          cases readPayloadLength buffer (buffer.getD 1 0 &&& 0x7F).toNat with
          | error e =>
              cases e with
              | none => rfl
              | some message => rfl
          | ok field =>
              obtain ⟨payloadLength, offset⟩ := field
              dsimp only
              split
              · rfl
              · split
                · rfl
                · split
                  · rfl
                  · split
                    · rfl
                    · rfl

/-- What the checks have seen to. -/
theorem frameHeader_ok {sizeBits : ℕ} {buffer : Bytes} {header : FrameHeader}
    (h : frameHeader sizeBits buffer = .ok header) :
    2 ≤ buffer.length ∧ (FrameHead.ofBuffer buffer).reserved = false ∧
      (FrameHead.ofBuffer buffer).opcode = some header.opcode ∧
      header.masked = (FrameHead.ofBuffer buffer).masked ∧
      (isControlOpcode header.opcode = true → header.payloadSize ≤ 125) ∧
      header.payloadSize < 2 ^ sizeBits ∧ header.offset ≤ buffer.length ∧
      ∃ offset, readPayloadLength buffer (FrameHead.ofBuffer buffer).lengthForm =
          .ok (header.payloadSize, offset) ∧
        header.offset = if header.masked then offset + 4 else offset := by
  rw [frameHeader] at h
  split at h
  · cases h
  · rename_i hlength
    dsimp only at h
    split at h
    · cases h
    · rename_i hreserved
      cases hopcode : opCode (buffer.getD 0 0 &&& 0x0F) with
      | none =>
          rw [hopcode] at h
          cases h
      | some opcode =>
          rw [hopcode] at h
          dsimp only at h
          cases hread : readPayloadLength buffer (buffer.getD 1 0 &&& 0x7F).toNat with
          | error e =>
              rw [hread] at h
              cases h
          | ok field =>
              obtain ⟨payloadLength, offset⟩ := field
              rw [hread] at h
              dsimp only at h
              split at h
              · cases h
              · split at h
                · cases h
                · rename_i hlarge
                  split at h
                  · cases h
                  · rename_i hmask
                    split at h
                    · cases h
                    · rename_i hfits
                      obtain rfl := (Except.ok.inj h).symm
                      have hle := Nat.not_lt.mp hlength
                      obtain ⟨hoffset, -, -⟩ :=
                        FrameGrammar.readPayloadLength_ok (FrameGrammar.seven_bits _) hle hread
                      refine ⟨hle, decide_eq_false hreserved, hopcode, rfl, ?_,
                        Nat.not_le.mp hfits, ?_, offset, hread, rfl⟩
                      · exact fun hcontrol => Nat.not_lt.mp fun hlt => hlarge ⟨hcontrol, hlt⟩
                      · dsimp only
                        split
                        · exact Nat.not_lt.mp fun hlt => hmask ⟨‹_›, hlt⟩
                        · exact hoffset

/-- A length of eight bytes, or a small one. -/
theorem readPayloadLength_cases {buffer : Bytes} {n payloadLength offset : ℕ} (hn : n < 128)
    (h : readPayloadLength buffer n = .ok (payloadLength, offset)) :
    n = 127 ∧ offset = 10 ∧ payloadLength = readBigEndian buffer 2 8 ∨
      offset ≤ 4 ∧ payloadLength < 2 ^ 16 := by
  have hbound : readBigEndian buffer 2 2 < 256 ^ 2 :=
    (FrameGrammar.bigEndian_lt _).trans_le
      (Nat.pow_le_pow_right (by decide) (List.length_take_le _ _))
  rw [readPayloadLength] at h
  split at h
  · split at h
    · cases h
    · split at h
      · cases h
      · obtain ⟨rfl, rfl⟩ := Prod.mk.inj (Except.ok.inj h)
        exact Or.inr ⟨Nat.le_refl 4, hbound⟩
  · split at h
    · split at h
      · cases h
      · split at h
        · cases h
        · split at h
          · cases h
          · obtain ⟨rfl, rfl⟩ := Prod.mk.inj (Except.ok.inj h)
            exact Or.inl ⟨‹_›, rfl, rfl⟩
    · obtain ⟨rfl, rfl⟩ := Prod.mk.inj (Except.ok.inj h)
      exact Or.inr (by omega)

/-- With 64 bits the sum is in range. -/
theorem frameHeader_sum_lt {buffer : Bytes} {header : FrameHeader}
    (h : frameHeader 64 buffer = .ok header) : header.offset + header.payloadSize < 2 ^ 64 := by
  obtain ⟨hlength, -, -, -, -, -, -, offset, hread, hoffset⟩ := frameHeader_ok h
  obtain ⟨-, hten, hlt⟩ :=
    FrameGrammar.readPayloadLength_ok (FrameGrammar.seven_bits _) hlength hread
  have hfourteen : header.offset ≤ 14 := by
    rw [hoffset]
    split <;> omega
  omega

/-- **A sum that is out of range** is that of a length at the top of it. -/
theorem frameHeader_sum {buffer : Bytes} {header : FrameHeader}
    (h : frameHeader 32 buffer = .ok header)
    (hsum : 2 ^ 32 ≤ header.offset + header.payloadSize) : TopOfRange buffer := by
  obtain ⟨-, hreserved, hopcode, hmasked, hcontrol, hlt, hinside, offset, hread, hoffset⟩ :=
    frameHeader_ok h
  have hskipped : header.offset ≤ offset + 4 := by
    rw [hoffset]
    split <;> omega
  obtain ⟨hform, rfl, hsize⟩ | ⟨hsmall, hsize⟩ :=
    readPayloadLength_cases (FrameGrammar.seven_bits _) hread
  · have hheader : header.offset = longHeaderSize (FrameHead.ofBuffer buffer) := by
      rw [hoffset, hmasked, longHeaderSize]
    rw [hheader, hsize] at hsum
    refine ⟨hreserved, ⟨header.opcode, hopcode, ?_⟩, hform, hheader ▸ hinside, hsize ▸ hlt, hsum⟩
    exact Bool.eq_false_iff.mpr fun hc => absurd (hcontrol hc) (by omega)
  · omega

/-- **A length at the top of the range** passes the checks, and the sum is out of range. -/
theorem TopOfRange.exists_header {buffer : Bytes} (h : TopOfRange buffer) :
    ∃ header, frameHeader 32 buffer = .ok header ∧
      2 ^ 32 ≤ header.offset + header.payloadSize := by
  obtain ⟨opcode, hopcode, hcontrol⟩ := h.data
  have hten : 10 ≤ longHeaderSize (FrameHead.ofBuffer buffer) := by
    rw [longHeaderSize]
    split <;> omega
  have harrived := h.arrived
  have hbelow := h.below
  have htop := h.top
  have hsmall : longHeaderSize (FrameHead.ofBuffer buffer) ≤ 14 := by
    rw [longHeaderSize]
    split <;> omega
  have hread : readPayloadLength buffer (buffer.getD 1 0 &&& 0x7F).toNat =
      .ok (readBigEndian buffer 2 8, 10) := by
    have hbit : readBigEndian buffer 2 8 &&& 1 <<< 63 = 0 :=
      (FrameGrammar.top_clear_iff (by omega)).mpr (by omega)
    have hform : (buffer.getD 1 0 &&& 0x7F).toNat = 127 := h.form
    rw [readPayloadLength, hform, if_neg (by decide), if_pos rfl, if_neg (by omega),
      if_neg (not_not.mpr hbit), if_neg (by omega)]
  have hreserved : ¬buffer.getD 0 0 &&& 0x70 ≠ 0 := of_decide_eq_false h.reserved
  have hknown : opCode (buffer.getD 0 0 &&& 0x0F) = some opcode := hopcode
  have hmask : ¬((FrameHead.ofBuffer buffer).masked = true ∧ buffer.length < 10 + 4) := by
    rintro ⟨hmasked, hlt⟩
    rw [longHeaderSize, if_pos hmasked] at harrived
    omega
  rw [frameHeader, if_neg (by omega)]
  dsimp only
  rw [if_neg hreserved, hknown]
  dsimp only
  rw [hread]
  dsimp only
  rw [hcontrol, if_neg (fun hc => Bool.false_ne_true hc.1),
    if_neg (fun hc => Bool.false_ne_true hc.1)]
  rw [FrameHead.masked, FrameHead.ofBuffer] at hmask
  rw [if_neg hmask, if_neg (Nat.not_le.mpr hbelow)]
  refine ⟨_, rfl, ?_⟩
  rw [longHeaderSize] at htop
  exact htop

/-- A sum that is in range is what the machine computes. -/
theorem FrameHeader.exact_iff {header : FrameHeader} {width : SizeWidth} {buffer : Bytes} :
    header.Exact width.bits buffer ↔ header.offset + header.payloadSize < 2 ^ width.bits := by
  have hpos : 0 < 2 ^ width.bits := Nat.two_pow_pos _
  constructor
  · intro h
    have hfits := h.fits
    omega
  · intro hlt
    have hsum : header.sum width.bits = header.offset + header.payloadSize := Nat.mod_eq_of_lt hlt
    constructor
    · omega
    · rw [hsum]
    · rw [hsum]
      intro hle
      exact ⟨Nat.not_lt.mp hle, Nat.not_lt.mp hle⟩

/-- **The arithmetic is exact** if and only if a `size_t` has 64 bits or the length is not at the
top of the range of 32 bits. -/
theorem lengthsFit_iff (width : SizeWidth) (buffer : Bytes) :
    LengthsFit width buffer ↔ width = .w64 ∨ ¬TopOfRange buffer := by
  cases width with
  | w64 =>
      refine iff_of_true (fun header h => ?_) (Or.inl rfl)
      exact FrameHeader.exact_iff.mpr (frameHeader_sum_lt h)
  | w32 =>
      constructor
      · intro h
        refine Or.inr fun htop => ?_
        obtain ⟨header, hheader, hsum⟩ := htop.exists_header
        exact absurd (FrameHeader.exact_iff.mp (h header hheader)) (Nat.not_lt.mpr hsum)
      · rintro (h | h) header hheader
        · cases h
        · exact FrameHeader.exact_iff.mpr
            (Nat.not_le.mp fun hsum => h (frameHeader_sum hheader hsum))

/-- The last length of 32 bits: the sum is 9, and a frame is taken from a buffer that ends with its
header. -/
theorem last_length_wraps :
    ¬LengthsFit .w32 [0x82, 0x7F, 0, 0, 0, 0, 0xFF, 0xFF, 0xFF, 0xFF] := by
  have hheader : frameHeader 32 [0x82, 0x7F, 0, 0, 0, 0, 0xFF, 0xFF, 0xFF, 0xFF] =
      .ok { fin := true, opcode := .binary, masked := false, maskKey := [], offset := 10,
            payloadSize := 0xFFFFFFFF } := by
    decide +kernel
  intro h
  exact absurd (FrameHeader.exact_iff.mp (h _ hheader)) (by decide)

end SimplyNode
