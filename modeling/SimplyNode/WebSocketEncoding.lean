import SimplyNode.WebSocketGrammar

/-!
# Encoding WebSocket Frames

`encodeFrame` (`WebSocketFrame.cpp`) writes a frame that is the last one of its message: the length
in the shortest of its three forms, and the payload, which is masked for a client. What it writes is
in the grammar, so that a parser finds the frames of a sequence again, and nothing else.

## Main results

* `bigEndian_writeBigEndian`: a length is read as it has been written.
* `OutgoingFrame.isFrame_encode`: what is written is a frame.
* `feed_encoded`: **the round trip** for every sequence of frames.
-/

namespace SimplyNode

open Text Incremental

/-- The values of `OpCode`. -/
def OpCode.value : OpCode → UInt8
  | .continuation => 0x0
  | .text => 0x1
  | .binary => 0x2
  | .close => 0x8
  | .ping => 0x9
  | .pong => 0xA

/-- What `randomMask` returns. -/
structure MaskKey where
  bytes : Bytes
  length_eq : bytes.length = 4

/-- The loop that writes a length, with the top byte first. -/
def writeBigEndian (count length : ℕ) : Bytes :=
  (List.range count).reverse.map fun i => UInt8.ofNat (length >>> (8 * i) &&& 0xFF)

/-- The second byte of a frame, and the field of its length. -/
def encodeLength (maskBit : UInt8) (size : ℕ) : Bytes :=
  if size ≤ 125 then [maskBit ||| UInt8.ofNat size]
  else if size ≤ 0xFFFF then
    [maskBit ||| 126, UInt8.ofNat (size >>> 8 &&& 0xFF), UInt8.ofNat (size &&& 0xFF)]
  else (maskBit ||| 127) :: writeBigEndian 8 size

/-- The payload with the mask on it. -/
def maskBytes (mask payload : Bytes) : Bytes :=
  payload.mapIdx fun i byte => byte ^^^ mask.getD (i % mask.length) 0

/-- `encodeFrame`, with what `randomMask` returns. -/
def encodeFrame (opcode : OpCode) (payload : Bytes) (maskPayload : Bool) (mask : MaskKey) : Bytes :=
  let maskBit : UInt8 := if maskPayload then 0x80 else 0x00
  let header := (0x80 ||| opcode.value) :: encodeLength maskBit payload.length
  if maskPayload then header ++ mask.bytes ++ maskBytes mask.bytes payload else header ++ payload

/-- A frame that can be sent: a payload that a vector can hold, and a short one in a control
frame. -/
structure OutgoingFrame where
  opcode : OpCode
  payload : Bytes
  maskPayload : Bool
  mask : MaskKey
  length_lt : payload.length < 2 ^ 63
  control_le : isControlOpcode opcode = true → payload.length ≤ 125

namespace OutgoingFrame

/-- The bytes of the frame. -/
def encode (frame : OutgoingFrame) : Bytes :=
  encodeFrame frame.opcode frame.payload frame.maskPayload frame.mask

/-- What the other side should find. -/
def sent (frame : OutgoingFrame) : WebSocketFrame where
  fin := true
  opcode := frame.opcode
  masked := frame.maskPayload
  payload := frame.payload

end OutgoingFrame

/-! ### The length -/

theorem writeBigEndian_succ (count length : ℕ) :
    writeBigEndian (count + 1) length =
      writeBigEndian count (length >>> 8) ++ [UInt8.ofNat (length &&& 0xFF)] := by
  have hshift : ((fun i => UInt8.ofNat (length >>> (8 * i) &&& 0xFF)) ∘ Nat.succ) =
      fun i => UInt8.ofNat ((length >>> 8) >>> (8 * i) &&& 0xFF) := by
    funext i
    rw [Function.comp_apply, ← Nat.shiftRight_add, Nat.mul_succ, Nat.add_comm]
  rw [writeBigEndian, writeBigEndian, List.range_succ_eq_map, List.reverse_cons, List.map_append,
    ← List.map_reverse, List.map_map, hshift]
  rfl

theorem length_writeBigEndian (count length : ℕ) :
    (writeBigEndian count length).length = count := by
  rw [writeBigEndian, List.length_map, List.length_reverse, List.length_range]

/-- The lowest byte of a length. -/
theorem toNat_low_byte (n : ℕ) : (UInt8.ofNat (n &&& 0xFF)).toNat = n % 256 := by
  have hlow : n &&& 0xFF = n % 2 ^ 8 := Nat.and_two_pow_sub_one_eq_mod n 8
  rw [UInt8.toNat_ofNat', hlow]
  exact Nat.mod_mod n _

/-- **A length is read as it has been written.** -/
theorem bigEndian_writeBigEndian {count length : ℕ} (h : length < 256 ^ count) :
    bigEndian (writeBigEndian count length) = length := by
  induction count generalizing length with
  | zero => exact (Nat.lt_one_iff.mp h).symm
  | succ count ih =>
      have hshift : length >>> 8 = length / 256 := Nat.shiftRight_eq_div_pow length 8
      have hdiv : length / 256 < 256 ^ count :=
        Nat.div_lt_of_lt_mul (by rwa [Nat.mul_comm, ← Nat.pow_succ])
      rw [writeBigEndian_succ, FrameGrammar.bigEndian_snoc, toNat_low_byte, hshift, ih hdiv]
      exact Nat.div_add_mod' length 256

/-- The two bytes of a length. -/
theorem writeBigEndian_two (length : ℕ) :
    writeBigEndian 2 length =
      [UInt8.ofNat (length >>> 8 &&& 0xFF), UInt8.ofNat (length &&& 0xFF)] := rfl

/-! ### The second byte -/

/-- The seven bits for a length do not depend on the bit of the mask. -/
theorem second_bits (masked : Bool) {n : ℕ} (h : n < 128) :
    (((if masked then 0x80 else 0x00 : UInt8) ||| UInt8.ofNat n) &&& 0x7F).toNat = n ∧
      decide ((((if masked then 0x80 else 0x00 : UInt8) ||| UInt8.ofNat n) &&& 0x80) ≠ 0) =
        masked := by
  have hall : ∀ n < 128, ((0x80 ||| UInt8.ofNat n) &&& 0x7F).toNat = n ∧
      ((0x00 ||| UInt8.ofNat n) &&& 0x7F).toNat = n ∧
      (0x80 ||| UInt8.ofNat n) &&& 0x80 ≠ 0 ∧ (0x00 ||| UInt8.ofNat n) &&& 0x80 = 0 := by
    decide +kernel
  obtain ⟨hset, hclear, hbit, hno⟩ := hall n h
  cases masked with
  | false =>
      rw [if_neg Bool.false_ne_true]
      exact ⟨hclear, decide_eq_false (not_not.mpr hno)⟩
  | true =>
      rw [if_pos rfl]
      exact ⟨hset, decide_eq_true hbit⟩

/-- **The second byte and the field** are those of the length. -/
theorem encodeLength_eq (masked : Bool) {size : ℕ} (h : size < 2 ^ 63) :
    ∃ second field, encodeLength (if masked then 0x80 else 0x00) size = second :: field ∧
      decide (second &&& 0x80 ≠ 0) = masked ∧
      LengthForm (second &&& 0x7F).toNat field size := by
  rw [encodeLength]
  split
  · rename_i hshort
    obtain ⟨hform, hbit⟩ := second_bits masked (n := size) (by omega)
    exact ⟨_, [], rfl, hbit, hform.symm ▸ .short hshort⟩
  · split
    · rename_i hshort hmedium
      obtain ⟨hform, hbit⟩ := second_bits masked (n := 126) (by decide)
      have hvalue : bigEndian (writeBigEndian 2 size) = size := bigEndian_writeBigEndian (by omega)
      have hminimal : 126 ≤ bigEndian (writeBigEndian 2 size) := by omega
      have hlength := LengthForm.medium (length_writeBigEndian 2 size) hminimal
      rw [hvalue, writeBigEndian_two] at hlength
      exact ⟨_, _, rfl, hbit, hform.symm ▸ hlength⟩
    · rename_i hmedium
      obtain ⟨hform, hbit⟩ := second_bits masked (n := 127) (by decide)
      have hvalue : bigEndian (writeBigEndian 8 size) = size := bigEndian_writeBigEndian (by omega)
      have hlength := LengthForm.long (length_writeBigEndian 8 size) (by omega) (by omega)
      rw [hvalue] at hlength
      exact ⟨_, _, rfl, hbit, hform.symm ▸ hlength⟩

/-! ### The mask -/

theorem length_maskBytes (mask payload : Bytes) :
    (maskBytes mask payload).length = payload.length := List.length_mapIdx

/-- **A mask is taken off as it has been put on.** -/
theorem unmask_maskBytes {mask : Bytes} (hmask : mask ≠ []) (payload : Bytes) :
    unmask mask (maskBytes mask payload) = payload := by
  rw [unmask, if_neg hmask, maskBytes]
  refine List.ext_getElem (by simp) fun i hi hi' => ?_
  rw [List.getElem_mapIdx, List.getElem_mapIdx, UInt8.xor_assoc, UInt8.xor_self, UInt8.xor_zero]

/-! ### The round trip -/

/-- The first byte of what is written. -/
theorem first_bits (opcode : OpCode) :
    (0x80 ||| opcode.value) &&& 0x70 = 0 ∧ (0x80 ||| opcode.value) &&& 0x80 ≠ 0 ∧
      opCode ((0x80 ||| opcode.value) &&& 0x0F) = some opcode := by
  cases opcode <;> decide

namespace OutgoingFrame

/-- **What is written is a frame.** -/
theorem isFrame_encode (frame : OutgoingFrame) : IsFrame frame.encode frame.sent := by
  obtain ⟨hreserved, hfin, hopcode⟩ := first_bits frame.opcode
  obtain ⟨second, field, hheader, hmasked, hlength⟩ :=
    encodeLength_eq frame.maskPayload frame.length_lt
  let head : FrameHead := ⟨0x80 ||| frame.opcode.value, second⟩
  have hhead : head.reserved = false := decide_eq_false (not_not.mpr hreserved)
  have hlast : head.fin = true := decide_eq_true hfin
  have hcontrol (payload : Bytes) (h : payload.length = frame.payload.length) :
      isControlOpcode frame.opcode = true → head.fin = true ∧ payload.length ≤ 125 :=
    fun hc => ⟨hlast, h ▸ frame.control_le hc⟩
  rw [encode, encodeFrame, sent, hheader]
  cases hmask : frame.maskPayload with
  | false =>
      rw [hmask] at hmasked
      have hframe := @IsFrame.mk head _ field [] frame.payload hhead hopcode hlength
        (hcontrol _ rfl)
        (by rw [FrameHead.masked, hmasked]; rfl)
      rw [hlast, FrameHead.masked, hmasked] at hframe
      exact hframe
  | true =>
      rw [hmask] at hmasked
      have hpayload := length_maskBytes frame.mask.bytes frame.payload
      have hframe := @IsFrame.mk head _ field frame.mask.bytes
        (maskBytes frame.mask.bytes frame.payload) hhead hopcode
        (hpayload.symm ▸ hlength) (hcontrol _ hpayload)
        (by rw [FrameHead.masked, hmasked]; exact frame.mask.length_eq)
      have hkey : frame.mask.bytes ≠ [] :=
        List.ne_nil_of_length_pos (by rw [frame.mask.length_eq]; decide)
      rw [hlast, FrameHead.masked, hmasked, unmask_maskBytes hkey,
        ← List.append_assoc] at hframe
      rw [if_pos rfl]
      exact hframe

end OutgoingFrame

/-- Frames that are written one behind the other. -/
theorem decodes_encoded (frames : List OutgoingFrame) :
    Decodes (frames.map OutgoingFrame.encode).flatten (frames.map OutgoingFrame.sent) [] := by
  refine ⟨frames.map OutgoingFrame.encode, (List.append_nil _).symm, ?_⟩
  induction frames with
  | nil => exact .nil
  | cons frame frames ih => exact .cons frame.isFrame_encode ih

/-- **The round trip**: a new parser finds the frames again, in their order, and nothing is left. -/
theorem feed_encoded (frames : List OutgoingFrame) :
    ({} : WebSocketFrameParser).feed (frames.map OutgoingFrame.encode).flatten =
      { buffer := [], frames := frames.map OutgoingFrame.sent, error := "" } := by
  have hfollows := WebSocketFrameParser.Follows.nil.feed (frames.map OutgoingFrame.encode).flatten
  rw [List.nil_append] at hfollows
  have hfound := drain_of_decodes (decodes_encoded frames)
  have hempty : drain (tryParseOne 64) ([] : Bytes) = ⟨[], [], none⟩ := rfl
  rw [hempty, List.append_nil] at hfound
  have hframes := hfollows.frames
  have herror := hfollows.error
  rw [hfound] at hframes herror
  have hbuffer := hfollows.buffer herror
  rw [hfound] at hbuffer
  exact WebSocketFrameParser.mk.injEq .. ▸ ⟨hbuffer, hframes, herror⟩

end SimplyNode
