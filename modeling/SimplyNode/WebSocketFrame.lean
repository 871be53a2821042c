import SimplyNode.HttpRequest
import SimplyNode.Lib.Incremental

/-!
# WebSocket Frames

`WebSocketFrameParser` (`WebSocketFrame.h/.cpp`) appends what it is given to a buffer, and takes
frames from it as long as it holds whole ones. `tryParseOne` goes through the buffer with an offset,
and compares the size of the buffer with the end of the payload. `frame` is the same grammar as a
sequence of parts, from which it follows that a frame is found when its last byte is there,
and does not change when more bytes come.

## Main results

* `tryParseOne_eq_frame`: on a machine with 64 bits, `tryParseOne` follows the grammar.
* `isIncremental_tryParseOne`: it may be interrupted anywhere.
* `WebSocketFrameParser.feed_eq`: what a call of `feed` makes of the buffer.
-/

namespace SimplyNode

open Text Incremental

/-- `OpCode`. -/
inductive OpCode
  | continuation
  | text
  | binary
  | close
  | ping
  | pong
  deriving DecidableEq

/-- `isKnownOpcode`, with the opcode. -/
def opCode (opcodeByte : UInt8) : Option OpCode :=
  if opcodeByte = 0x0 then some .continuation
  else if opcodeByte = 0x1 then some .text
  else if opcodeByte = 0x2 then some .binary
  else if opcodeByte = 0x8 then some .close
  else if opcodeByte = 0x9 then some .ping
  else if opcodeByte = 0xA then some .pong
  else none

/-- `isControlOpcode`. -/
def isControlOpcode (opcode : OpCode) : Bool :=
  opcode = .close || opcode = .ping || opcode = .pong

/-- `WebSocketFrame`. -/
structure WebSocketFrame where
  fin : Bool := true
  opcode : OpCode := .text
  masked : Bool := false
  payload : Bytes := []
  deriving DecidableEq

/-- The value of some bytes. -/
def bigEndian (data : Bytes) : ℕ := data.foldl (fun value byte => value <<< 8 ||| byte.toNat) 0

/-- `readBigEndian`. -/
def readBigEndian (data : Bytes) (offset count : ℕ) : ℕ := bigEndian ((data.drop offset).take count)

/-- The payload with its mask taken off. -/
def unmask (maskKey payload : Bytes) : Bytes :=
  if maskKey = [] then payload
  else payload.mapIdx fun i byte => byte ^^^ maskKey.getD (i % maskKey.length) 0

/-- The length of the payload, from the second byte of the frame on, and the offset behind it. There
are bytes missing, or the form of the length is wrong. -/
def readPayloadLength (buffer : Bytes) (payloadLength : ℕ) : Except (Option String) (ℕ × ℕ) :=
  if payloadLength = 126 then
    if buffer.length < 2 + 2 then .error none
    else if readBigEndian buffer 2 2 < 126 then
      .error (some "Non-minimal 16-bit WebSocket payload length")
    else .ok (readBigEndian buffer 2 2, 4)
  else if payloadLength = 127 then
    if buffer.length < 2 + 8 then .error none
    else if readBigEndian buffer 2 8 &&& 1 <<< 63 ≠ 0 then
      .error (some "Invalid 64-bit WebSocket payload length")
    else if readBigEndian buffer 2 8 ≤ 0xFFFF then
      .error (some "Non-minimal 64-bit WebSocket payload length")
    else .ok (readBigEndian buffer 2 8, 10)
  else .ok (payloadLength, 2)

/-- `WebSocketFrameParser::tryParseOne`, where a `size_t` has `sizeBits` bits. -/
def tryParseOne (sizeBits : ℕ) (buffer : Bytes) : Progress String WebSocketFrame UInt8 :=
  if buffer.length < 2 then .more
  else
    let first := buffer.getD 0 0
    let second := buffer.getD 1 0
    let fin : Bool := first &&& 0x80 ≠ 0
    let masked : Bool := second &&& 0x80 ≠ 0
    if first &&& 0x70 ≠ 0 then .failed "Reserved frame bits are not supported"
    else
      match opCode (first &&& 0x0F) with
      | none => .failed "Unsupported WebSocket opcode"
      | some opcode =>
          match readPayloadLength buffer (second &&& 0x7F).toNat with
          | .error none => .more
          | .error (some message) => .failed message
          | .ok (payloadLength, offset) =>
              if isControlOpcode opcode ∧ fin = false then
                .failed "Fragmented WebSocket control frames are invalid"
              else if isControlOpcode opcode ∧ 125 < payloadLength then
                .failed "WebSocket control frame payload is too large"
              else if masked ∧ buffer.length < offset + 4 then .more
              else
                let maskKey := if masked then (buffer.drop offset).take 4 else []
                let offset := if masked then offset + 4 else offset
                if 2 ^ sizeBits ≤ payloadLength then
                  .failed "WebSocket payload is too large for this platform"
                else if buffer.length < (offset + payloadLength) % 2 ^ sizeBits then .more
                else
                  .done { fin := fin, opcode := opcode, masked := masked,
                          payload := unmask maskKey ((buffer.drop offset).take payloadLength) }
                    (buffer.drop ((offset + payloadLength) % 2 ^ sizeBits))

/-- `WebSocketFrameParser`. There is no error as long as its text is empty. -/
structure WebSocketFrameParser where
  buffer : Bytes := []
  frames : List WebSocketFrame := []
  error : String := ""
  deriving DecidableEq

namespace WebSocketFrameParser

/-- `WebSocketFrameParser::hasError`. -/
def hasError (p : WebSocketFrameParser) : Bool := p.error ≠ ""

/-- The loop of `feed`. Every frame takes something from the buffer. -/
def parseFrames : ℕ → WebSocketFrameParser → WebSocketFrameParser
  | 0, p => p
  | n + 1, p =>
      match tryParseOne 64 p.buffer with
      | .more => p
      | .failed message => { p with error := message }
      | .done frame rest => parseFrames n { p with buffer := rest, frames := p.frames ++ [frame] }

/-- `WebSocketFrameParser::feed`. -/
def feed (p : WebSocketFrameParser) (data : Bytes) : WebSocketFrameParser :=
  if p.hasError ∨ data = [] then p
  else parseFrames ((p.buffer ++ data).length + 1) { p with buffer := p.buffer ++ data }

end WebSocketFrameParser

/-! ### The grammar -/

namespace FrameGrammar

/-- The length of a payload, behind the second byte. -/
def payloadLengthField (payloadLength : ℕ) : Parser UInt8 String ℕ :=
  if payloadLength = 126 then
    andThen (take 2) fun field =>
      if bigEndian field < 126 then fail "Non-minimal 16-bit WebSocket payload length"
      else ret (bigEndian field)
  else if payloadLength = 127 then
    andThen (take 8) fun field =>
      if bigEndian field &&& 1 <<< 63 ≠ 0 then fail "Invalid 64-bit WebSocket payload length"
      else if bigEndian field ≤ 0xFFFF then fail "Non-minimal 64-bit WebSocket payload length"
      else ret (bigEndian field)
  else ret payloadLength

/-- The mask, if there is one, and the payload. -/
def payloadField (fin masked : Bool) (opcode : OpCode) (payloadLength : ℕ) :
    Parser UInt8 String WebSocketFrame :=
  andThen (if masked then take 4 else ret []) fun maskKey =>
    andThen (take payloadLength) fun payload =>
      ret { fin := fin, opcode := opcode, masked := masked, payload := unmask maskKey payload }

/-- A frame. -/
def frame : Parser UInt8 String WebSocketFrame :=
  andThen (take 2) fun head =>
    let first := head.getD 0 0
    let second := head.getD 1 0
    let fin : Bool := first &&& 0x80 ≠ 0
    if first &&& 0x70 ≠ 0 then fail "Reserved frame bits are not supported"
    else
      match opCode (first &&& 0x0F) with
      | none => fail "Unsupported WebSocket opcode"
      | some opcode =>
          andThen (payloadLengthField (second &&& 0x7F).toNat) fun payloadLength =>
            if isControlOpcode opcode ∧ fin = false then
              fail "Fragmented WebSocket control frames are invalid"
            else if isControlOpcode opcode ∧ 125 < payloadLength then
              fail "WebSocket control frame payload is too large"
            else payloadField fin (second &&& 0x80 ≠ 0) opcode payloadLength

theorem isIncremental_payloadLengthField (payloadLength : ℕ) :
    IsIncremental (payloadLengthField payloadLength) := by
  rw [payloadLengthField]
  refine .ite ?_ (.ite ?_ (.ret _))
  · exact .andThen (.take 2) fun field => .ite (.fail _) (.ret _)
  · exact .andThen (.take 8) fun field => .ite (.fail _) (.ite (.fail _) (.ret _))

theorem isIncremental_payloadField (fin masked : Bool) (opcode : OpCode) (payloadLength : ℕ) :
    IsIncremental (payloadField fin masked opcode payloadLength) := by
  refine .andThen (.ite (.take 4) (.ret _)) fun maskKey => ?_
  exact .andThen (.take _) fun payload => .ret _

/-- **The grammar may be interrupted anywhere.** -/
theorem isIncremental_frame : IsIncremental frame := by
  refine .andThen (.take 2) fun head => ?_
  refine .ite (.fail _) ?_
  split
  · exact .fail _
  · refine .andThen (isIncremental_payloadLengthField _) fun payloadLength => ?_
    exact .ite (.fail _) (.ite (.fail _) (isIncremental_payloadField _ _ _ _))

/-- A frame takes two bytes and more. -/
theorem consumes_frame : Consumes frame := by
  refine Consumes.andThen (consumes_take (n := 2) (by decide)) fun head => ?_
  refine .ite (.fail _) ?_
  split
  · exact .fail _
  · refine .andThen (isIncremental_payloadLengthField _) fun payloadLength => ?_
    exact .ite (.fail _) (.ite (.fail _) (isIncremental_payloadField _ _ _ _))

/-- Every error of the grammar has a text. -/
theorem failsWith_frame : FailsWith (· ≠ "") frame := by
  refine .andThen (.take 2) fun head => ?_
  refine .ite (.fail (by decide)) ?_
  split
  · exact .fail (by decide)
  · refine .andThen ?_ fun payloadLength => ?_
    · refine .ite ?_ (.ite ?_ (.ret _))
      · exact .andThen (.take 2) fun field => .ite (.fail (by decide)) (.ret _)
      · refine .andThen (.take 8) fun field => ?_
        exact .ite (.fail (by decide)) (.ite (.fail (by decide)) (.ret _))
    · refine .ite (.fail (by decide)) (.ite (.fail (by decide)) ?_)
      refine .andThen (.ite (.take 4) (.ret _)) fun maskKey => ?_
      exact .andThen (.take _) fun payload => .ret _

/-! ### `tryParseOne` follows the grammar -/

/-- A last byte is below the others. -/
theorem bigEndian_snoc (data : Bytes) (byte : UInt8) :
    bigEndian (data ++ [byte]) = bigEndian data * 256 + byte.toNat := by
  rw [bigEndian, List.foldl_append, List.foldl_cons, List.foldl_nil,
    ← Nat.shiftLeft_add_eq_or_of_lt byte.toNat_lt, Nat.shiftLeft_eq]
  rfl

theorem bigEndian_lt (data : Bytes) : bigEndian data < 256 ^ data.length := by
  induction data using List.reverseRecOn with
  | nil => exact Nat.one_pos
  | append_singleton data byte ih =>
      have hbyte : byte.toNat < 256 := byte.toNat_lt
      rw [bigEndian_snoc, List.length_append, List.length_singleton, Nat.pow_succ]
      calc bigEndian data * 256 + byte.toNat < bigEndian data * 256 + 256 :=
            Nat.add_lt_add_left hbyte _
        _ = (bigEndian data + 1) * 256 := by rw [Nat.add_mul, Nat.one_mul]
        _ ≤ 256 ^ data.length * 256 := Nat.mul_le_mul_right 256 ih

/-- A number of 64 bits whose top bit is clear. -/
theorem lt_of_top_clear {n : ℕ} (h : n < 2 ^ 64) (htop : n &&& 1 <<< 63 = 0) : n < 2 ^ 63 := by
  by_contra hge
  have hbit : n.testBit 63 = true := by
    rw [Nat.testBit_eq_decide_div_mod_eq, decide_eq_true_eq]
    omega
  have hand : (n &&& 1 <<< 63).testBit 63 = true := by
    rw [Nat.testBit_and, hbit]
    decide
  rw [htop, Nat.zero_testBit] at hand
  cases hand

/-- The form of a length has seven bits. -/
theorem seven_bits (byte : UInt8) : (byte &&& 0x7F).toNat < 128 := by
  rw [UInt8.toNat_and]
  exact Nat.lt_succ_of_le Nat.and_le_right

/-- The length of a payload, and where it is. -/
theorem readPayloadLength_ok {buffer : Bytes} {n payloadLength offset : ℕ} (hn : n < 128)
    (hbuffer : 2 ≤ buffer.length) (h : readPayloadLength buffer n = .ok (payloadLength, offset)) :
    offset ≤ buffer.length ∧ offset ≤ 10 ∧ payloadLength < 2 ^ 63 := by
  have hbound (count : ℕ) : readBigEndian buffer 2 count < 256 ^ count :=
    (bigEndian_lt _).trans_le (Nat.pow_le_pow_right (by decide) (List.length_take_le _ _))
  rw [readPayloadLength] at h
  split at h
  · split at h
    · cases h
    · split at h
      · cases h
      · obtain ⟨rfl, rfl⟩ := Prod.mk.inj (Except.ok.inj h)
        have hlength := hbound 2
        omega
  · split at h
    · split at h
      · cases h
      · split at h
        · cases h
        · rename_i htop
          split at h
          · cases h
          · obtain ⟨rfl, rfl⟩ := Prod.mk.inj (Except.ok.inj h)
            have hlength := lt_of_top_clear (hbound 8) (not_not.mp htop)
            omega
    · obtain ⟨rfl, rfl⟩ := Prod.mk.inj (Except.ok.inj h)
      omega

/-- The length as a part of the grammar. -/
theorem payloadLengthField_eq {buffer : Bytes} (hbuffer : 2 ≤ buffer.length) (n : ℕ) :
    payloadLengthField n (buffer.drop 2) =
      match readPayloadLength buffer n with
      | .error none => .more
      | .error (some message) => .failed message
      | .ok (payloadLength, offset) => .done payloadLength (buffer.drop offset) := by
  have htake (count : ℕ) : (take count : Parser UInt8 String Bytes) (buffer.drop 2) =
      if buffer.length < 2 + count then .more
      else .done ((buffer.drop 2).take count) (buffer.drop (2 + count)) := by
    rw [take, List.length_drop, List.drop_drop]
    by_cases hle : count ≤ buffer.length - 2
    · rw [if_pos hle, if_neg (by omega)]
    · rw [if_neg hle, if_pos (by omega)]
  rw [payloadLengthField, readPayloadLength]
  by_cases h126 : n = 126
  · rw [if_pos h126, if_pos h126, andThen, htake, readBigEndian]
    by_cases hlt : buffer.length < 2 + 2
    · rw [if_pos hlt, if_pos hlt]
    · rw [if_neg hlt, if_neg hlt]
      dsimp only
      split
      · rfl
      · rfl
  · rw [if_neg h126, if_neg h126]
    by_cases h127 : n = 127
    · rw [if_pos h127, if_pos h127, andThen, htake, readBigEndian]
      by_cases hlt : buffer.length < 2 + 8
      · rw [if_pos hlt, if_pos hlt]
      · rw [if_neg hlt, if_neg hlt]
        dsimp only
        split
        · rfl
        · split
          · rfl
          · rfl
    · rw [if_neg h127, if_neg h127]
      rfl

/-- The mask and the payload, from an offset on. -/
theorem payloadField_eq {buffer : Bytes} {offset : ℕ} (hoffset : offset ≤ buffer.length)
    (fin masked : Bool) (opcode : OpCode) (payloadLength : ℕ) :
    payloadField fin masked opcode payloadLength (buffer.drop offset) =
      if masked ∧ buffer.length < offset + 4 then .more
      else
        let maskKey := if masked then (buffer.drop offset).take 4 else []
        let offset := if masked then offset + 4 else offset
        if buffer.length < offset + payloadLength then .more
        else
          .done { fin := fin, opcode := opcode, masked := masked,
                  payload := unmask maskKey ((buffer.drop offset).take payloadLength) }
            (buffer.drop (offset + payloadLength)) := by
  have hpayload (maskKey : Bytes) {start : ℕ} (hstart : start ≤ buffer.length) :
      andThen (take payloadLength : Parser UInt8 String Bytes)
          (fun payload => ret (⟨fin, opcode, masked, unmask maskKey payload⟩ : WebSocketFrame))
          (buffer.drop start) =
        if buffer.length < start + payloadLength then .more
        else
          .done { fin := fin, opcode := opcode, masked := masked,
                  payload := unmask maskKey ((buffer.drop start).take payloadLength) }
            (buffer.drop (start + payloadLength)) := by
    rw [andThen, take, List.length_drop, List.drop_drop]
    by_cases hlt : buffer.length < start + payloadLength
    · rw [if_pos hlt, if_neg (by omega)]
    · rw [if_neg hlt, if_pos (by omega)]
      rfl
  rw [payloadField, andThen]
  cases masked with
  | false => exact hpayload [] hoffset
  | true =>
      rw [if_pos rfl, take, List.length_drop, List.drop_drop]
      by_cases hlt : buffer.length < offset + 4
      · rw [if_neg (by omega), if_pos ⟨rfl, hlt⟩]
      · rw [if_pos (by omega), if_neg fun h => hlt h.2]
        exact hpayload _ (Nat.not_lt.mp hlt)

/-- **`tryParseOne` follows the grammar** on a machine with 64 bits: what it adds to the offset
stays below its `size_t`. -/
theorem tryParseOne_eq_frame (buffer : Bytes) : tryParseOne 64 buffer = frame buffer := by
  rw [tryParseOne, frame, andThen, take]
  by_cases hbuffer : buffer.length < 2
  · rw [if_pos hbuffer, if_neg (Nat.not_le.mpr hbuffer)]
  · have hle := Nat.not_lt.mp hbuffer
    have hhead (i : ℕ) (hi : i < 2) : (buffer.take 2).getD i 0 = buffer.getD i 0 := by
      rw [List.getD_eq_getElem?_getD, List.getD_eq_getElem?_getD, List.getElem?_take_of_lt hi]
    rw [if_neg hbuffer, if_pos hle]
    dsimp only
    rw [hhead 0 (by decide), hhead 1 (by decide)]
    by_cases hreserved : buffer.getD 0 0 &&& 0x70 ≠ 0
    · rw [if_pos hreserved, if_pos hreserved]
      rfl
    · rw [if_neg hreserved, if_neg hreserved]
      cases opCode (buffer.getD 0 0 &&& 0x0F) with
      | none => rfl
      | some opcode =>
          dsimp only
          rw [andThen, payloadLengthField_eq hle]
          cases hread : readPayloadLength buffer (buffer.getD 1 0 &&& 0x7F).toNat with
          | error e =>
              cases e with
              | none => rfl
              | some message => rfl
          | ok field =>
              obtain ⟨payloadLength, offset⟩ := field
              obtain ⟨hoffset, hten, hlength⟩ := readPayloadLength_ok (seven_bits _) hle hread
              have hfits : ¬2 ^ 64 ≤ payloadLength := by omega
              have hexact (skipped : ℕ) (hskipped : skipped ≤ 14) :
                  (skipped + payloadLength) % 2 ^ 64 = skipped + payloadLength :=
                Nat.mod_eq_of_lt (by omega)
              dsimp only
              rw [if_neg hfits]
              split
              · rfl
              · split
                · rfl
                · rw [payloadField_eq hoffset]
                  cases decide (buffer.getD 1 0 &&& 0x80 ≠ 0) with
                  | false =>
                      rw [if_neg Bool.false_ne_true, hexact offset (by omega)]
                  | true =>
                      rw [if_pos rfl, hexact (offset + 4) (by omega)]

end FrameGrammar

/-- **`tryParseOne` may be interrupted anywhere.** -/
theorem isIncremental_tryParseOne : IsIncremental (tryParseOne 64) :=
  funext FrameGrammar.tryParseOne_eq_frame ▸ FrameGrammar.isIncremental_frame

/-- A frame takes something from the buffer. -/
theorem consumes_tryParseOne : Consumes (tryParseOne 64) :=
  funext FrameGrammar.tryParseOne_eq_frame ▸ FrameGrammar.consumes_frame

/-- An error has a text. -/
theorem failsWith_tryParseOne : FailsWith (· ≠ "") (tryParseOne 64) :=
  funext FrameGrammar.tryParseOne_eq_frame ▸ FrameGrammar.failsWith_frame

namespace WebSocketFrameParser

/-- The loop takes the frames that the buffer holds. -/
theorem parseFrames_eq (n : ℕ) (p : WebSocketFrameParser) (h : p.error = "") :
    parseFrames n p =
      { buffer := (drainLoop (tryParseOne 64) n p.buffer).rest,
        frames := p.frames ++ (drainLoop (tryParseOne 64) n p.buffer).items,
        error := ((drainLoop (tryParseOne 64) n p.buffer).error).getD "" } := by
  induction n generalizing p with
  | zero =>
      rw [parseFrames, drainLoop, List.append_nil, Option.getD_none, ← h]
  | succ n ih =>
      rw [parseFrames, drainLoop]
      cases tryParseOne 64 p.buffer with
      | more =>
          dsimp only
          rw [List.append_nil, Option.getD_none, ← h]
      | failed message =>
          dsimp only
          rw [List.append_nil, Option.getD_some]
      | done frame rest =>
          dsimp only
          refine (ih ⟨rest, p.frames ++ [frame], p.error⟩ h).trans ?_
          rw [List.append_assoc]
          rfl

/-- **What a call of `feed` makes of the buffer.** -/
theorem feed_eq {p : WebSocketFrameParser} (h : p.error = "") {data : Bytes} (hdata : data ≠ []) :
    p.feed data =
      { buffer := (drain (tryParseOne 64) (p.buffer ++ data)).rest,
        frames := p.frames ++ (drain (tryParseOne 64) (p.buffer ++ data)).items,
        error := ((drain (tryParseOne 64) (p.buffer ++ data)).error).getD "" } := by
  have hcall : ¬(p.hasError = true ∨ data = []) := by
    rw [hasError, h]
    exact not_or.mpr ⟨by decide, hdata⟩
  rw [feed, if_neg hcall]
  exact parseFrames_eq _ _ h

end WebSocketFrameParser

end SimplyNode
