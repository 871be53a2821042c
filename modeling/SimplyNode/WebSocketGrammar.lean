import SimplyNode.WebSocketFrame

/-!
# The Grammar of WebSocket Frames

`IsFrame` says what the bytes of a frame are, and `Violates` what a rule of the grammar is broken by
and which one it is, without saying how they are read. `WebSocketFrameParser` finds the longest
sequence of frames at the front of what it has been fed, however this has been cut into calls of
`feed`. It looks at a rule when all of the bytes that the rule is about have arrived: the first two
of a frame, and the field of its length.

## Main results

* `frame_done_iff`, `frame_failed_iff`: what `tryParseOne` accepts, and what it rejects.
* `feed_pieces`: the calls of `feed` find what one call finds.
* `feed_decodes`: **the frames and the error** for every sequence of calls.
-/

namespace SimplyNode

open Text Incremental

/-- The first two bytes of a frame. -/
structure FrameHead where
  first : UInt8
  second : UInt8
  deriving DecidableEq

namespace FrameHead

variable (head : FrameHead)

/-- It is the last frame of its message. -/
def fin : Bool := head.first &&& 0x80 ≠ 0

/-- The bits that have no meaning. -/
def reserved : Bool := head.first &&& 0x70 ≠ 0

/-- What the frame is for. -/
def opcode : Option OpCode := opCode (head.first &&& 0x0F)

/-- There is a mask in front of the payload. -/
def masked : Bool := head.second &&& 0x80 ≠ 0

/-- The length of the payload, or the form in which it follows. -/
def lengthForm : ℕ := (head.second &&& 0x7F).toNat

end FrameHead

/-- A length in the shortest form for it. -/
inductive LengthForm : ℕ → Bytes → ℕ → Prop
  | short {n : ℕ} (h : n ≤ 125) : LengthForm n [] n
  | medium {field : Bytes} (hlength : field.length = 2) (hminimal : 126 ≤ bigEndian field) :
      LengthForm 126 field (bigEndian field)
  | long {field : Bytes} (hlength : field.length = 8) (hminimal : 0xFFFF < bigEndian field)
      (htop : bigEndian field < 2 ^ 63) : LengthForm 127 field (bigEndian field)

/-- A length in a wrong form. -/
inductive BadLength : ℕ → Bytes → String → Prop
  | medium {field : Bytes} (hlength : field.length = 2) (h : bigEndian field < 126) :
      BadLength 126 field "Non-minimal 16-bit WebSocket payload length"
  | top {field : Bytes} (hlength : field.length = 8) (h : 2 ^ 63 ≤ bigEndian field) :
      BadLength 127 field "Invalid 64-bit WebSocket payload length"
  | long {field : Bytes} (hlength : field.length = 8) (h : bigEndian field ≤ 0xFFFF) :
      BadLength 127 field "Non-minimal 64-bit WebSocket payload length"

/-- **The bytes of a frame**: no reserved bits, a known opcode, a length in its shortest form, and
a control frame in one piece and short. -/
inductive IsFrame : Bytes → WebSocketFrame → Prop
  | mk {head : FrameHead} {opcode : OpCode} {field maskKey payload : Bytes}
      (hreserved : head.reserved = false) (hopcode : head.opcode = some opcode)
      (hlength : LengthForm head.lengthForm field payload.length)
      (hcontrol : isControlOpcode opcode = true → head.fin = true ∧ payload.length ≤ 125)
      (hmask : maskKey.length = if head.masked then 4 else 0) :
      IsFrame (head.first :: head.second :: (field ++ (maskKey ++ payload)))
        { fin := head.fin, opcode := opcode, masked := head.masked,
          payload := unmask maskKey payload }

/-- **The rule that is broken** by what has arrived of a frame. -/
inductive Violates : Bytes → String → Prop
  | reserved {head : FrameHead} {rest : Bytes} (h : head.reserved = true) :
      Violates (head.first :: head.second :: rest) "Reserved frame bits are not supported"
  | opcode {head : FrameHead} {rest : Bytes} (hreserved : head.reserved = false)
      (h : head.opcode = none) :
      Violates (head.first :: head.second :: rest) "Unsupported WebSocket opcode"
  | length {head : FrameHead} {opcode : OpCode} {field rest : Bytes} {message : String}
      (hreserved : head.reserved = false) (hopcode : head.opcode = some opcode)
      (h : BadLength head.lengthForm field message) :
      Violates (head.first :: head.second :: (field ++ rest)) message
  | fragmented {head : FrameHead} {opcode : OpCode} {field rest : Bytes} {payloadLength : ℕ}
      (hreserved : head.reserved = false) (hopcode : head.opcode = some opcode)
      (hlength : LengthForm head.lengthForm field payloadLength)
      (hcontrol : isControlOpcode opcode = true) (h : head.fin = false) :
      Violates (head.first :: head.second :: (field ++ rest))
        "Fragmented WebSocket control frames are invalid"
  | large {head : FrameHead} {opcode : OpCode} {field rest : Bytes} {payloadLength : ℕ}
      (hreserved : head.reserved = false) (hopcode : head.opcode = some opcode)
      (hlength : LengthForm head.lengthForm field payloadLength)
      (hcontrol : isControlOpcode opcode = true) (hfin : head.fin = true)
      (h : 125 < payloadLength) :
      Violates (head.first :: head.second :: (field ++ rest))
        "WebSocket control frame payload is too large"

/-- The text begins with some frames, and this is behind them. -/
def Decodes (text : Bytes) (frames : List WebSocketFrame) (rest : Bytes) : Prop :=
  ∃ parts : List Bytes, text = parts.flatten ++ rest ∧ List.Forall₂ IsFrame parts frames

namespace FrameGrammar

/-! ### The field of the length -/

/-- The top bit of a number of 64 bits. -/
theorem top_clear_iff {n : ℕ} (h : n < 2 ^ 64) : n &&& 1 <<< 63 = 0 ↔ n < 2 ^ 63 := by
  constructor
  · exact lt_of_top_clear h
  · intro hlt
    have hbit : n.testBit 63 = false := Nat.testBit_lt_two_pow hlt
    refine Nat.eq_of_testBit_eq fun i => ?_
    rw [Nat.testBit_and, Nat.one_shiftLeft, Nat.testBit_two_pow, Nat.zero_testBit]
    by_cases hi : 63 = i
    · rw [← hi, hbit, Bool.false_and]
    · rw [decide_eq_false hi, Bool.and_false]

/-- Eight bytes have 64 bits. -/
theorem top_clear_field {field : Bytes} (h : field.length = 8) :
    bigEndian field &&& 1 <<< 63 = 0 ↔ bigEndian field < 2 ^ 63 := by
  refine top_clear_iff ?_
  have hlt := bigEndian_lt field
  rw [h] at hlt
  exact hlt

/-- The length field is read exactly if it has the form that the seven bits announce. -/
theorem payloadLengthField_done_iff {n payloadLength : ℕ} (hn : n < 128) {field : Bytes} :
    payloadLengthField n field = .done payloadLength [] ↔ LengthForm n field payloadLength := by
  constructor
  · intro h
    rw [payloadLengthField] at h
    split at h
    · rename_i h126
      obtain ⟨a, u, v, rfl, hu, hv⟩ := (andThen_done_iff (.take 2)).mp h
      obtain ⟨hlength, rfl⟩ := take_done_iff.mp hu
      split at hv
      · cases hv
      · obtain ⟨rfl, rfl⟩ := ret_done_iff.mp hv
        rw [List.append_nil, h126]
        exact .medium hlength (Nat.not_lt.mp ‹_›)
    · split at h
      · rename_i h127
        obtain ⟨a, u, v, rfl, hu, hv⟩ := (andThen_done_iff (.take 8)).mp h
        obtain ⟨hlength, rfl⟩ := take_done_iff.mp hu
        split at hv
        · cases hv
        · rename_i htop
          split at hv
          · cases hv
          · obtain ⟨rfl, rfl⟩ := ret_done_iff.mp hv
            rw [List.append_nil, h127]
            exact .long hlength (Nat.not_le.mp ‹_›)
              ((top_clear_field hlength).mp (not_not.mp htop))
      · obtain ⟨rfl, rfl⟩ := ret_done_iff.mp h
        exact .short (by omega)
  · intro h
    cases h with
    | short h =>
        rw [payloadLengthField, if_neg (by omega), if_neg (by omega)]
        rfl
    | medium hlength hminimal =>
        rw [payloadLengthField, if_pos rfl]
        refine (andThen_done_iff (.take 2)).mpr
          ⟨field, field, [], (List.append_nil _).symm, take_done_iff.mpr ⟨hlength, rfl⟩, ?_⟩
        rw [if_neg (Nat.not_lt.mpr hminimal)]
        rfl
    | long hlength hminimal htop =>
        rw [payloadLengthField, if_neg (by decide), if_pos rfl]
        refine (andThen_done_iff (.take 8)).mpr
          ⟨field, field, [], (List.append_nil _).symm, take_done_iff.mpr ⟨hlength, rfl⟩, ?_⟩
        rw [if_neg (not_not.mpr ((top_clear_field hlength).mpr htop)),
          if_neg (Nat.not_le.mpr hminimal)]
        rfl

/-- A parser that takes bytes never fails. -/
theorem not_take_failed {n : ℕ} {b : Bytes} {e : String} :
    (take n : Parser UInt8 String Bytes) b ≠ .failed e := by
  intro h
  rw [take] at h
  split at h <;> cases h

/-- It fails exactly on a length that is too short for its form or too large. -/
theorem payloadLengthField_failed_iff {n : ℕ} {b : Bytes} {message : String} :
    payloadLengthField n b = .failed message ↔
      ∃ field rest, b = field ++ rest ∧ BadLength n field message := by
  constructor
  · intro h
    rw [payloadLengthField] at h
    split at h
    · rename_i h126
      obtain hfail | ⟨a, u, rest, rfl, hu, hv⟩ := (andThen_failed_iff (.take 2)).mp h
      · exact absurd hfail not_take_failed
      · obtain ⟨hlength, rfl⟩ := take_done_iff.mp hu
        split at hv
        · cases hv
          exact ⟨a, rest, rfl, h126 ▸ .medium hlength ‹_›⟩
        · cases hv
    · split at h
      · rename_i h127
        obtain hfail | ⟨a, u, rest, rfl, hu, hv⟩ := (andThen_failed_iff (.take 8)).mp h
        · exact absurd hfail not_take_failed
        · obtain ⟨hlength, rfl⟩ := take_done_iff.mp hu
          split at hv
          · rename_i htop
            cases hv
            refine ⟨a, rest, rfl, h127 ▸ .top hlength (Nat.not_lt.mp fun hlt => ?_)⟩
            exact htop ((top_clear_field hlength).mpr hlt)
          · split at hv
            · cases hv
              exact ⟨a, rest, rfl, h127 ▸ .long hlength ‹_›⟩
            · cases hv
      · cases h
  · rintro ⟨field, rest, rfl, h⟩
    cases h with
    | medium hlength h =>
        rw [payloadLengthField, if_pos rfl]
        refine (andThen_failed_iff (.take 2)).mpr
          (Or.inr ⟨field, field, rest, rfl, take_done_iff.mpr ⟨hlength, rfl⟩, ?_⟩)
        rw [if_pos h]
        rfl
    | top hlength h =>
        rw [payloadLengthField, if_neg (by decide), if_pos rfl]
        refine (andThen_failed_iff (.take 8)).mpr
          (Or.inr ⟨field, field, rest, rfl, take_done_iff.mpr ⟨hlength, rfl⟩, ?_⟩)
        rw [if_pos (mt (top_clear_field hlength).mp (Nat.not_lt.mpr h))]
        rfl
    | long hlength h =>
        rw [payloadLengthField, if_neg (by decide), if_pos rfl]
        refine (andThen_failed_iff (.take 8)).mpr
          (Or.inr ⟨field, field, rest, rfl, take_done_iff.mpr ⟨hlength, rfl⟩, ?_⟩)
        rw [if_neg (not_not.mpr ((top_clear_field hlength).mpr (h.trans_lt (by decide)))),
          if_pos h]
        rfl

/-! ### The mask and the payload -/

/-- The mask key is there exactly if the frame is masked. -/
theorem maskField_done_iff {masked : Bool} {b maskKey : Bytes} :
    (if masked then take 4 else ret [] : Parser UInt8 String Bytes) b = .done maskKey [] ↔
      maskKey = b ∧ b.length = if masked then 4 else 0 := by
  cases masked with
  | false =>
      rw [if_neg Bool.false_ne_true, if_neg Bool.false_ne_true, ret_done_iff,
        List.length_eq_zero_iff]
      constructor
      · rintro ⟨rfl, rfl⟩
        exact ⟨rfl, rfl⟩
      · rintro ⟨rfl, rfl⟩
        exact ⟨rfl, rfl⟩
  | true => rw [if_pos rfl, if_pos rfl, take_done_iff, and_comm]

/-- The parser of the mask key is incremental. -/
theorem isIncremental_maskField (masked : Bool) :
    IsIncremental (if masked then take 4 else ret [] : Parser UInt8 String Bytes) :=
  .ite (.take 4) (.ret _)

/-- Mask key and payload are read exactly if they have the announced lengths. -/
theorem payloadField_done_iff {fin masked : Bool} {opcode : OpCode} {payloadLength : ℕ}
    {b : Bytes} {frame : WebSocketFrame} :
    payloadField fin masked opcode payloadLength b = .done frame [] ↔
      ∃ maskKey payload, b = maskKey ++ payload ∧ (maskKey.length = if masked then 4 else 0) ∧
        payload.length = payloadLength ∧
        frame = { fin := fin, opcode := opcode, masked := masked,
                  payload := unmask maskKey payload } := by
  rw [payloadField, andThen_done_iff (isIncremental_maskField masked)]
  constructor
  · rintro ⟨maskKey, u, v, rfl, hu, hv⟩
    obtain ⟨rfl, hmask⟩ := maskField_done_iff.mp hu
    obtain ⟨a, payload, w, rfl, hpayload, hw⟩ := (andThen_done_iff (.take _)).mp hv
    obtain ⟨hlength, rfl⟩ := take_done_iff.mp hpayload
    obtain ⟨rfl, rfl⟩ := ret_done_iff.mp hw
    rw [List.append_nil]
    exact ⟨maskKey, a, rfl, hmask, hlength, rfl⟩
  · rintro ⟨maskKey, payload, rfl, hmask, hlength, rfl⟩
    refine ⟨maskKey, maskKey, payload, rfl, maskField_done_iff.mpr ⟨rfl, hmask⟩, ?_⟩
    refine (andThen_done_iff (.take _)).mpr
      ⟨payload, payload, [], (List.append_nil _).symm, take_done_iff.mpr ⟨hlength, rfl⟩, ?_⟩
    exact ret_done_iff.mpr ⟨rfl, rfl⟩

/-- Mask key and payload never make a frame fail. -/
theorem not_payloadField_failed {fin masked : Bool} {opcode : OpCode} {payloadLength : ℕ}
    {b : Bytes} {message : String} :
    payloadField fin masked opcode payloadLength b ≠ .failed message := by
  have hmask : FailsWith (fun _ : String => False)
      (if masked then take 4 else ret [] : Parser UInt8 String Bytes) := .ite (.take 4) (.ret _)
  have hfails : FailsWith (fun _ => False) (payloadField fin masked opcode payloadLength) :=
    hmask.andThen fun maskKey => .andThen (.take _) fun payload => .ret _
  exact hfails b message

/-! ### A frame -/

/-- What is behind the field of the length. -/
def controlField (head : FrameHead) (opcode : OpCode) (payloadLength : ℕ) :
    Parser UInt8 String WebSocketFrame :=
  if isControlOpcode opcode ∧ head.fin = false then
    fail "Fragmented WebSocket control frames are invalid"
  else if isControlOpcode opcode ∧ 125 < payloadLength then
    fail "WebSocket control frame payload is too large"
  else payloadField head.fin head.masked opcode payloadLength

/-- What is behind the first two bytes. -/
def frameBody (head : FrameHead) : Parser UInt8 String WebSocketFrame :=
  if head.reserved = true then fail "Reserved frame bits are not supported"
  else
    match head.opcode with
    | none => fail "Unsupported WebSocket opcode"
    | some opcode => andThen (payloadLengthField head.lengthForm) (controlField head opcode)

/-- Behind its two first bytes comes the body of a frame. -/
theorem frame_cons (head : FrameHead) (rest : Bytes) :
    frame (head.first :: head.second :: rest) = frameBody head rest := by
  have hbody : frameBody head =
      if head.first &&& 0x70 ≠ 0 then fail "Reserved frame bits are not supported"
      else
        match head.opcode with
        | none => fail "Unsupported WebSocket opcode"
        | some opcode => andThen (payloadLengthField head.lengthForm) (controlField head opcode) :=
    if_congr decide_eq_true_iff rfl rfl
  rw [hbody]
  rfl

/-- Less than two bytes are not enough. -/
theorem frame_short {b : Bytes} (h : b.length < 2) : frame b = .more := by
  rw [frame, andThen, take, if_neg (Nat.not_le.mpr h)]

/-- The announced form has seven bits. -/
theorem lengthForm_lt (head : FrameHead) : head.lengthForm < 128 := seven_bits head.second

/-- A control frame is read exactly if it is whole and not too long. -/
theorem controlField_done_iff {head : FrameHead} {opcode : OpCode} {payloadLength : ℕ}
    {b : Bytes} {frame : WebSocketFrame} :
    controlField head opcode payloadLength b = .done frame [] ↔
      (isControlOpcode opcode = true → head.fin = true ∧ payloadLength ≤ 125) ∧
        payloadField head.fin head.masked opcode payloadLength b = .done frame [] := by
  rw [controlField]
  by_cases hfin : isControlOpcode opcode = true ∧ head.fin = false
  · rw [if_pos hfin]
    constructor
    · intro h
      cases h
    · rintro ⟨h, -⟩
      exact absurd ((h hfin.1).1.symm.trans hfin.2) (by decide)
  · rw [if_neg hfin]
    by_cases hlarge : isControlOpcode opcode = true ∧ 125 < payloadLength
    · rw [if_pos hlarge]
      constructor
      · intro h
        cases h
      · rintro ⟨h, -⟩
        exact absurd (h hlarge.1).2 (Nat.not_le.mpr hlarge.2)
    · rw [if_neg hlarge]
      refine ⟨fun h => ⟨fun hcontrol => ⟨?_, ?_⟩, h⟩, fun h => h.2⟩
      · exact Bool.not_eq_false _ ▸ fun h => hfin ⟨hcontrol, h⟩
      · exact Nat.not_lt.mp fun h => hlarge ⟨hcontrol, h⟩

/-- A control frame fails exactly if it is a fragment or too long. -/
theorem controlField_failed_iff {head : FrameHead} {opcode : OpCode} {payloadLength : ℕ}
    {b : Bytes} {message : String} :
    controlField head opcode payloadLength b = .failed message ↔
      isControlOpcode opcode = true ∧
        (head.fin = false ∧ message = "Fragmented WebSocket control frames are invalid" ∨
          head.fin = true ∧ 125 < payloadLength ∧
            message = "WebSocket control frame payload is too large") := by
  rw [controlField]
  by_cases hcontrol : isControlOpcode opcode = true
  · cases hfin : head.fin with
    | false =>
        rw [if_pos ⟨hcontrol, rfl⟩, fail, Progress.failed.injEq]
        simp [hcontrol, eq_comm]
    | true =>
        rw [if_neg (by simp)]
        by_cases hlarge : 125 < payloadLength
        · rw [if_pos ⟨hcontrol, hlarge⟩, fail, Progress.failed.injEq]
          simp [hcontrol, hlarge, eq_comm]
        · rw [if_neg fun h => hlarge h.2]
          simp [hlarge, not_payloadField_failed]
  · rw [if_neg fun h => hcontrol h.1, if_neg fun h => hcontrol h.1]
    simp [hcontrol, not_payloadField_failed]

/-- The first two bytes, and the rest. -/
theorem exists_head {b : Bytes} (h : 2 ≤ b.length) :
    ∃ (head : FrameHead) (rest : Bytes), b = head.first :: head.second :: rest := by
  cases b with
  | nil => simp at h
  | cons first b =>
      cases b with
      | nil => simp at h
      | cons second rest => exact ⟨⟨first, second⟩, rest, rfl⟩

/-- **What the grammar accepts.** -/
theorem frame_done_iff {w : Bytes} {f : WebSocketFrame} : frame w = .done f [] ↔ IsFrame w f := by
  constructor
  · intro h
    obtain hlt | hle := Nat.lt_or_ge w.length 2
    · rw [frame_short hlt] at h
      cases h
    · obtain ⟨head, rest, rfl⟩ := exists_head hle
      rw [frame_cons, frameBody] at h
      split at h
      · cases h
      · cases hopcode : head.opcode with
        | none =>
            rw [hopcode] at h
            cases h
        | some opcode =>
            rw [hopcode] at h
            obtain ⟨payloadLength, field, v, rfl, hfield, hv⟩ :=
              (andThen_done_iff (isIncremental_payloadLengthField _)).mp h
            obtain ⟨hcontrol, hpayload⟩ := controlField_done_iff.mp hv
            obtain ⟨maskKey, payload, rfl, hmask, rfl, rfl⟩ := payloadField_done_iff.mp hpayload
            exact .mk (Bool.eq_false_iff.mpr ‹_›) hopcode
              ((payloadLengthField_done_iff (lengthForm_lt head)).mp hfield) hcontrol hmask
  · intro h
    cases h with
    | @mk head opcode field maskKey payload hreserved hopcode hlength hcontrol hmask =>
        rw [frame_cons, frameBody, hreserved, if_neg Bool.false_ne_true, hopcode]
        refine (andThen_done_iff (isIncremental_payloadLengthField _)).mpr
          ⟨payload.length, field, maskKey ++ payload, rfl,
            (payloadLengthField_done_iff (lengthForm_lt head)).mpr hlength, ?_⟩
        exact controlField_done_iff.mpr
          ⟨hcontrol, payloadField_done_iff.mpr ⟨maskKey, payload, rfl, hmask, rfl, rfl⟩⟩

/-- **What the grammar rejects**, and with which error. -/
theorem frame_failed_iff {b : Bytes} {message : String} :
    frame b = .failed message ↔ Violates b message := by
  constructor
  · intro h
    obtain hlt | hle := Nat.lt_or_ge b.length 2
    · rw [frame_short hlt] at h
      cases h
    · obtain ⟨head, rest, rfl⟩ := exists_head hle
      rw [frame_cons, frameBody] at h
      split at h
      · cases h
        exact .reserved ‹_›
      · have hreserved : head.reserved = false := Bool.eq_false_iff.mpr ‹_›
        cases hopcode : head.opcode with
        | none =>
            rw [hopcode] at h
            cases h
            exact .opcode hreserved hopcode
        | some opcode =>
            rw [hopcode] at h
            obtain hfield | ⟨payloadLength, field, v, rfl, hfield, hv⟩ :=
              (andThen_failed_iff (isIncremental_payloadLengthField _)).mp h
            · obtain ⟨field, rest, rfl, hbad⟩ := payloadLengthField_failed_iff.mp hfield
              exact .length hreserved hopcode hbad
            · have hlength := (payloadLengthField_done_iff (lengthForm_lt head)).mp hfield
              obtain ⟨hcontrol, ⟨hfin, rfl⟩ | ⟨hfin, hlarge, rfl⟩⟩ := controlField_failed_iff.mp hv
              · exact .fragmented hreserved hopcode hlength hcontrol hfin
              · exact .large hreserved hopcode hlength hcontrol hfin hlarge
  · intro h
    cases h with
    | reserved h => rw [frame_cons, frameBody, if_pos h, fail]
    | opcode hreserved h =>
        rw [frame_cons, frameBody, hreserved, if_neg Bool.false_ne_true, h]
        rfl
    | length hreserved hopcode h =>
        rw [frame_cons, frameBody, hreserved, if_neg Bool.false_ne_true, hopcode]
        exact (andThen_failed_iff (isIncremental_payloadLengthField _)).mpr
          (Or.inl (payloadLengthField_failed_iff.mpr ⟨_, _, rfl, h⟩))
    | @fragmented head opcode field rest payloadLength hreserved hopcode hlength hcontrol h =>
        rw [frame_cons, frameBody, hreserved, if_neg Bool.false_ne_true, hopcode]
        refine (andThen_failed_iff (isIncremental_payloadLengthField _)).mpr
          (Or.inr ⟨payloadLength, field, rest, rfl,
            (payloadLengthField_done_iff (lengthForm_lt head)).mpr hlength, ?_⟩)
        exact controlField_failed_iff.mpr ⟨hcontrol, Or.inl ⟨h, rfl⟩⟩
    | @large head opcode field rest payloadLength hreserved hopcode hlength hcontrol hfin h =>
        rw [frame_cons, frameBody, hreserved, if_neg Bool.false_ne_true, hopcode]
        refine (andThen_failed_iff (isIncremental_payloadLengthField _)).mpr
          (Or.inr ⟨payloadLength, field, rest, rfl,
            (payloadLengthField_done_iff (lengthForm_lt head)).mpr hlength, ?_⟩)
        exact controlField_failed_iff.mpr ⟨hcontrol, Or.inr ⟨hfin, h, rfl⟩⟩

end FrameGrammar

open FrameGrammar

/-- The frames at the front of a text are found, and there may be more behind them. -/
theorem drain_of_decodes {text rest : Bytes} {frames : List WebSocketFrame}
    (h : Decodes text frames rest) :
    drain (tryParseOne 64) text =
      ⟨frames ++ (drain (tryParseOne 64) rest).items, (drain (tryParseOne 64) rest).rest,
        (drain (tryParseOne 64) rest).error⟩ := by
  obtain ⟨parts, rfl, hparts⟩ := h
  refine drain_of_parts isIncremental_tryParseOne consumes_tryParseOne (hparts.imp ?_) rest
  intro w f hw
  rw [tryParseOne_eq_frame]
  exact frame_done_iff.mpr hw

/-- What is found are frames, one behind the other. -/
theorem drain_decodes (text : Bytes) :
    Decodes text (drain (tryParseOne 64) text).items (drain (tryParseOne 64) text).rest := by
  obtain ⟨parts, hparts, hitems⟩ :=
    drain_parts isIncremental_tryParseOne consumes_tryParseOne text
  refine ⟨parts, hparts, hitems.imp ?_⟩
  intro w f hw
  rw [tryParseOne_eq_frame] at hw
  exact frame_done_iff.mp hw

/-- The error, and the rule that is broken. -/
theorem drain_error_iff {text : Bytes} {message : String} :
    (drain (tryParseOne 64) text).error = some message ↔
      Violates (drain (tryParseOne 64) text).rest message := by
  rw [← frame_failed_iff, ← tryParseOne_eq_frame]
  constructor
  · exact drain_malformed consumes_tryParseOne
  · intro h
    cases herror : (drain (tryParseOne 64) text).error with
    | none =>
        rw [drain_rest consumes_tryParseOne herror] at h
        cases h
    | some e =>
        have hrest := drain_malformed consumes_tryParseOne herror
        rw [h] at hrest
        cases hrest
        rfl

/-- A frame that has begun, and may still be completed. -/
def Begun (rest : Bytes) : Prop := ∃ w f, IsFrame w f ∧ rest <+: w

/-- **What is rejected does not begin a frame.** -/
theorem Violates.not_begun {rest : Bytes} {message : String} (h : Violates rest message) :
    ¬Begun rest := by
  rintro ⟨w, f, hw, t, rfl⟩
  have hfailed := isIncremental_frame.failed t (frame_failed_iff.mpr h)
  rw [frame_done_iff.mpr hw] at hfailed
  cases hfailed

namespace WebSocketFrameParser

/-- What the calls of `feed` make of a new parser. -/
def fed (pieces : List Bytes) : WebSocketFrameParser := pieces.foldl feed {}

/-- The parser has found what there is to be found in the text. Nothing more is added to its buffer
when there is an error. -/
structure Follows (p : WebSocketFrameParser) (text : Bytes) : Prop where
  frames : p.frames = (drain (tryParseOne 64) text).items
  error : p.error = ((drain (tryParseOne 64) text).error).getD ""
  buffer : p.error = "" → p.buffer = (drain (tryParseOne 64) text).rest

/-- A new parser has read nothing. -/
theorem Follows.nil : Follows {} [] where
  frames := rfl
  error := rfl
  buffer _ := rfl

/-- There is an error in the parser and in the text, or in none of them. -/
theorem Follows.error_iff {p : WebSocketFrameParser} {text : Bytes} (h : p.Follows text) :
    p.error = "" ↔ (drain (tryParseOne 64) text).error = none := by
  rw [h.error]
  cases herror : (drain (tryParseOne 64) text).error with
  | none => exact iff_of_true rfl rfl
  | some e => exact iff_of_false (drain_error failsWith_tryParseOne herror) (by simp)

/-- Feeding nothing changes nothing. -/
theorem feed_nil (p : WebSocketFrameParser) : p.feed [] = p := by
  rw [feed, if_pos (Or.inr rfl)]

/-- Behind an error nothing is read. -/
theorem feed_of_error {p : WebSocketFrameParser} (h : p.error ≠ "") (data : Bytes) :
    p.feed data = p := by
  rw [feed]
  exact if_pos (Or.inl (decide_eq_true h))

/-- A call of `feed`. -/
theorem Follows.feed {p : WebSocketFrameParser} {text : Bytes} (h : p.Follows text)
    (data : Bytes) : (p.feed data).Follows (text ++ data) := by
  by_cases hp : p.error = ""
  · by_cases hdata : data = []
    · rwa [hdata, List.append_nil, feed_nil]
    · rw [feed_eq hp hdata, h.buffer hp]
      have hnext := drain_append isIncremental_tryParseOne consumes_tryParseOne
        (h.error_iff.mp hp) data
      constructor
      · rw [hnext, h.frames]
      · rw [hnext]
      · intro _
        rw [hnext]
  · rw [feed_of_error hp]
    obtain ⟨e, he⟩ := Option.ne_none_iff_exists'.mp (mt h.error_iff.mpr hp)
    obtain ⟨hitems, herror⟩ := drain_append_of_error isIncremental_tryParseOne consumes_tryParseOne
      he data
    constructor
    · rw [hitems, h.frames]
    · rw [herror, h.error, he]
    · exact fun hnone => absurd hnone hp

/-- A parser follows all that it is fed. -/
theorem Follows.feeds {p : WebSocketFrameParser} {text : Bytes} (h : p.Follows text)
    (pieces : List Bytes) : (pieces.foldl WebSocketFrameParser.feed p).Follows
      (text ++ pieces.flatten) := by
  induction pieces generalizing p text with
  | nil => rwa [List.flatten_nil, List.append_nil]
  | cons data pieces ih =>
      rw [List.foldl_cons, List.flatten_cons, ← List.append_assoc]
      exact ih (h.feed data)

/-- **A new parser follows what it is fed.** -/
theorem follows_fed (pieces : List Bytes) : (fed pieces).Follows pieces.flatten :=
  Follows.nil.feeds pieces

/-- The calls of `feed` find what one call finds. -/
theorem feed_pieces (pieces : List Bytes) :
    (fed pieces).frames = (fed [pieces.flatten]).frames ∧
      (fed pieces).error = (fed [pieces.flatten]).error := by
  have hpieces := follows_fed pieces
  have hone := follows_fed [pieces.flatten]
  rw [List.flatten_cons, List.flatten_nil, List.append_nil] at hone
  exact ⟨hpieces.frames.trans hone.frames.symm, hpieces.error.trans hone.error.symm⟩

/-- **The frames and the error**: however the text is cut into calls of `feed`, the frames are the
longest sequence of frames at its front, and there is an error exactly if the bytes that a rule is
about have arrived behind them and break it. -/
theorem feed_decodes (pieces : List Bytes) :
    (fed pieces).frames = (fed [pieces.flatten]).frames ∧
      (fed pieces).error = (fed [pieces.flatten]).error ∧
      ∃ rest, Decodes pieces.flatten (fed pieces).frames rest ∧
        (∀ frames later, Decodes pieces.flatten frames later → frames <+: (fed pieces).frames) ∧
        ∀ message, (fed pieces).hasError = true ∧ (fed pieces).error = message ↔
          Violates rest message := by
  have h := follows_fed pieces
  obtain ⟨hframes, herror⟩ := feed_pieces pieces
  refine ⟨hframes, herror, (drain (tryParseOne 64) pieces.flatten).rest, ?_, ?_, ?_⟩
  · rw [h.frames]
    exact drain_decodes _
  · intro frames later hdecodes
    rw [h.frames, drain_of_decodes hdecodes]
    exact List.prefix_append _ _
  · intro message
    rw [← drain_error_iff, hasError, decide_eq_true_eq, ne_eq, h.error_iff, h.error]
    constructor
    · rintro ⟨hsome, rfl⟩
      obtain ⟨e, he⟩ := Option.ne_none_iff_exists'.mp hsome
      rw [he, Option.getD_some]
    · intro hsome
      rw [hsome]
      exact ⟨by simp, rfl⟩

/-- One byte that no frame begins with is no error yet. -/
theorem reserved_bits_wait :
    ¬∀ pieces rest, Decodes pieces.flatten (fed pieces).frames rest →
      ((fed pieces).hasError = true ↔ ¬Begun rest) := by
  intro h
  have hwaits : (fed [[0xF0]]).frames = [] ∧ (fed [[0xF0]]).hasError = false := by decide
  have hdecodes : Decodes [[0xF0]].flatten (fed [[0xF0]]).frames [0xF0] :=
    ⟨[], rfl, hwaits.1 ▸ .nil⟩
  have hbegun : ¬Begun [0xF0] := by
    rintro ⟨w, f, hw, t, rfl⟩
    cases t with
    | nil =>
        have hdone := frame_done_iff.mpr hw
        rw [frame_short (by decide)] at hdone
        cases hdone
    | cons second t =>
        have hreserved : (FrameHead.mk 0xF0 second).reserved = true := by
          change decide ((0xF0 : UInt8) &&& 0x70 ≠ 0) = true
          decide
        exact Violates.not_begun (.reserved hreserved) ⟨_, f, hw, List.prefix_rfl⟩
  exact absurd ((h _ _ hdecodes).mpr hbegun) (by rw [hwaits.2]; decide)

end WebSocketFrameParser

end SimplyNode
