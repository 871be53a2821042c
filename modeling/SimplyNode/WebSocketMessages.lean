import SimplyNode.WebSocketConnection

/-!
# WebSocket Messages

A message of a WebSocket comes in one or more frames. The first one has the opcode of the message,
those behind it are continuations, and the last one has its `fin` set. Between them there may be
frames of their own: pings, pongs and a close. `Grammar` says which sequences of frames are made of
messages, and `scan` reads one.

`processFrame` keeps the same two things as `scan`, the opcode and the payload of the open message.
It looks for an open message when a continuation comes, and does not when a message begins.

## Main results

* `scan_eq_some_iff`: `scan` reads the sequences of the grammar, each in one way.
* `WebSocketSession.followsGrammar_iff`: **the messages that are delivered are those of the grammar,
  and any other frame fails the connection**, unless a message begins while another one is open.
-/

namespace SimplyNode

open Text

/-! ### The grammar -/

/-- A frame that carries a part of a message. -/
def OpCode.isData : OpCode → Bool
  | .text | .binary | .continuation => true
  | .close | .ping | .pong => false

/-- A frame that begins a message. -/
def OpCode.begins : OpCode → Bool
  | .text | .binary => true
  | .continuation | .close | .ping | .pong => false

/-- Text and binary frames begin a message. -/
theorem OpCode.begins_iff {opcode : OpCode} :
    opcode.begins = true ↔ opcode = .text ∨ opcode = .binary := by
  cases opcode <;> decide

/-- A message, or what has come of one, with the payloads of its frames. -/
structure Message where
  opcode : OpCode
  begins : opcode.begins
  first : Bytes
  others : List Bytes := []
  deriving DecidableEq

namespace Message

variable (masked : Bool) (m : Message)

/-- The payload of a message. -/
def payload : Bytes := m.first ++ m.others.flatten

/-- One payload more. -/
def extend (more : Bytes) : Message := { m with others := m.others ++ [more] }

/-- The continuations of a whole message: the last one has its `fin` set. -/
def continuations : List Bytes → List WebSocketFrame
  | [] => []
  | [p] => [{ fin := true, opcode := .continuation, masked := masked, payload := p }]
  | p :: q :: ps =>
      { fin := false, opcode := .continuation, masked := masked, payload := p } ::
        continuations (q :: ps)

/-- The frames of a whole message. -/
def frames : List WebSocketFrame :=
  { fin := m.others.isEmpty, opcode := m.opcode, masked := masked, payload := m.first } ::
    continuations masked m.others

/-- A frame in the middle of a message. -/
def middle (p : Bytes) : WebSocketFrame :=
  { fin := false, opcode := .continuation, masked := masked, payload := p }

/-- The frames of a message that is still open: none of them has its `fin` set. -/
def openFrames : List WebSocketFrame :=
  { fin := false, opcode := m.opcode, masked := masked, payload := m.first } ::
    m.others.map (middle masked)

/-- What is delivered of a message. -/
def signal : WebSocketSignal := WebSocketSession.message m.opcode m.payload

end Message

/-- The frames that carry something of a message. -/
def dataFrames (frames : List WebSocketFrame) : List WebSocketFrame :=
  frames.filter (·.opcode.isData)

/-- The data frames of two parts. -/
theorem dataFrames_append (fs gs : List WebSocketFrame) :
    dataFrames (fs ++ gs) = dataFrames fs ++ dataFrames gs :=
  List.filter_append ..

/-- A data frame is kept. -/
theorem dataFrames_cons_of_data {f : WebSocketFrame} (h : f.opcode.isData = true)
    (fs : List WebSocketFrame) : dataFrames (f :: fs) = f :: dataFrames fs := by
  simp [dataFrames, h]

/-- Any other frame is left out. -/
theorem dataFrames_cons_of_not {f : WebSocketFrame} (h : ¬f.opcode.isData = true)
    (fs : List WebSocketFrame) : dataFrames (f :: fs) = dataFrames fs := by
  simp [dataFrames, h]

/-- **The grammar**: behind some whole messages there may be an open one. -/
def Grammar (masked : Bool) (frames : List WebSocketFrame) (messages : List Message)
    (opened : Option Message) : Prop :=
  dataFrames frames =
    messages.flatMap (Message.frames masked) ++ (opened.map (Message.openFrames masked)).getD []

/-! ### Reading a sequence -/

/-- The messages that have been read, and the open one. -/
abbrev Scan := List Message × Option Message

/-- A frame is read. -/
def Scan.next (r : Scan) (frame : WebSocketFrame) : Option Scan :=
  if h : frame.opcode.begins then
    let m : Message := { opcode := frame.opcode, begins := h, first := frame.payload }
    match r.2 with
    | some _ => none
    | none => if frame.fin then some (r.1 ++ [m], none) else some (r.1, some m)
  else if frame.opcode.isData then
    match r.2 with
    | none => none
    | some m =>
        if frame.fin then some (r.1 ++ [m.extend frame.payload], none)
        else some (r.1, some (m.extend frame.payload))
  else some r

/-- A sequence is read. -/
def Scan.frames (r : Scan) (frames : List WebSocketFrame) : Option Scan := frames.foldlM Scan.next r

/-- A sequence is read from its beginning. -/
def scan (frames : List WebSocketFrame) : Option Scan := Scan.frames ([], none) frames

/-- A sequence in two parts is read in two parts. -/
theorem Scan.frames_append (r : Scan) (fs gs : List WebSocketFrame) :
    r.frames (fs ++ gs) = (r.frames fs).bind fun r' => r'.frames gs :=
  List.foldlM_append

/-- The first frame is read first. -/
theorem Scan.frames_cons (r : Scan) (f : WebSocketFrame) (fs : List WebSocketFrame) :
    r.frames (f :: fs) = (r.next f).bind fun r' => r'.frames fs :=
  List.foldlM_cons

/-- Only the frames that carry something count. -/
theorem Scan.frames_dataFrames (r : Scan) (fs : List WebSocketFrame) :
    r.frames (dataFrames fs) = r.frames fs := by
  induction fs generalizing r with
  | nil => rfl
  | cons f fs ih =>
      by_cases hdata : f.opcode.isData = true
      · rw [dataFrames_cons_of_data hdata, frames_cons, frames_cons]
        simp only [ih]
      · have hbegins : f.opcode.begins = false := by
          revert hdata
          cases f.opcode <;> decide
        have hnext : r.next f = some r := by simp [next, hbegins, hdata]
        rw [dataFrames_cons_of_not hdata, frames_cons, hnext, Option.bind_some, ih]

/-- The frames of an open message are read. -/
theorem Scan.frames_middle (masked : Bool) (done : List Message) (m : Message) (ps : List Bytes) :
    Scan.frames (done, some m) (ps.map (Message.middle masked)) =
      some (done, some { m with others := m.others ++ ps }) := by
  induction ps generalizing m with
  | nil => simp [frames]
  | cons p ps ih =>
      have hnext : Scan.next (done, some m) (Message.middle masked p) =
          some (done, some (m.extend p)) := rfl
      rw [List.map_cons, frames_cons, hnext, Option.bind_some, ih]
      simp [Message.extend]

/-- The frames of an open message are read as it. -/
theorem Scan.frames_openFrames (masked : Bool) (done : List Message) (m : Message) :
    Scan.frames (done, none) (m.openFrames masked) = some (done, some m) := by
  have hnext : Scan.next (done, none)
      { fin := false, opcode := m.opcode, masked := masked, payload := m.first } =
        some (done, some { m with others := [] }) := by
    simp [next, m.begins]
  rw [Message.openFrames, frames_cons, hnext, Option.bind_some, frames_middle]
  rfl

/-- A whole message of several frames is an open one with a last frame. -/
theorem Message.continuations_concat (masked : Bool) (ps : List Bytes) (p : Bytes) :
    continuations masked (ps ++ [p]) = ps.map (middle masked) ++
      [{ fin := true, opcode := .continuation, masked := masked, payload := p }] := by
  induction ps with
  | nil => rfl
  | cons q ps ih =>
      obtain ⟨r, rest, hrest⟩ : ∃ r rest, ps ++ [p] = r :: rest :=
        List.exists_cons_of_ne_nil (List.append_ne_nil_of_right_ne_nil ps (List.cons_ne_nil p []))
      rw [List.cons_append, hrest, continuations, ← hrest, ih]
      rfl

/-- A message with a part more has a last frame more. -/
theorem Message.frames_extend (masked : Bool) (m : Message) (p : Bytes) :
    (m.extend p).frames masked = m.openFrames masked ++
      [{ fin := true, opcode := .continuation, masked := masked, payload := p }] := by
  have hempty : (m.others ++ [p]).isEmpty = false := by simp
  rw [frames, extend, hempty, continuations_concat]
  rfl

/-- A message is of one frame, or an open one with a last frame. -/
theorem Message.cases_frames (masked : Bool) (m : Message) :
    (m.others = [] ∧ m.frames masked =
        [{ fin := true, opcode := m.opcode, masked := masked, payload := m.first }]) ∨
      ∃ (m' : Message) (p : Bytes), m = m'.extend p := by
  obtain ⟨opcode, begins, first, others⟩ := m
  rcases List.eq_nil_or_concat others with rfl | ⟨ps, p, rfl⟩
  · exact .inl ⟨rfl, rfl⟩
  · exact .inr ⟨⟨opcode, begins, first, ps⟩, p, by simp [extend]⟩

/-- The frames of a message are read as it. -/
theorem Scan.frames_message (masked : Bool) (done : List Message) (m : Message) :
    Scan.frames (done, none) (m.frames masked) = some (done ++ [m], none) := by
  rcases m.cases_frames masked with ⟨hnil, hframes⟩ | ⟨m', p, rfl⟩
  · obtain ⟨opcode, begins, first, others⟩ := m
    subst hnil
    rw [hframes, frames_cons]
    simp [next, begins, frames]
  · rw [Message.frames_extend, frames_append, frames_openFrames, Option.bind_some]
    rfl

/-- The frames of messages are read as them. -/
theorem Scan.frames_messages (masked : Bool) (done ms : List Message) :
    Scan.frames (done, none) (ms.flatMap (Message.frames masked)) = some (done ++ ms, none) := by
  induction ms generalizing done with
  | nil => simp [frames]
  | cons m ms ih =>
      rw [List.flatMap_cons, frames_append, frames_message, Option.bind_some, ih]
      simp

/-- A sequence of the grammar is read. -/
theorem scan_of_grammar {masked : Bool} {fs : List WebSocketFrame} {ms : List Message}
    {o : Option Message} (h : Grammar masked fs ms o) : scan fs = some (ms, o) := by
  rw [scan, ← Scan.frames_dataFrames, h, Scan.frames_append, Scan.frames_messages,
    Option.bind_some, List.nil_append]
  cases o with
  | none => rfl
  | some m => exact Scan.frames_openFrames masked ms m

/-- A frame that is read is one more in the grammar. -/
theorem grammar_next {masked : Bool} {fs : List WebSocketFrame} {r r' : Scan} {f : WebSocketFrame}
    (h : Grammar masked fs r.1 r.2) (hf : f.masked = masked) (hnext : r.next f = some r') :
    Grammar masked (fs ++ [f]) r'.1 r'.2 := by
  obtain ⟨done, o⟩ := r
  obtain ⟨fin, opcode, mask, payload⟩ := f
  obtain rfl : mask = masked := hf
  unfold Grammar at h ⊢
  rw [dataFrames_append, h]
  cases opcode with
  | text | binary =>
      cases o with
      | some m => cases hnext
      | none => cases fin <;> cases hnext <;> simp [dataFrames, OpCode.isData, Message.frames,
          Message.continuations, Message.openFrames]
  | continuation =>
      cases o with
      | none => cases hnext
      | some m =>
          cases fin with
          | true =>
              cases hnext
              simp [dataFrames, OpCode.isData, Message.frames_extend]
          | false =>
              cases hnext
              simp [dataFrames, OpCode.isData, Message.openFrames, Message.extend, Message.middle]
  | ping | pong | close =>
      cases hnext
      simp [dataFrames, OpCode.isData]

/-- The last frame of a sequence that is read. -/
theorem scan_concat {fs : List WebSocketFrame} {f : WebSocketFrame} {r : Scan}
    (h : scan (fs ++ [f]) = some r) : ∃ r', scan fs = some r' ∧ r'.next f = some r := by
  rw [scan, Scan.frames_append] at h
  obtain ⟨r', hr', hnext⟩ := Option.bind_eq_some_iff.mp h
  refine ⟨r', hr', ?_⟩
  rw [Scan.frames_cons] at hnext
  obtain ⟨r'', hr'', hnil⟩ := Option.bind_eq_some_iff.mp hnext
  rw [hr'']
  exact hnil

/-- **The sequences that are read** are those of the grammar, each in one way. -/
theorem scan_eq_some_iff {masked : Bool} {fs : List WebSocketFrame}
    (hmask : ∀ f ∈ fs, f.masked = masked) {ms : List Message} {o : Option Message} :
    scan fs = some (ms, o) ↔ Grammar masked fs ms o := by
  refine ⟨fun h => ?_, scan_of_grammar⟩
  induction fs using List.reverseRecOn generalizing ms o with
  | nil =>
      cases h
      rfl
  | append_singleton fs f ih =>
      obtain ⟨r, hr, hnext⟩ := scan_concat h
      have hfront : ∀ g ∈ fs, g.masked = masked := fun g hg =>
        hmask g (List.mem_append_left [f] hg)
      exact grammar_next (ih hfront hr) (hmask f (by simp)) hnext

/-! ### The session -/

/-- The signal of a message. -/
def WebSocketSignal.isMessage : WebSocketSignal → Bool
  | .textMessageReceived _ => true
  | .binaryMessageReceived _ => true
  | _ => false

/-- The signal of a message is one. -/
theorem Message.isMessage_signal (m : Message) : m.signal.isMessage = true := by
  rw [signal, WebSocketSession.message]
  split <;> rfl

/-- No message begins with a continuation. -/
theorem Message.opcode_ne_continuation (m : Message) : m.opcode ≠ .continuation := fun h => by
  have hbegins := m.begins
  rw [h] at hbegins
  cases hbegins

/-- The payload of a message with a part more. -/
theorem Message.payload_extend (m : Message) (p : Bytes) :
    (m.extend p).payload = m.payload ++ p := by
  simp [payload, extend]

namespace WebSocketSession

/-- The messages that have been delivered. -/
def messages (s : WebSocketSession) : List WebSocketSignal :=
  s.emitted.filter WebSocketSignal.isMessage

/-- The frames that are processed one after the other. -/
def processAll (s : WebSocketSession) (frames : List WebSocketFrame) : WebSocketSession :=
  frames.foldl processFrame s

/-- A session after some frames that have been read. -/
structure Matches (base : List WebSocketSignal) (r : Scan) (s : WebSocketSession) : Prop where
  state : s.state ≠ .error
  fragmentOpcode : s.fragmentOpcode = (r.2.map Message.opcode).getD .continuation
  fragmentPayload : ∀ m, r.2 = some m → s.fragmentPayload = m.payload
  messages : s.messages = base ++ r.1.map Message.signal

variable {s : WebSocketSession} {f : WebSocketFrame}

/-- A message that is emitted is the last one. -/
theorem messages_emit {signal : WebSocketSignal} (h : signal.isMessage = true) :
    (s.emit signal).messages = s.messages ++ [signal] := by
  rw [messages, emit, List.filter_append, List.filter_cons_of_pos h]
  rfl

/-- Another signal is no message. -/
theorem messages_emit_of_not {signal : WebSocketSignal} (h : signal.isMessage = false) :
    (s.emit signal).messages = s.messages := by
  rw [messages, emit, List.filter_append, List.filter_cons_of_neg (Bool.eq_false_iff.mp h)]
  exact List.append_nil _

/-- No frame changes the side of the connection. -/
theorem clientMode_processFrame : (s.processFrame f).clientMode = s.clientMode := by
  cases h : f.accepted s.clientMode s.fragmentOpcode with
  | true => exact (processFrame_accepted h).clientMode
  | false =>
      obtain ⟨errorMessage, hfail⟩ := processFrame_rejected h
      rw [hfail]
      rfl

/-- No frames change the side of the connection. -/
theorem clientMode_processAll (fs : List WebSocketFrame) :
    (s.processAll fs).clientMode = s.clientMode := by
  induction fs generalizing s with
  | nil => rfl
  | cons f fs ih => exact ih.trans clientMode_processFrame

/-- The last frame is processed last. -/
theorem processAll_concat (fs : List WebSocketFrame) (f : WebSocketFrame) :
    s.processAll (fs ++ [f]) = (s.processAll fs).processFrame f :=
  List.foldl_concat ..

/-- A frame that can be read is accepted. -/
theorem accepted_of_next {base : List WebSocketSignal} {r r' : Scan} (h : Matches base r s)
    (hmask : f.masked = !s.clientMode) (hnext : r.next f = some r') :
    f.accepted s.clientMode s.fragmentOpcode = true := by
  refine decide_eq_true ⟨hmask, fun hopcode => ?_⟩
  rw [h.fragmentOpcode]
  cases ho : r.2 with
  | none => simp [Scan.next, hopcode, OpCode.begins, OpCode.isData, ho] at hnext
  | some m => exact Message.opcode_ne_continuation m

/-- A message begins, and may end at once. -/
theorem matches_begins {base : List WebSocketSignal} {r r' : Scan} (h : Matches base r s)
    (hmask : f.masked = !s.clientMode) (hbegins : f.opcode.begins = true)
    (hnext : r.next f = some r') : Matches base r' (s.processFrame f) := by
  obtain ⟨hclient, hserver⟩ := mask_iff.mp hmask
  obtain ⟨done, o⟩ := r
  obtain ⟨hstate, hopcode, hpayload, hmessages⟩ := h
  obtain ⟨fin, opcode, mask, payload⟩ := f
  rw [processFrame, if_neg hclient, if_neg hserver]
  cases opcode with
  | continuation | ping | pong | close => cases hbegins
  | text | binary =>
      cases o with
      | some m => cases hnext
      | none =>
          cases fin with
          | true =>
              cases hnext
              refine ⟨hstate, hopcode, fun m hm => (by cases hm), ?_⟩
              rw [List.map_append, ← List.append_assoc, ← hmessages]
              simpa [Message.signal, Message.payload] using messages_emit (s := s) rfl
          | false =>
              cases hnext
              refine ⟨hstate, rfl, fun m hm => ?_, hmessages⟩
              cases hm
              simp [Message.payload]

/-- A message goes on, or ends. -/
theorem matches_continuation {base : List WebSocketSignal} {r r' : Scan} (h : Matches base r s)
    (hmask : f.masked = !s.clientMode) (hopcode : f.opcode = .continuation)
    (hnext : r.next f = some r') : Matches base r' (s.processFrame f) := by
  have hcontinues := (of_decide_eq_true (accepted_of_next h hmask hnext)).2 hopcode
  obtain ⟨hclient, hserver⟩ := mask_iff.mp hmask
  obtain ⟨done, o⟩ := r
  obtain ⟨hstate, hfragment, hpayload, hmessages⟩ := h
  obtain ⟨fin, opcode, mask, payload⟩ := f
  obtain rfl : opcode = .continuation := hopcode
  rw [processFrame, if_neg hclient, if_neg hserver]
  cases o with
  | none => cases hnext
  | some m =>
      rw [if_neg hcontinues]
      cases fin with
      | true =>
          cases hnext
          refine ⟨hstate, rfl, fun m hm => (by cases hm), ?_⟩
          have hsignal : message s.fragmentOpcode (s.fragmentPayload ++ payload) =
              (m.extend payload).signal := by
            rw [Message.signal, Message.payload_extend, ← hpayload m rfl, hfragment]
            rfl
          have hemit := messages_emit (s := s) (m.extend payload).isMessage_signal
          rw [List.map_append, ← List.append_assoc, ← hmessages, hsignal]
          exact hemit
      | false =>
          cases hnext
          refine ⟨hstate, hfragment, fun m' hm => ?_, hmessages⟩
          cases hm
          rw [Message.payload_extend, ← hpayload m rfl]
          rfl

/-- A frame that carries nothing of a message. -/
theorem matches_control {base : List WebSocketSignal} {r r' : Scan} (h : Matches base r s)
    (hmask : f.masked = !s.clientMode) (hdata : f.opcode.isData = false)
    (hnext : r.next f = some r') : Matches base r' (s.processFrame f) := by
  obtain ⟨hclient, hserver⟩ := mask_iff.mp hmask
  obtain ⟨hstate, hopcode, hpayload, hmessages⟩ := h
  obtain ⟨fin, opcode, mask, payload⟩ := f
  rw [processFrame, if_neg hclient, if_neg hserver]
  cases opcode with
  | text | binary | continuation => cases hdata
  | ping =>
      cases hnext
      obtain ⟨written, hsent⟩ := sendFrame_eq (s := s) .pong payload true
      rw [hsent]
      exact ⟨hstate, hopcode, hpayload, hmessages⟩
  | pong =>
      cases hnext
      exact ⟨hstate, hopcode, hpayload, (messages_emit_of_not rfl).trans hmessages⟩
  | close =>
      cases hnext
      obtain ⟨written, hsent⟩ := sendFrame_eq (s := s) .close payload false
      dsimp only
      rw [hsent]
      have hclosing : WebSocketState.closing ≠ .error := by decide
      split
      · exact ⟨hclosing, hopcode, hpayload, hmessages⟩
      · exact ⟨hclosing, hopcode, hpayload, hmessages⟩

/-- **A frame that can be read** is read. -/
theorem matches_next {base : List WebSocketSignal} {r r' : Scan} (h : Matches base r s)
    (hmask : f.masked = !s.clientMode) (hnext : r.next f = some r') :
    Matches base r' (s.processFrame f) := by
  cases hopcode : f.opcode with
  | text | binary => exact matches_begins h hmask (by rw [hopcode]; rfl) hnext
  | continuation => exact matches_continuation h hmask hopcode hnext
  | ping | pong | close => exact matches_control h hmask (by rw [hopcode]; rfl) hnext

/-- A continuation that continues nothing fails the connection. -/
theorem processFrame_stray {base : List WebSocketSignal} {r : Scan} (h : Matches base r s)
    (hbegins : f.opcode.begins = false) (hnext : r.next f = none) :
    (s.processFrame f).state = .error ∧ (s.processFrame f).messages = s.messages := by
  have hacc : f.accepted s.clientMode s.fragmentOpcode = false := by
    refine decide_eq_false fun hacc => ?_
    obtain ⟨done, o⟩ := r
    obtain ⟨fin, opcode, mask, payload⟩ := f
    cases opcode with
    | text | binary => cases hbegins
    | ping | pong | close => cases hnext
    | continuation =>
        cases o with
        | none => exact hacc.2 rfl h.fragmentOpcode
        | some m => cases fin <;> cases hnext
  obtain ⟨errorMessage, hfail⟩ := processFrame_rejected hacc
  rw [hfail]
  exact ⟨rfl, messages_emit_of_not rfl⟩

/-- A frame that begins a message is accepted. -/
theorem state_processFrame_begins (hmask : f.masked = !s.clientMode)
    (hbegins : f.opcode.begins = true) : (s.processFrame f).state = s.state := by
  have hne : f.opcode ≠ .continuation := fun h => by
    rw [h] at hbegins
    cases hbegins
  have hclose : f.opcode ≠ .close := fun h => by
    rw [h] at hbegins
    cases hbegins
  have hacc : f.accepted s.clientMode s.fragmentOpcode = true :=
    decide_eq_true ⟨hmask, fun h => absurd h hne⟩
  rw [(processFrame_accepted hacc).state, if_neg hclose]

/-- **Frames that can be read** are read. -/
theorem matches_processAll {fs : List WebSocketFrame} {r : Scan} (hstate : s.state = .opened)
    (hfragment : s.fragmentOpcode = .continuation) (hmask : ∀ f ∈ fs, f.masked = !s.clientMode)
    (hscan : scan fs = some r) : Matches s.messages r (s.processAll fs) := by
  induction fs using List.reverseRecOn generalizing r with
  | nil =>
      cases hscan
      have hopened : s.state ≠ .error := fun h => by
        rw [hstate] at h
        cases h
      exact ⟨hopened, hfragment, fun m hm => (by cases hm), (List.append_nil _).symm⟩
  | append_singleton fs f ih =>
      obtain ⟨r', hr', hnext⟩ := scan_concat hscan
      have hfront := ih (fun g hg => hmask g (List.mem_append_left [f] hg)) hr'
      have hf : f.masked = !(s.processAll fs).clientMode := by
        rw [clientMode_processAll]
        exact hmask f (by simp)
      rw [processAll_concat]
      exact matches_next hfront hf hnext

/-- A session delivers the messages of some frames, and a last frame that is not of the grammar
fails it. -/
structure FollowsGrammar (s : WebSocketSession) (fs : List WebSocketFrame) : Prop where
  delivers : ∀ ms o, Grammar (!s.clientMode) fs ms o →
    (s.processAll fs).state ≠ .error ∧
      (s.processAll fs).messages = s.messages ++ ms.map Message.signal
  fails : ∀ front f ms o, fs = front ++ [f] → Grammar (!s.clientMode) front ms o →
    (∀ ms' o', ¬Grammar (!s.clientMode) fs ms' o') →
      (s.processAll fs).state = .error ∧ (s.processAll fs).messages = (s.processAll front).messages

/-- A message that begins while another one is open does not fail the session. -/
theorem not_nested {front : List WebSocketFrame} {ms : List Message} {m : Message}
    (hstate : s.state = .opened) (hfragment : s.fragmentOpcode = .continuation)
    (hmask : ∀ g ∈ front ++ [f], g.masked = !s.clientMode) (hbegins : f.opcode.begins = true)
    (hfollows : s.FollowsGrammar (front ++ [f])) :
    ¬Grammar (!s.clientMode) front ms (some m) := by
  intro hgrammar
  have hscan := scan_of_grammar hgrammar
  have hfront := matches_processAll hstate hfragment
    (fun g hg => hmask g (List.mem_append_left [f] hg)) hscan
  have hf : f.masked = !(s.processAll front).clientMode := by
    rw [clientMode_processAll]
    exact hmask f (by simp)
  have hnot : ∀ ms' o', ¬Grammar (!s.clientMode) (front ++ [f]) ms' o' := fun ms' o' hmore => by
    obtain ⟨r, hr, hnext⟩ := scan_concat (scan_of_grammar hmore)
    obtain rfl := Option.some.inj (hscan.symm.trans hr)
    simp [Scan.next, hbegins] at hnext
  have hfails := hfollows.fails front f ms (some m) rfl hgrammar hnot
  rw [processAll_concat, state_processFrame_begins hf hbegins] at hfails
  exact hfront.state hfails.1

/-- A frame that is not of the grammar, and begins no message while another one is open, is a
continuation that continues nothing. -/
theorem begins_eq_false_of_next {r : Scan} (hnext : r.next f = none)
    (hnested : f.opcode.begins = true → r.2 = none) : f.opcode.begins = false := by
  by_contra hbegins
  have hbegins := Bool.eq_true_of_not_eq_false hbegins
  have hnone := hnested hbegins
  cases hfin : f.fin <;> simp [Scan.next, hbegins, hfin, hnone] at hnext

/-- Where no data frame stands inside a message the frames follow the grammar. -/
theorem followsGrammar_of_not_nested {front : List WebSocketFrame} (hstate : s.state = .opened)
    (hfragment : s.fragmentOpcode = .continuation) (hmask : ∀ g ∈ front, g.masked = !s.clientMode)
    (hnested : ∀ front' f, front = front' ++ [f] → f.opcode.begins = true →
      ∀ ms m, ¬Grammar (!s.clientMode) front' ms (some m)) : s.FollowsGrammar front := by
  refine ⟨fun ms o hgrammar => ?_, fun front' f ms o hfront' hgrammar hnot => ?_⟩
  · have hmatches := matches_processAll hstate hfragment hmask (scan_of_grammar hgrammar)
    exact ⟨hmatches.state, hmatches.messages⟩
  · subst hfront'
    have hmask' : ∀ g ∈ front', g.masked = !s.clientMode := fun g hg =>
      hmask g (List.mem_append_left [f] hg)
    have hmatches := matches_processAll hstate hfragment hmask' (scan_of_grammar hgrammar)
    have hnext : Scan.next (ms, o) f = none := by
      cases hnext : Scan.next (ms, o) f with
      | none => rfl
      | some r => exact absurd (grammar_next hgrammar (hmask f (by simp)) hnext) (hnot r.1 r.2)
    have hbegins := begins_eq_false_of_next hnext fun hbegins => by
      cases o with
      | none => rfl
      | some m => exact absurd hgrammar (hnested front' f rfl hbegins ms m)
    rw [processAll_concat]
    exact processFrame_stray hmatches hbegins hnext

/-- **The messages that are delivered are those of the grammar, and any other frame fails the
connection**, if and only if no message begins while another one is open. -/
theorem followsGrammar_iff {fs : List WebSocketFrame} (hstate : s.state = .opened)
    (hfragment : s.fragmentOpcode = .continuation) (hmask : ∀ f ∈ fs, f.masked = !s.clientMode) :
    (∀ front rest, fs = front ++ rest → s.FollowsGrammar front) ↔
      ∀ front f rest, fs = front ++ f :: rest → f.opcode = .text ∨ f.opcode = .binary →
        ∀ ms m, ¬Grammar (!s.clientMode) front ms (some m) := by
  constructor
  · intro hall front f rest hfs hopcode ms m
    have hmask' : ∀ g ∈ front ++ [f], g.masked = !s.clientMode := fun g hg =>
      hmask g (by rw [hfs, List.append_cons]; exact List.mem_append_left rest hg)
    exact not_nested hstate hfragment hmask' (OpCode.begins_iff.mpr hopcode)
      (hall (front ++ [f]) rest (by simp [hfs]))
  · intro hnested front rest hfs
    have hmask' : ∀ g ∈ front, g.masked = !s.clientMode := fun g hg =>
      hmask g (hfs ▸ List.mem_append_left rest hg)
    refine followsGrammar_of_not_nested hstate hfragment hmask' fun front' f hfront' hbegins => ?_
    exact hnested front' f rest (by simp [hfs, hfront']) (OpCode.begins_iff.mp hbegins)

/-- A server session whose connection is open. -/
def exampleSession : WebSocketSession := { clientMode := false }

/-- A frame of a client. -/
def clientFrame (opcode : OpCode) (fin : Bool) (text : String) : WebSocketFrame :=
  { fin := fin, opcode := opcode, masked := true, payload := bytes text }

/-- A ping between the two frames of a message. -/
theorem ping_between_fragments :
    exampleSession.FollowsGrammar [clientFrame .text false "Hel", clientFrame .ping true "?",
      clientFrame .continuation true "lo"] :=
  (followsGrammar_iff (by decide) (by decide) (by decide)).mpr (by
    intro front f rest hfs hopcode ms m hgrammar
    have hscan := scan_of_grammar hgrammar
    rcases front with _ | ⟨a, _ | ⟨b, _ | ⟨c, front⟩⟩⟩
    · cases hscan
    · obtain ⟨-, htail⟩ := List.cons_eq_cons.mp hfs
      obtain ⟨rfl, -⟩ := List.cons_eq_cons.mp htail
      exact absurd hopcode (by decide)
    · obtain ⟨-, htail⟩ := List.cons_eq_cons.mp hfs
      obtain ⟨-, htail⟩ := List.cons_eq_cons.mp htail
      obtain ⟨rfl, -⟩ := List.cons_eq_cons.mp htail
      exact absurd hopcode (by decide)
    · have hlength := congrArg List.length hfs
      simp at hlength) _ [] (List.append_nil _).symm

/-- Behind the first frame of a text message, a second text message is delivered, and a binary one
takes its place, whose continuation is taken for that of the first. -/
theorem nested_message_delivered :
    (exampleSession.processAll
          [clientFrame .text false "Hel", clientFrame .text true "x"]).messages =
        [.textMessageReceived (bytes "x")] ∧
      (exampleSession.processAll [clientFrame .text false "Hel", clientFrame .binary false "x",
          clientFrame .continuation true "lo"]).messages =
        [.binaryMessageReceived (bytes "xlo")] ∧
      ¬exampleSession.FollowsGrammar
        [clientFrame .text false "Hel", clientFrame .text true "x"] := by
  refine ⟨by decide, by decide, fun h => ?_⟩
  have hgrammar : Grammar true [clientFrame .text false "Hel"] []
      (some { opcode := .text, begins := rfl, first := bytes "Hel" }) := rfl
  have hnot : ∀ ms o, ¬Grammar true
      [clientFrame .text false "Hel", clientFrame .text true "x"] ms o := fun ms o hmore => by
    have hscan := scan_of_grammar hmore
    cases hscan
  exact absurd (h.fails [clientFrame .text false "Hel"] _ _ _ rfl hgrammar hnot).1 (by decide)

end WebSocketSession

end SimplyNode
