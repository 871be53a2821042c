import SimplyNode.HttpRequest

/-!
# The Incremental HTTP Parser

`HttpRequestParser` (`HttpRequestParser.h/.cpp`): a buffer of bytes not yet consumed and the
part of the request they are read for. `feed` appends the bytes that arrived and lets each
stage advance as far as the buffer allows; `parse` hands a complete request out.

The stages are total functions on the parser. The loops over header lines and over chunks are
recursive in the length of the buffer, from which every round takes a line away.

## Main results

* `advanceRequestLine_interrupted`, `advanceHeaders_interrupted`: the request line and the
  headers may be interrupted anywhere; bytes that arrive later continue where they stopped.
* `parseSizedBody_interrupted`: so may a body of announced length.
* `advance_interrupted`: the three stages may be interrupted where the last one may be.
-/

namespace SimplyNode

open Text

/-- `HttpRequestParser::State`. -/
inductive ParserState
  | requestLine
  | headers
  | body
  | complete
  | error
  deriving DecidableEq

/-- `HttpRequestParser`. -/
structure HttpRequestParser where
  state : ParserState := .requestLine
  buffer : Bytes := []
  errorMessage : String := ""
  request : HttpRequest := {}
  bodyBytesRead : ℕ := 0
  bodyBytesExpected : ℕ := 0
  isChunked : Bool := false
  deriving DecidableEq

namespace HttpRequestParser

/-- Bytes appended to the buffer. -/
def push (p : HttpRequestParser) (data : Bytes) : HttpRequestParser :=
  { p with buffer := p.buffer ++ data }

/-- The buffer left behind a line. -/
def setBuffer (p : HttpRequestParser) (rest : Bytes) : HttpRequestParser :=
  { p with buffer := rest }

/-- `_request.headers[key] = value`. -/
def addHeader (p : HttpRequestParser) (key value : Bytes) : HttpRequestParser :=
  { p with request := { p.request with headers := p.request.headers.insertOrAssign key value } }

/-- `_request.body.append(data)`. -/
def addBody (p : HttpRequestParser) (data : Bytes) : HttpRequestParser :=
  { p with request := { p.request with body := p.request.body ++ data } }

/-- Giving up with a message. -/
def fail (p : HttpRequestParser) (message : String) : HttpRequestParser :=
  { p with state := .error, errorMessage := message }

/-! ### The request line -/

/-- The query string, `key=value&key=value`; a parameter without a sign has the empty value. -/
def queryParams (query : Bytes) : StringMap :=
  (getlines 38 query).foldl (fun m param =>
    match cutAt 61 param with
    | some (key, value) => m.insertOrAssign key value
    | none => m.insertOrAssign param []) .empty

/-- Method, path and protocol: the first three words of the line. -/
def requestLineWords (line : Bytes) : Option (Bytes × Bytes × Bytes) := do
  let (method, line) ← nextWord line
  let (path, line) ← nextWord line
  let (protocol, _) ← nextWord line
  return (method, path, protocol)

/-- The method and the target of a request. -/
def setTarget (request : HttpRequest) (method path : Bytes) : HttpRequest :=
  match cutAt 63 path with
  | some (path, query) =>
      { request with method := method.map toupper, path := path, queryParams := queryParams query }
  | none => { request with method := method.map toupper, path := path }

/-- `protocol != "HTTP/1.1" && protocol != "HTTP/1.0"` fails. -/
def isSupported (protocol : Bytes) : Bool :=
  protocol = bytes "HTTP/1.1" || protocol = bytes "HTTP/1.0"

/-- What `_parseRequestLine` does with the line it took from the buffer. -/
def readRequestLine (p : HttpRequestParser) (line : Bytes) : HttpRequestParser :=
  match requestLineWords line with
  | none => p.fail "Invalid request line format"
  | some (method, path, protocol) =>
      let p := { p with request := setTarget p.request method path }
      if isSupported protocol then { p with state := .headers }
      else p.fail "Unsupported HTTP protocol version"

/-- `HttpRequestParser::_parseRequestLine`. -/
def parseRequestLine (p : HttpRequestParser) : HttpRequestParser :=
  match nextLine p.buffer with
  | none => p
  | some (line, rest) => (p.setBuffer rest).readRequestLine line

/-! ### Header lines -/

/-- A header line, cut at its first colon; blanks around the value are dropped. -/
def headerField (line : Bytes) : Option (Bytes × Bytes) :=
  (cutAt 58 line).map fun field => (field.1, trim field.2)

/-- Whether the headers announce a body in chunks. -/
def announcesChunks (headers : StringMap) : Bool :=
  contains (bytes "chunked") (HttpRequest.getHeader headers (bytes "Transfer-Encoding"))

/-- `HttpRequestParser::_parseContentLength`. -/
def parseContentLength (headerValue : Bytes) : ℕ := (stoul headerValue 10).getD 0

/-- The size and format of the body, from the headers. -/
def announceBody (p : HttpRequestParser) : HttpRequestParser :=
  let transferEncoding := HttpRequest.getHeader p.request.headers (bytes "Transfer-Encoding")
  let contentLength := HttpRequest.getHeader p.request.headers (bytes "Content-Length")
  if transferEncoding ≠ [] then
    if contains (bytes "chunked") transferEncoding then
      { p with isChunked := true, bodyBytesExpected := 0 }
    else p
  else if contentLength ≠ [] then
    { p with bodyBytesExpected := parseContentLength contentLength }
  else p

/-- The blank line behind the headers: the body follows, if one is announced. -/
def endHeaders (p : HttpRequestParser) : HttpRequestParser :=
  let p := p.announceBody
  if p.bodyBytesExpected = 0 ∧ p.isChunked = false then { p with state := .complete }
  else { p with state := .body }

/-- `HttpRequestParser::_parseHeaders`: takes header lines until a blank one, or until the
buffer holds no whole line. -/
def parseHeaders (p : HttpRequestParser) : HttpRequestParser :=
  match _h : nextLine p.buffer with
  | none => p
  | some (line, rest) =>
      if line = [] then (p.setBuffer rest).endHeaders
      else
        match headerField line with
        | none => (p.setBuffer rest).fail "Invalid header format (missing colon)"
        | some (key, value) => parseHeaders ((p.setBuffer rest).addHeader key value)
termination_by p.buffer.length
decreasing_by exact length_of_nextLine _h

/-! ### The body -/

/-- A body of announced length: takes what the buffer has of it. -/
def parseSizedBody (p : HttpRequestParser) : HttpRequestParser :=
  if p.bodyBytesRead < p.bodyBytesExpected then
    let bytesNeeded := p.bodyBytesExpected - p.bodyBytesRead
    if bytesNeeded ≤ p.buffer.length then
      { (p.addBody (p.buffer.take bytesNeeded)).setBuffer (p.buffer.drop bytesNeeded) with
        bodyBytesRead := p.bodyBytesExpected
        state := .complete }
    else
      { (p.addBody p.buffer).setBuffer [] with
        bodyBytesRead := p.bodyBytesRead + p.buffer.length }
  else p

/-- The bytes of a chunk with its line end, `chunkSize + 2`, as the program computes them. -/
def chunkSpan (chunkSize : ℕ) : ℕ := (chunkSize + 2) % wordSize

/-- The chunks of a body: takes a size line and then its data, until the size is 0 or the
buffer does not hold the data. A size line that was taken is gone from the buffer. -/
def parseChunks (p : HttpRequestParser) : HttpRequestParser :=
  match _h : nextLine p.buffer with
  | none => p
  | some (line, rest) =>
      match stoul line 16 with
      | none => (p.setBuffer rest).fail "Invalid chunk size"
      | some chunkSize =>
          if chunkSize = 0 then { p.setBuffer rest with state := .complete }
          else if rest.length < chunkSpan chunkSize then p.setBuffer rest
          else
            parseChunks ((p.addBody (rest.take chunkSize)).setBuffer
              (rest.drop (chunkSpan chunkSize)))
termination_by p.buffer.length
decreasing_by
  have := length_of_nextLine _h
  simp only [setBuffer, List.length_drop]
  omega

/-- `HttpRequestParser::_parseBody`. -/
def parseBody (p : HttpRequestParser) : HttpRequestParser :=
  if p.isChunked then p.parseChunks else p.parseSizedBody

/-! ### The interface -/

/-- `HttpRequestParser::isComplete`. -/
def isComplete (p : HttpRequestParser) : Bool := p.state = .complete

/-- `HttpRequestParser::hasError`. -/
def hasError (p : HttpRequestParser) : Bool := p.state = .error

/-- `HttpRequestParser::error`. -/
def error (p : HttpRequestParser) : String := p.errorMessage

/-- `HttpRequestParser::parse`: the request of a complete parser, which starts afresh. -/
def parse (p : HttpRequestParser) : HttpRequest × HttpRequestParser :=
  if p.isComplete then (p.request, {}) else ({}, p)

/-- The stages behind the request line, each where the parser has come to it. -/
def advanceHeaders (p : HttpRequestParser) : HttpRequestParser :=
  if p.state = .headers ∧ p.hasError = false then p.parseHeaders else p

@[inherit_doc advanceHeaders]
def advanceBody (p : HttpRequestParser) : HttpRequestParser :=
  if p.state = .body ∧ p.hasError = false then p.parseBody else p

/-- The request line, where the parser is still at it. -/
def advanceRequestLine (p : HttpRequestParser) : HttpRequestParser :=
  if p.state = .requestLine then p.parseRequestLine else p

/-- The three stages of a call of `feed`. -/
def advance (p : HttpRequestParser) : HttpRequestParser :=
  p.advanceRequestLine.advanceHeaders.advanceBody

/-- `HttpRequestParser::feed`. -/
def feed (p : HttpRequestParser) (data : Bytes) : HttpRequestParser :=
  if p.hasError then p else (p.push data).advance

/-! ### Interrupting the stages -/

@[simp] theorem push_state (p : HttpRequestParser) (t : Bytes) : (p.push t).state = p.state := rfl

@[simp] theorem push_buffer (p : HttpRequestParser) (t : Bytes) :
    (p.push t).buffer = p.buffer ++ t := rfl

@[simp] theorem push_isChunked (p : HttpRequestParser) (t : Bytes) :
    (p.push t).isChunked = p.isChunked := rfl

@[simp] theorem push_bodyBytesExpected (p : HttpRequestParser) (t : Bytes) :
    (p.push t).bodyBytesExpected = p.bodyBytesExpected := rfl

/-- Two pieces are one. -/
theorem push_push (p : HttpRequestParser) (a b : Bytes) : (p.push a).push b = p.push (a ++ b) := by
  simp only [push, List.append_assoc]

/-- Only one state is an error. -/
theorem hasError_of_state {p : HttpRequestParser} (h : p.state ≠ .error) : p.hasError = false :=
  decide_eq_false h

/-- A stage leaves a parser alone that is elsewhere. -/
theorem advanceRequestLine_of_ne {p : HttpRequestParser} (h : p.state ≠ .requestLine) :
    p.advanceRequestLine = p :=
  if_neg h

@[inherit_doc advanceRequestLine_of_ne]
theorem advanceHeaders_of_ne {p : HttpRequestParser} (h : p.state ≠ .headers) :
    p.advanceHeaders = p :=
  if_neg fun hp => h hp.1

@[inherit_doc advanceRequestLine_of_ne]
theorem advanceBody_of_ne {p : HttpRequestParser} (h : p.state ≠ .body) : p.advanceBody = p :=
  if_neg fun hp => h hp.1

/-- Headers are read. -/
theorem advanceHeaders_of_state {p : HttpRequestParser} (h : p.state = .headers) :
    p.advanceHeaders = p.parseHeaders :=
  if_pos ⟨h, hasError_of_state (by rw [h]; decide)⟩

/-- A body is read. -/
theorem advanceBody_of_state {p : HttpRequestParser} (h : p.state = .body) :
    p.advanceBody = p.parseBody :=
  if_pos ⟨h, hasError_of_state (by rw [h]; decide)⟩

/-- A request line is read whatever stands behind it. -/
theorem readRequestLine_push (p : HttpRequestParser) (line t : Bytes) :
    (p.push t).readRequestLine line = (p.readRequestLine line).push t := by
  rw [readRequestLine, readRequestLine]
  cases requestLineWords line with
  | none => rfl
  | some words =>
      dsimp only
      split <;> rfl

/-- The request line is followed by the headers or by an error. -/
theorem readRequestLine_state (p : HttpRequestParser) (line : Bytes) :
    (p.readRequestLine line).state = .headers ∨ (p.readRequestLine line).state = .error := by
  rw [readRequestLine]
  cases requestLineWords line with
  | none => exact Or.inr rfl
  | some words =>
      dsimp only
      split
      · exact Or.inl rfl
      · exact Or.inr rfl

/-- The request line may be interrupted anywhere. -/
theorem advanceRequestLine_interrupted (p : HttpRequestParser) (t : Bytes) :
    (p.advanceRequestLine.push t).advanceRequestLine = (p.push t).advanceRequestLine := by
  by_cases hp : p.state = .requestLine
  · have hthis : p.advanceRequestLine = p.parseRequestLine := if_pos hp
    have hlater : (p.push t).advanceRequestLine = (p.push t).parseRequestLine := if_pos hp
    rw [hthis, hlater]
    cases hline : nextLine p.buffer with
    | none =>
        rw [parseRequestLine, hline]
        exact hlater
    | some found =>
        obtain ⟨line, rest⟩ := found
        have hread : p.parseRequestLine = (p.setBuffer rest).readRequestLine line := by
          rw [parseRequestLine, hline]
        have hpush : (p.push t).parseRequestLine = p.parseRequestLine.push t := by
          rw [hread, ← readRequestLine_push, parseRequestLine, push_buffer,
            nextLine_append hline t]
          rfl
        rw [hpush]
        apply advanceRequestLine_of_ne
        rw [push_state, hread]
        rcases readRequestLine_state (p.setBuffer rest) line with h | h <;> rw [h] <;> decide
  · rw [advanceRequestLine_of_ne hp]

/-- A body is announced whatever stands behind it. -/
theorem announceBody_push (p : HttpRequestParser) (t : Bytes) :
    (p.push t).announceBody = p.announceBody.push t := by
  have hrequest : (p.push t).request = p.request := rfl
  simp only [announceBody, hrequest]
  split_ifs <;> rfl

/-- Headers end whatever stands behind them. -/
theorem endHeaders_push (p : HttpRequestParser) (t : Bytes) :
    (p.push t).endHeaders = p.endHeaders.push t := by
  simp only [endHeaders, announceBody_push, push_bodyBytesExpected, push_isChunked]
  split_ifs <;> rfl

/-- The blank line is followed by the body, if there is one. -/
theorem endHeaders_state (p : HttpRequestParser) :
    p.endHeaders.state = .body ∨ p.endHeaders.state = .complete := by
  rw [endHeaders]
  split
  · exact Or.inr rfl
  · exact Or.inl rfl

/-! The four ways a round of the header loop goes. -/

/-- A header that has not come whole. -/
theorem parseHeaders_wait {p : HttpRequestParser} (h : nextLine p.buffer = none) :
    p.parseHeaders = p := by
  rw [parseHeaders]
  split <;> simp_all

/-- The empty line. -/
theorem parseHeaders_end {p : HttpRequestParser} {rest : Bytes}
    (h : nextLine p.buffer = some ([], rest)) :
    p.parseHeaders = (p.setBuffer rest).endHeaders := by
  rw [parseHeaders]
  split <;> simp_all

/-- A line without a colon. -/
theorem parseHeaders_fail {p : HttpRequestParser} {line rest : Bytes}
    (h : nextLine p.buffer = some (line, rest)) (hline : line ≠ [])
    (hfield : headerField line = none) :
    p.parseHeaders = (p.setBuffer rest).fail "Invalid header format (missing colon)" := by
  rw [parseHeaders]
  split <;> simp_all

/-- A header. -/
theorem parseHeaders_next {p : HttpRequestParser} {line rest key value : Bytes}
    (h : nextLine p.buffer = some (line, rest)) (hline : line ≠ [])
    (hfield : headerField line = some (key, value)) :
    p.parseHeaders = ((p.setBuffer rest).addHeader key value).parseHeaders := by
  rw [parseHeaders]
  split <;> simp_all

/-- The headers are followed by the body, by a complete request or by an error. -/
theorem parseHeaders_state {p : HttpRequestParser} (hp : p.state = .headers) :
    p.parseHeaders.state ≠ .requestLine := by
  induction p using parseHeaders.induct with
  | case1 p hline =>
      rw [parseHeaders_wait hline, hp]
      decide
  | case2 p rest hline =>
      rw [parseHeaders_end hline]
      rcases endHeaders_state (p.setBuffer rest) with h | h <;> rw [h] <;> decide
  | case3 p line rest hline hne hfield =>
      rw [parseHeaders_fail hline hne hfield]
      exact ParserState.noConfusion
  | case4 p line rest hline hne key value hfield ih =>
      rw [parseHeaders_next hline hne hfield]
      exact ih hp

/-- The headers may be interrupted anywhere. -/
theorem parseHeaders_interrupted {p : HttpRequestParser} (hp : p.state = .headers) (t : Bytes) :
    (p.parseHeaders.push t).advanceHeaders = (p.push t).parseHeaders := by
  induction p using parseHeaders.induct with
  | case1 p hline =>
      have hpt : (p.push t).state = .headers := hp
      rw [parseHeaders_wait hline, advanceHeaders_of_state hpt]
  | case2 p rest hline =>
      have hlater : nextLine (p.push t).buffer = some ([], rest ++ t) := nextLine_append hline t
      rw [parseHeaders_end hline, parseHeaders_end hlater, advanceHeaders_of_ne]
      · exact (endHeaders_push (p.setBuffer rest) t).symm
      · rw [push_state]
        rcases endHeaders_state (p.setBuffer rest) with h | h <;> rw [h] <;> decide
  | case3 p line rest hline hne hfield =>
      have hlater : nextLine (p.push t).buffer = some (line, rest ++ t) := nextLine_append hline t
      rw [parseHeaders_fail hline hne hfield, parseHeaders_fail hlater hne hfield,
        advanceHeaders_of_ne]
      · rfl
      · exact ParserState.noConfusion
  | case4 p line rest hline hne key value hfield ih =>
      have hlater : nextLine (p.push t).buffer = some (line, rest ++ t) := nextLine_append hline t
      rw [parseHeaders_next hline hne hfield, parseHeaders_next hlater hne hfield]
      exact ih hp

/-- Headers that come in two pieces. -/
theorem advanceHeaders_interrupted (p : HttpRequestParser) (t : Bytes) :
    (p.advanceHeaders.push t).advanceHeaders = (p.push t).advanceHeaders := by
  by_cases hp : p.state = .headers
  · have hpt : (p.push t).state = .headers := hp
    rw [advanceHeaders_of_state hp, advanceHeaders_of_state hpt, parseHeaders_interrupted hp]
  · rw [advanceHeaders_of_ne hp]

/-- A body of announced length may be interrupted anywhere. -/
theorem parseSizedBody_interrupted {p : HttpRequestParser} (hp : p.state = .body)
    (hsized : p.isChunked = false) (t : Bytes) :
    (p.parseSizedBody.push t).advanceBody = (p.push t).parseSizedBody := by
  have hcontinue : ∀ q : HttpRequestParser, q.state = .body → q.isChunked = false →
      q.advanceBody = q.parseSizedBody := fun q hq hqs => by
    rw [advanceBody_of_state hq, parseBody, hqs, if_neg Bool.false_ne_true]
  by_cases hread : p.bodyBytesRead < p.bodyBytesExpected
  · by_cases hneeded : p.bodyBytesExpected - p.bodyBytesRead ≤ p.buffer.length
    · -- the body is complete: what arrives later stays in the buffer
      have hneeded' : p.bodyBytesExpected - p.bodyBytesRead ≤ (p.buffer ++ t).length := by
        rw [List.length_append]
        omega
      have htake : (p.buffer ++ t).take (p.bodyBytesExpected - p.bodyBytesRead) = _ :=
        List.take_append_of_le_length hneeded
      have hdrop : (p.buffer ++ t).drop (p.bodyBytesExpected - p.bodyBytesRead) = _ :=
        List.drop_append_of_le_length hneeded
      rw [advanceBody_of_ne]
      · simp only [parseSizedBody, push, hread, hneeded, hneeded', if_true, htake, hdrop, addBody,
          setBuffer]
      · simp only [parseSizedBody, hread, hneeded, if_true, push_state]
        exact ParserState.noConfusion
    · -- the body takes the whole buffer now and the rest of what it needs later
      have hwait : p.parseSizedBody = { (p.addBody p.buffer).setBuffer [] with
          bodyBytesRead := p.bodyBytesRead + p.buffer.length } := by
        simp only [parseSizedBody, hread, hneeded, if_true, if_false]
      have hread' : p.bodyBytesRead + p.buffer.length < p.bodyBytesExpected := by omega
      have hless : p.bodyBytesExpected - (p.bodyBytesRead + p.buffer.length)
          = p.bodyBytesExpected - p.bodyBytesRead - p.buffer.length := by omega
      have hfits : p.bodyBytesExpected - p.bodyBytesRead ≤ p.buffer.length + t.length ↔
          p.bodyBytesExpected - p.bodyBytesRead - p.buffer.length ≤ t.length := by omega
      have htake : p.buffer.take (p.bodyBytesExpected - p.bodyBytesRead) = p.buffer :=
        List.take_of_length_le (by omega)
      have hdrop : p.buffer.drop (p.bodyBytesExpected - p.bodyBytesRead) = [] :=
        List.drop_of_length_le (by omega)
      rw [hwait, hcontinue]
      · simp only [parseSizedBody, push, addBody, setBuffer, hread, hread', hless, if_true,
          List.nil_append, List.append_assoc, List.length_append, List.take_append,
          List.drop_append, htake, hdrop, hfits, Nat.add_assoc]
      · exact hp
      · exact hsized
  · have hread' : ¬ (p.push t).bodyBytesRead < (p.push t).bodyBytesExpected := hread
    have hstay : p.parseSizedBody = p := if_neg hread
    rw [hstay, hcontinue (p.push t) hp hsized]

/-! The five ways a round of the chunk loop goes. -/

/-- A size that has not come whole. -/
theorem parseChunks_wait {p : HttpRequestParser} (h : nextLine p.buffer = none) :
    p.parseChunks = p := by
  rw [parseChunks]
  split <;> simp_all

/-- A size that is none. -/
theorem parseChunks_fail {p : HttpRequestParser} {line rest : Bytes}
    (h : nextLine p.buffer = some (line, rest)) (hsize : stoul line 16 = none) :
    p.parseChunks = (p.setBuffer rest).fail "Invalid chunk size" := by
  rw [parseChunks]
  split <;> simp_all

/-- The last chunk. -/
theorem parseChunks_last {p : HttpRequestParser} {line rest : Bytes}
    (h : nextLine p.buffer = some (line, rest)) (hsize : stoul line 16 = some 0) :
    p.parseChunks = { p.setBuffer rest with state := .complete } := by
  rw [parseChunks]
  split <;> simp_all

/-- A chunk that has not come whole. -/
theorem parseChunks_short {p : HttpRequestParser} {line rest : Bytes} {n : ℕ}
    (h : nextLine p.buffer = some (line, rest)) (hsize : stoul line 16 = some n) (hn : n ≠ 0)
    (hshort : rest.length < chunkSpan n) : p.parseChunks = p.setBuffer rest := by
  rw [parseChunks]
  split <;> simp_all

/-- A chunk. -/
theorem parseChunks_next {p : HttpRequestParser} {line rest : Bytes} {n : ℕ}
    (h : nextLine p.buffer = some (line, rest)) (hsize : stoul line 16 = some n) (hn : n ≠ 0)
    (hfits : ¬ rest.length < chunkSpan n) :
    p.parseChunks
      = ((p.addBody (rest.take n)).setBuffer (rest.drop (chunkSpan n))).parseChunks := by
  rw [parseChunks]
  split <;> simp_all

/-- Chunks are followed by a complete request or by an error. -/
theorem parseChunks_state {p : HttpRequestParser} (hp : p.state = .body) :
    p.parseChunks.state ≠ .requestLine ∧ p.parseChunks.state ≠ .headers := by
  induction p using parseChunks.induct with
  | case1 p hline =>
      rw [parseChunks_wait hline, hp]
      decide
  | case2 p line rest hline hsize =>
      rw [parseChunks_fail hline hsize]
      exact ⟨ParserState.noConfusion, ParserState.noConfusion⟩
  | case3 p line rest hline hsize =>
      rw [parseChunks_last hline hsize]
      exact ⟨ParserState.noConfusion, ParserState.noConfusion⟩
  | case4 p line rest hline n hsize hn hshort =>
      have hbody : (p.setBuffer rest).state = .body := hp
      rw [parseChunks_short hline hsize hn hshort, hbody]
      decide
  | case5 p line rest hline n hsize hn hfits ih =>
      rw [parseChunks_next hline hsize hn hfits]
      exact ih hp

/-- A body is followed by a complete request or by an error. -/
theorem advanceBody_state {p : HttpRequestParser} (hline : p.state ≠ .requestLine)
    (hheaders : p.state ≠ .headers) :
    p.advanceBody.state ≠ .requestLine ∧ p.advanceBody.state ≠ .headers := by
  by_cases hp : p.state = .body
  · rw [advanceBody_of_state hp, parseBody]
    split
    · exact parseChunks_state hp
    · have hsized : p.parseSizedBody.state = .body ∨ p.parseSizedBody.state = .complete := by
        rw [parseSizedBody]
        split
        · dsimp only
          split
          · exact Or.inr rfl
          · exact Or.inl hp
        · exact Or.inl hp
      rcases hsized with h | h <;> rw [h] <;> decide
  · rw [advanceBody_of_ne hp]
    exact ⟨hline, hheaders⟩

/-- Behind the request line there is no way back to it. -/
theorem advanceHeaders_state {p : HttpRequestParser} (hline : p.state ≠ .requestLine) :
    p.advanceHeaders.state ≠ .requestLine := by
  by_cases hp : p.state = .headers
  · rw [advanceHeaders_of_state hp]
    exact parseHeaders_state hp
  · rwa [advanceHeaders_of_ne hp]

/-- **Interrupting `feed`.** The stages continue where they stopped when bytes arrive later,
provided that the body does. -/
theorem advance_interrupted {p : HttpRequestParser} {t : Bytes}
    (hbody : (p.advance.push t).advanceBody
      = (p.advanceRequestLine.advanceHeaders.push t).advanceBody) :
    (p.advance.push t).advance = (p.push t).advance := by
  have hline := advanceRequestLine_interrupted p t
  have hheaders := advanceHeaders_interrupted p.advanceRequestLine t
  by_cases h₁ : p.advanceRequestLine.state = .requestLine
  · -- still at the request line: nothing else has moved
    have hstay : p.advance = p.advanceRequestLine := by
      rw [advance, advanceHeaders_of_ne (by rw [h₁]; decide),
        advanceBody_of_ne (by rw [h₁]; decide)]
    rw [hstay, advance, hline, ← advance]
  · rw [advanceRequestLine_of_ne (p := p.advanceRequestLine.push t) h₁] at hline
    have h₂ := advanceHeaders_state h₁
    by_cases h₃ : p.advanceRequestLine.advanceHeaders.state = .headers
    · have hstay : p.advance = p.advanceRequestLine.advanceHeaders := by
        rw [advance, advanceBody_of_ne (by rw [h₃]; decide)]
      rw [hstay, advance, advanceRequestLine_of_ne (by exact h₂), hheaders, hline, ← advance]
    · rw [advanceHeaders_of_ne (p := p.advanceRequestLine.advanceHeaders.push t) h₃] at hheaders
      obtain ⟨h₄, h₅⟩ := advanceBody_state h₂ h₃
      rw [advance, advanceRequestLine_of_ne (by exact h₄), advanceHeaders_of_ne (by exact h₅),
        hbody, hheaders, hline, ← advance]

end HttpRequestParser

end SimplyNode
