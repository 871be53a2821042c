import SimplyNode.WebSocketKey
import SimplyNode.HttpRequestParser
import SimplyNode.TextLines

/-!
# The WebSocket Handshake

The client sends a request with its key, and the server answers with the accept value of this key.
Each side builds its message line by line, and the other side reads it with `getline`, trims what it
reads and looks for the headers that it needs (`WebSocketHandshake.cpp`). A validation returns its
error message, or what it has found.

## Main results

* `parseHttpMessage_lines`: a message is read as the lines it was built from.
* `handshake_agrees`: each side accepts what the other one has built, and the client accepts a
  response iff it has the accept value of its key.
-/

namespace SimplyNode

open Text

namespace WebSocketHandshake

/-! ### Text -/

/-- `toLower`. -/
def toLower (value : Bytes) : Bytes := value.map tolower

/-- A blank, a tab or a part of a line end. -/
def isBlank (c : UInt8) : Bool := c = 32 || c = 9 || c = 13 || c = 10

/-- `trim`. -/
def trim (value : Bytes) : Bytes := ((value.dropWhile isBlank).reverse.dropWhile isBlank).reverse

/-- `containsToken`. -/
def containsToken (value expectedToken : Bytes) : Bool :=
  (getlines 44 value).any fun token => toLower (trim token) = expectedToken

/-- `stream >> number`, for an `int`: it skips white space, and reads a sign and digits. -/
def nextInt (s : Bytes) : Option ℤ :=
  let s := s.dropWhile isspace
  let negative : Bool := s.head? = some 45
  let s := if s.head? = some 45 || s.head? = some 43 then s.tail else s
  let ds := digits 10 s
  let n : ℤ := ds.foldl (fun n d => 10 * n + d) 0
  let number := if negative then -n else n
  if ds ≠ [] ∧ -2 ^ 31 ≤ number ∧ number < 2 ^ 31 then some number else none

/-! ### Messages -/

/-- `HttpMessage`. -/
structure HttpMessage where
  startLine : Bytes := []
  headers : StringMap := .empty
  deriving DecidableEq

/-- `headerValue`. -/
def headerValue (message : HttpMessage) (key : Bytes) : Bytes :=
  (message.headers.lookup (toLower key)).getD []

/-- The loop of `parseHttpMessage` over the lines behind the first one. -/
def parseHeaderLines (message : HttpMessage) : List Bytes → Except String HttpMessage
  | [] => .ok message
  | line :: lines =>
      if trim line = [] then .ok message
      else
        match cutAt 58 (trim line) with
        | none => .error "Invalid HTTP header line"
        | some (key, value) =>
            parseHeaderLines
              { message with
                headers := message.headers.insertOrAssign (toLower (trim key)) (trim value) }
              lines

/-- `parseHttpMessage`. -/
def parseHttpMessage (raw : Bytes) : Except String HttpMessage :=
  match getlines 10 raw with
  | [] => .error "Missing HTTP start line"
  | startLine :: lines =>
      if trim startLine = [] then .error "Empty HTTP start line"
      else parseHeaderLines { startLine := trim startLine } lines

/-! ### What is built -/

/-- `formatHostHeader`. -/
def formatHostHeader (host : Bytes) (port : UInt16) : Bytes :=
  (if 58 ∈ host ∧ (host = [] ∨ host.head? ≠ some 91) then bytes "[" ++ host ++ bytes "]"
    else host) ++ bytes ":" ++ bytes (toString port.toNat)

/-- The path of the request: it starts with a slash. -/
def requestPath (path : Bytes) : Bytes :=
  if path = [] then bytes "/" else if path.head? = some 47 then path else bytes "/" ++ path

/-- `buildClientHandshakeRequest`. -/
def buildClientHandshakeRequest (host : Bytes) (port : UInt16) (path clientKey : Bytes) : Bytes :=
  bytes "GET " ++ requestPath path ++ bytes " HTTP/1.1\r\n" ++
    bytes "Host: " ++ formatHostHeader host port ++ bytes "\r\n" ++
    bytes "Upgrade: websocket\r\n" ++
    bytes "Connection: Upgrade\r\n" ++
    bytes "Sec-WebSocket-Key: " ++ clientKey ++ bytes "\r\n" ++
    bytes "Sec-WebSocket-Version: 13\r\n" ++
    bytes "\r\n"

/-- `buildServerHandshakeResponse`. -/
def buildServerHandshakeResponse (clientKey : Bytes) : Bytes :=
  bytes "HTTP/1.1 101 Switching Protocols\r\n" ++
    bytes "Upgrade: websocket\r\n" ++
    bytes "Connection: Upgrade\r\n" ++
    bytes "Sec-WebSocket-Accept: " ++ computeAcceptKey clientKey ++ bytes "\r\n" ++
    bytes "\r\n"

/-! ### What is accepted -/

/-- The start line of a response: a protocol of HTTP and the status 101. -/
def isSwitchingProtocols (startLine : Bytes) : Bool :=
  match nextWord startLine with
  | none => false
  | some (protocol, rest) =>
      (bytes "HTTP/").isPrefixOf protocol && nextInt rest = some 101

/-- The start line of a request: the method, a path, and a protocol of HTTP. -/
def isUpgradeRequest (startLine : Bytes) : Bool :=
  match HttpRequestParser.requestLineWords startLine with
  | none => false
  | some (method, _, protocol) => method = bytes "GET" && (bytes "HTTP/").isPrefixOf protocol

/-- `validateServerHandshakeResponse`. -/
def validateServerHandshakeResponse (rawResponse expectedClientKey : Bytes) :
    Except String Unit := do
  let message ← parseHttpMessage rawResponse
  if isSwitchingProtocols message.startLine = false then
    .error "WebSocket server did not return HTTP 101"
  else if toLower (headerValue message (bytes "Upgrade")) ≠ bytes "websocket" then
    .error "WebSocket server response missing Upgrade: websocket"
  else if containsToken (headerValue message (bytes "Connection")) (bytes "upgrade") = false then
    .error "WebSocket server response missing Connection: Upgrade"
  else if headerValue message (bytes "Sec-WebSocket-Accept") ≠ computeAcceptKey expectedClientKey
    then .error "WebSocket server response has invalid Sec-WebSocket-Accept"
  else .ok ()

/-- `validateClientHandshakeRequest`, with the key if it succeeds. -/
def validateClientHandshakeRequest (rawRequest : Bytes) : Except String Bytes := do
  let message ← parseHttpMessage rawRequest
  let clientKey := headerValue message (bytes "Sec-WebSocket-Key")
  if isUpgradeRequest message.startLine = false then
    .error "Invalid WebSocket upgrade request line"
  else if toLower (headerValue message (bytes "Upgrade")) ≠ bytes "websocket" then
    .error "WebSocket upgrade request missing Upgrade: websocket"
  else if containsToken (headerValue message (bytes "Connection")) (bytes "upgrade") = false then
    .error "WebSocket upgrade request missing Connection: Upgrade"
  else if headerValue message (bytes "Sec-WebSocket-Version") ≠ bytes "13" then
    .error "Unsupported WebSocket version"
  else if clientKey = [] then .error "WebSocket upgrade request missing Sec-WebSocket-Key"
  else if isValidClientKey clientKey = false then
    .error "WebSocket upgrade request has invalid Sec-WebSocket-Key"
  else .ok clientKey

/-! ### Reading words and lines -/

/-- A byte that is no white space is no blank. -/
theorem isBlank_of_isspace {c : UInt8} (h : isspace c = false) : isBlank c = false := by
  simp only [isspace, Bool.or_eq_false_iff, decide_eq_false_iff_not, Bool.and_eq_false_iff] at h
  simp only [isBlank, Bool.or_eq_false_iff, decide_eq_false_iff_not]
  refine ⟨⟨⟨h.1, ?_⟩, ?_⟩, ?_⟩ <;> rintro rfl <;> simp at h

/-- A text that begins and ends with no blank. -/
def Tight (s : Bytes) : Prop :=
  (∀ c ∈ s.head?, isBlank c = false) ∧ ∀ c ∈ s.getLast?, isBlank c = false

/-- Whether a text is tight shows at its ends. -/
theorem tight_iff {s : Bytes} : (s.head?.all fun c => !isBlank c) = true ∧
    (s.getLast?.all fun c => !isBlank c) = true ↔ Tight s := by
  simp only [Tight, Option.all_eq_true, Bool.not_eq_true', Option.mem_def]

/-- Whether a text is tight can be computed. -/
instance instDecidablePredTight : DecidablePred Tight := fun _ => decidable_of_iff _ tight_iff

/-- A solid text is tight. -/
theorem tight_of_solid {s : Bytes} (h : Solid s) : Tight s :=
  ⟨fun c hc => isBlank_of_isspace (h.2 c (List.mem_of_mem_head? hc)),
    fun c hc => isBlank_of_isspace (h.2 c (List.mem_of_mem_getLast? hc))⟩

/-- Words with something between them. -/
theorem tight_append {a s b : Bytes} (ha : Solid a) (hb : Solid b) :
    Tight (a ++ s ++ b) := by
  refine ⟨fun c hc => ?_, fun c hc => ?_⟩
  · rw [List.append_assoc, List.head?_append_of_ne_nil _ ha.1] at hc
    exact (tight_of_solid ha).1 c hc
  · rw [List.getLast?_append_of_ne_nil _ hb.1] at hc
    exact (tight_of_solid hb).2 c hc

/-- What is around a tight text is trimmed. -/
theorem trim_append {a s b : Bytes} (ha : ∀ c ∈ a, isBlank c = true)
    (hb : ∀ c ∈ b, isBlank c = true) (hs : Tight s) : trim (a ++ s ++ b) = s :=
  dropWhile_both ha hb hs.1 hs.2

/-- A line that `getline` has read. -/
theorem trim_line {line : Bytes} (h : Tight line) : trim (line ++ [13]) = line :=
  trim_append (a := []) (List.forall_mem_nil _) (List.forall_mem_singleton.mpr rfl) h

/-- The value behind a colon. -/
theorem trim_value {value : Bytes} (h : Tight value) : trim (32 :: value) = value := by
  have hblank := trim_append (a := [32]) (b := []) (List.forall_mem_singleton.mpr rfl)
    (List.forall_mem_nil _) h
  rwa [List.append_nil] at hblank

/-- A solid text needs no trimming. -/
theorem trim_solid {s : Bytes} (h : Solid s) : trim s = s := by
  have hblank := trim_append (a := []) (b := []) (fun _ hc => absurd hc List.not_mem_nil)
    (fun _ hc => absurd hc List.not_mem_nil) (tight_of_solid h)
  rwa [List.append_nil] at hblank

/-! ### Messages of lines -/

/-- A header as the builders write it. -/
def fieldLine (field : Bytes × Bytes) : Bytes := field.1 ++ bytes ": " ++ field.2

/-- The text of a message. -/
def messageText (startLine : Bytes) (fields : List (Bytes × Bytes)) : Bytes :=
  startLine ++ bytes "\r\n" ++ fields.flatMap (fun field => fieldLine field ++ bytes "\r\n") ++
    bytes "\r\n"

/-- A header without white space in its key and value, and no colon in the key. -/
structure IsField (field : Bytes × Bytes) : Prop where
  key : Solid field.1
  value : Solid field.2
  colon : 58 ∉ field.1

/-- A solid key without a colon and a solid value make a field. -/
theorem isField {key value : Bytes} (hkey : Solid key) (hcolon : 58 ∉ key) (hvalue : Solid value) :
    IsField (key, value) :=
  ⟨hkey, hvalue, hcolon⟩

/-- The line of a field is tight. -/
theorem IsField.tight {field : Bytes × Bytes} (h : IsField field) : Tight (fieldLine field) :=
  tight_append h.key h.value

/-- The line of a field is one line. -/
theorem IsField.notMem {field : Bytes × Bytes} (h : IsField field) : 10 ∉ fieldLine field := by
  have hkey := h.key.notMem (c := 10) rfl
  have hvalue := h.value.notMem (c := 10) rfl
  simp only [fieldLine, List.mem_append, not_or]
  exact ⟨⟨hkey, by decide⟩, hvalue⟩

/-- A header is cut at its colon. -/
theorem IsField.cutAt {field : Bytes × Bytes} (h : IsField field) :
    cutAt 58 (fieldLine field) = some (field.1, 32 :: field.2) := by
  rw [fieldLine, List.append_assoc]
  exact cutAt_append h.colon (32 :: field.2)

/-- The lines of headers, as `getline` reads them, and the empty one behind them. -/
theorem parseHeaderLines_fields {message : HttpMessage} {fields : List (Bytes × Bytes)}
    (h : ∀ field ∈ fields, IsField field) :
    parseHeaderLines message (fields.map (fun field => fieldLine field ++ [13]) ++ [[13]]) =
      .ok { message with
        headers := fields.foldl (fun m field => m.insertOrAssign (toLower field.1) field.2)
          message.headers } := by
  induction fields generalizing message with
  | nil =>
      rw [List.map_nil, List.nil_append, parseHeaderLines, if_pos (by decide)]
      rfl
  | cons field fields ih =>
      have hfield := h field List.mem_cons_self
      have hne : fieldLine field ≠ [] := by
        rw [fieldLine, List.append_assoc]
        exact List.append_ne_nil_of_left_ne_nil hfield.key.1 _
      rw [List.map_cons, List.cons_append, parseHeaderLines, trim_line hfield.tight, if_neg hne,
        hfield.cutAt]
      simp only [trim_solid hfield.key, trim_value (tight_of_solid hfield.value)]
      exact ih fun field hmem => h field (List.mem_cons_of_mem _ hmem)

/-- The lines of a message are its start line and its fields. -/
theorem getlines_messageText {startLine : Bytes} {fields : List (Bytes × Bytes)}
    (hstart : 10 ∉ startLine) (h : ∀ field ∈ fields, IsField field) :
    getlines 10 (messageText startLine fields) =
      (startLine ++ [13]) :: (fields.map (fun field => fieldLine field ++ [13]) ++ [[13]]) := by
  have hline {line rest : Bytes} (hmem : 10 ∉ line) :
      getlines 10 (line ++ bytes "\r\n" ++ rest) = (line ++ [13]) :: getlines 10 rest := by
    have hcr : 10 ∉ line ++ [13] := by
      simp only [List.mem_append, not_or]
      exact ⟨hmem, by decide⟩
    have hcrlf : bytes "\r\n" = [13, 10] := by decide
    have hsplit : line ++ bytes "\r\n" ++ rest = (line ++ [13]) ++ 10 :: rest := by
      rw [hcrlf, List.append_assoc, List.append_assoc]
      rfl
    rw [hsplit, getlines_append hcr]
  rw [messageText, List.append_assoc (startLine ++ _), hline hstart]
  congr 1
  induction fields with
  | nil => decide
  | cons field fields ih =>
      rw [List.flatMap_cons, List.append_assoc, hline (h field List.mem_cons_self).notMem, ih
        fun field hmem => h field (List.mem_cons_of_mem _ hmem)]
      rfl

/-- **A message is read as the lines it was built from.** -/
theorem parseHttpMessage_lines {startLine : Bytes} {fields : List (Bytes × Bytes)}
    (hne : startLine ≠ []) (htight : Tight startLine) (hstart : 10 ∉ startLine)
    (h : ∀ field ∈ fields, IsField field) :
    parseHttpMessage (messageText startLine fields) =
      .ok { startLine := startLine
            headers := fields.foldl (fun m field => m.insertOrAssign (toLower field.1) field.2)
              .empty } := by
  rw [parseHttpMessage, getlines_messageText hstart h]
  simp only [trim_line htight, if_neg hne]
  exact parseHeaderLines_fields h

/-! ### The request -/

/-- A digit is no white space. -/
theorem solid_formatHostHeader {host : Bytes} (port : UInt16)
    (h : ∀ c ∈ host, isspace c = false) : Solid (formatHostHeader host port) := by
  have hcolon : Solid (bytes ":") := by decide
  have hopening : Solid (bytes "[") := by decide
  have hclosing : Solid (bytes "]") := by decide
  refine Solid.append ?_ (solid_toString _)
  intro c hc
  rcases List.mem_append.mp hc with hc | hc
  · split at hc
    · rcases List.mem_append.mp hc with hc | hc
      · rcases List.mem_append.mp hc with hc | hc
        · exact hopening.2 c hc
        · exact h c hc
      · exact hclosing.2 c hc
    · exact h c hc
  · exact hcolon.2 c hc

/-- A path without white space is solid. -/
theorem solid_requestPath {path : Bytes} (h : ∀ c ∈ path, isspace c = false) :
    Solid (requestPath path) := by
  have hslash : Solid (bytes "/") := by decide
  rw [requestPath]
  split
  · exact hslash
  · rename_i hne
    split
    · exact ⟨hne, h⟩
    · exact Solid.append hslash.2 ⟨hne, h⟩

/-- What has been encoded is solid. -/
theorem solid_base64Encode {data : Bytes} (h : data ≠ []) : Solid (base64Encode data) := by
  refine ⟨?_, fun c hc => ?_⟩
  · rw [← List.length_pos_iff, length_base64Encode]
    have hpos := List.length_pos_iff.mpr h
    omega
  · obtain ⟨hlow, hhigh⟩ := mem_base64Encode hc
    have hlow : 43 ≤ c.toNat := UInt8.le_iff_toNat_le.mp hlow
    simp only [isspace, Bool.or_eq_false_iff, Bool.and_eq_false_iff, decide_eq_false_iff_not,
      UInt8.le_iff_toNat_le, ← UInt8.toNat_inj]
    refine ⟨fun heq => ?_, Or.inr fun hle => ?_⟩
    · have hn : c.toNat = 32 := heq
      omega
    · have hn : c.toNat ≤ 13 := hle
      omega

/-- An accept key is solid. -/
theorem solid_computeAcceptKey (key : Bytes) : Solid (computeAcceptKey key) := by
  refine solid_base64Encode ?_
  simp [Sha1.final, Sha1.writeWord]

/-- The line `Upgrade` is a field. -/
theorem bytes_upgrade : bytes "Upgrade: websocket\r\n" =
    fieldLine (bytes "Upgrade", bytes "websocket") ++ bytes "\r\n" := by
  decide

/-- The line `Connection` is a field. -/
theorem bytes_connection : bytes "Connection: Upgrade\r\n" =
    fieldLine (bytes "Connection", bytes "Upgrade") ++ bytes "\r\n" := by
  decide

/-- The start line of the request. -/
def requestLine (path : Bytes) : Bytes := bytes "GET " ++ requestPath path ++ bytes " HTTP/1.1"

/-- The headers of the request. -/
def requestFields (host : Bytes) (port : UInt16) (clientKey : Bytes) : List (Bytes × Bytes) :=
  [(bytes "Host", formatHostHeader host port), (bytes "Upgrade", bytes "websocket"),
    (bytes "Connection", bytes "Upgrade"), (bytes "Sec-WebSocket-Key", clientKey),
    (bytes "Sec-WebSocket-Version", bytes "13")]

/-- The request of a client is a message. -/
theorem buildClientHandshakeRequest_eq (host : Bytes) (port : UInt16) (path clientKey : Bytes) :
    buildClientHandshakeRequest host port path clientKey =
      messageText (requestLine path) (requestFields host port clientKey) := by
  have hprotocol : bytes " HTTP/1.1\r\n" = bytes " HTTP/1.1" ++ bytes "\r\n" := by decide
  have hhost : bytes "Host: " = bytes "Host" ++ bytes ": " := by decide
  have hkey : bytes "Sec-WebSocket-Key: " = bytes "Sec-WebSocket-Key" ++ bytes ": " := by decide
  have hversion : bytes "Sec-WebSocket-Version: 13\r\n" =
      bytes "Sec-WebSocket-Version" ++ bytes ": " ++ bytes "13" ++ bytes "\r\n" := by decide
  simp only [buildClientHandshakeRequest, messageText, requestLine, requestFields, fieldLine,
    List.flatMap_cons, List.flatMap_nil, List.append_assoc, List.append_nil, hprotocol, hhost,
    hkey, hversion, bytes_upgrade, bytes_connection]

/-- The headers of the response. -/
def responseFields (clientKey : Bytes) : List (Bytes × Bytes) :=
  [(bytes "Upgrade", bytes "websocket"), (bytes "Connection", bytes "Upgrade"),
    (bytes "Sec-WebSocket-Accept", computeAcceptKey clientKey)]

/-- The response of a server is a message. -/
theorem buildServerHandshakeResponse_eq (clientKey : Bytes) :
    buildServerHandshakeResponse clientKey =
      messageText (bytes "HTTP/1.1 101 Switching Protocols") (responseFields clientKey) := by
  have hstatus : bytes "HTTP/1.1 101 Switching Protocols\r\n" =
      bytes "HTTP/1.1 101 Switching Protocols" ++ bytes "\r\n" := by decide
  have haccept : bytes "Sec-WebSocket-Accept: " = bytes "Sec-WebSocket-Accept" ++ bytes ": " := by
    decide
  simp only [buildServerHandshakeResponse, messageText, responseFields, fieldLine,
    List.flatMap_cons, List.flatMap_nil, List.append_assoc, List.append_nil, hstatus, haccept,
    bytes_upgrade, bytes_connection]

/-! ### Agreement -/

/-- The value of a header, where no other one has its key. -/
theorem headerValue_fields (startLine : Bytes) {fields : List (Bytes × Bytes)}
    {field : Bytes × Bytes} (hdistinct : (fields.map fun field => toLower field.1).Nodup)
    (hfield : field ∈ fields) :
    headerValue
      { startLine := startLine
        headers :=
          fields.foldl (fun m field => m.insertOrAssign (toLower field.1) field.2) .empty }
      field.1 = field.2 := by
  induction fields using List.reverseRecOn with
  | nil => exact absurd hfield List.not_mem_nil
  | append_singleton fields last ih =>
      rw [headerValue, List.foldl_append, List.foldl_cons, List.foldl_nil,
        StringMap.lookup_insertOrAssign]
      rw [List.map_append, List.nodup_append] at hdistinct
      obtain ⟨hnodup, -, hother⟩ := hdistinct
      rcases List.mem_append.mp hfield with hmem | hmem
      · have hne := hother _ (List.mem_map.mpr ⟨field, hmem, rfl⟩) _ List.mem_cons_self
        rw [if_neg (Ne.symm hne)]
        exact ih hnodup hmem
      · rw [List.mem_singleton.mp hmem, if_pos rfl]
        rfl

/-- The three words of the request line. -/
theorem isUpgradeRequest_requestLine {path : Bytes} (h : ∀ c ∈ path, isspace c = false) :
    isUpgradeRequest (requestLine path) = true := by
  have hget : Solid (bytes "GET") := by decide
  have hfirst : nextWord (requestLine path) =
      some (bytes "GET", 32 :: (requestPath path ++ bytes " HTTP/1.1")) := by
    have hword := nextWord_append (a := []) (b := 32 :: (requestPath path ++ bytes " HTTP/1.1"))
      (fun _ hc => absurd hc List.not_mem_nil) hget (by simp [isspace])
    rw [List.nil_append] at hword
    rw [requestLine, List.append_assoc]
    exact hword
  have hblank : ∀ c ∈ (bytes " HTTP/1.1").head?, isspace c = true := by
    have hhead : (bytes " HTTP/1.1").head? = some 32 := by decide
    rw [hhead]
    intro c hc
    rw [← Option.some.inj hc]
    rfl
  have hsecond : nextWord (32 :: (requestPath path ++ bytes " HTTP/1.1")) =
      some (requestPath path, bytes " HTTP/1.1") :=
    nextWord_append (a := [32]) (List.forall_mem_singleton.mpr rfl) (solid_requestPath h)
      hblank
  have hthird : nextWord (bytes " HTTP/1.1") = some (bytes "HTTP/1.1", []) := by decide
  rw [isUpgradeRequest, HttpRequestParser.requestLineWords, hfirst]
  simp only [Option.bind_eq_bind, Option.bind_some, hsecond, hthird]
  rfl

/-- The request is read as the lines it was built from. -/
theorem parseHttpMessage_request {host path clientKey : Bytes} (port : UInt16)
    (hhost : ∀ c ∈ host, isspace c = false) (hpath : ∀ c ∈ path, isspace c = false)
    (hkey : Solid clientKey) :
    parseHttpMessage (buildClientHandshakeRequest host port path clientKey) =
      .ok { startLine := requestLine path
            headers := (requestFields host port clientKey).foldl
              (fun m field => m.insertOrAssign (toLower field.1) field.2) .empty } := by
  have hget : Solid (bytes "GET") := by decide
  have hprotocol : Solid (bytes "HTTP/1.1") := by decide
  have hline : requestLine path =
      bytes "GET" ++ (bytes " " ++ requestPath path ++ bytes " ") ++ bytes "HTTP/1.1" := by
    have hfirst : bytes "GET " = bytes "GET" ++ bytes " " := by decide
    have hlast : bytes " HTTP/1.1" = bytes " " ++ bytes "HTTP/1.1" := by decide
    simp only [requestLine, hfirst, hlast, List.append_assoc]
  rw [buildClientHandshakeRequest_eq]
  refine parseHttpMessage_lines (by simp [requestLine, bytes])
    (hline ▸ tight_append hget hprotocol) ?_ ?_
  · have hsolid := (solid_requestPath hpath).notMem (c := 10) rfl
    simp only [requestLine, List.mem_append, not_or]
    exact ⟨⟨by decide, hsolid⟩, by decide⟩
  · simp only [requestFields, List.forall_mem_cons, List.not_mem_nil, false_imp_iff, forall_const,
      and_true]
    exact ⟨isField (by decide) (by decide) (solid_formatHostHeader port hhost),
      isField (by decide) (by decide) (by decide), isField (by decide) (by decide) (by decide),
      isField (by decide) (by decide) hkey, isField (by decide) (by decide) (by decide)⟩

/-- **The server reads the request of a client**: its answer depends on the key only. -/
theorem validateClientHandshakeRequest_build {host path clientKey : Bytes} (port : UInt16)
    (hhost : ∀ c ∈ host, isspace c = false) (hpath : ∀ c ∈ path, isspace c = false)
    (hkey : Solid clientKey) :
    validateClientHandshakeRequest (buildClientHandshakeRequest host port path clientKey) =
      if isValidClientKey clientKey = false then
        .error "WebSocket upgrade request has invalid Sec-WebSocket-Key"
      else .ok clientKey := by
  have hdistinct : ((requestFields host port clientKey).map fun field =>
      toLower field.1).Nodup := by
    change [toLower (bytes "Host"), toLower (bytes "Upgrade"), toLower (bytes "Connection"),
      toLower (bytes "Sec-WebSocket-Key"), toLower (bytes "Sec-WebSocket-Version")].Nodup
    decide
  have hvalue (field : Bytes × Bytes) (hfield : field ∈ requestFields host port clientKey) :=
    headerValue_fields (requestLine path) hdistinct hfield
  have hupgrade := hvalue (bytes "Upgrade", bytes "websocket") (by simp [requestFields])
  have hconnection := hvalue (bytes "Connection", bytes "Upgrade") (by simp [requestFields])
  have hclient := hvalue (bytes "Sec-WebSocket-Key", clientKey) (by simp [requestFields])
  have hversion := hvalue (bytes "Sec-WebSocket-Version", bytes "13") (by simp [requestFields])
  have hlower : toLower (bytes "websocket") = bytes "websocket" := by decide
  have htoken : containsToken (bytes "Upgrade") (bytes "upgrade") = true := by decide
  dsimp only at hupgrade hconnection hclient hversion
  rw [validateClientHandshakeRequest, parseHttpMessage_request port hhost hpath hkey]
  simp only [bind, Except.bind, isUpgradeRequest_requestLine hpath, hupgrade, hconnection, hclient,
    hversion, hlower, htoken, hkey.1, ne_eq, not_true_eq_false, Bool.true_eq_false, if_false]

/-- **The client reads the response of a server**: it looks at the accept value. -/
theorem validateServerHandshakeResponse_build (clientKey expectedClientKey : Bytes) :
    validateServerHandshakeResponse (buildServerHandshakeResponse clientKey) expectedClientKey =
      if computeAcceptKey clientKey ≠ computeAcceptKey expectedClientKey then
        .error "WebSocket server response has invalid Sec-WebSocket-Accept"
      else .ok () := by
  have hparse : parseHttpMessage (buildServerHandshakeResponse clientKey) =
      .ok { startLine := bytes "HTTP/1.1 101 Switching Protocols"
            headers := (responseFields clientKey).foldl
              (fun m field => m.insertOrAssign (toLower field.1) field.2) .empty } := by
    rw [buildServerHandshakeResponse_eq]
    refine parseHttpMessage_lines (by decide) (by decide) (by decide) ?_
    simp only [responseFields, List.forall_mem_cons, List.not_mem_nil, false_imp_iff, forall_const,
      and_true]
    exact ⟨isField (by decide) (by decide) (by decide), isField (by decide) (by decide) (by decide),
      isField (by decide) (by decide) (solid_computeAcceptKey clientKey)⟩
  have hdistinct : ((responseFields clientKey).map fun field => toLower field.1).Nodup := by
    change [toLower (bytes "Upgrade"), toLower (bytes "Connection"),
      toLower (bytes "Sec-WebSocket-Accept")].Nodup
    decide
  have hvalue (field : Bytes × Bytes) (hfield : field ∈ responseFields clientKey) :=
    headerValue_fields (bytes "HTTP/1.1 101 Switching Protocols") hdistinct hfield
  have hupgrade := hvalue (bytes "Upgrade", bytes "websocket") (by simp [responseFields])
  have hconnection := hvalue (bytes "Connection", bytes "Upgrade") (by simp [responseFields])
  have haccept := hvalue (bytes "Sec-WebSocket-Accept", computeAcceptKey clientKey)
    (by simp [responseFields])
  have hlower : toLower (bytes "websocket") = bytes "websocket" := by decide
  have htoken : containsToken (bytes "Upgrade") (bytes "upgrade") = true := by decide
  have hstatus : isSwitchingProtocols (bytes "HTTP/1.1 101 Switching Protocols") = true := by
    decide
  dsimp only at hupgrade hconnection haccept
  rw [validateServerHandshakeResponse, hparse]
  simp only [bind, Except.bind, hstatus, hupgrade, hconnection, haccept, hlower, htoken, ne_eq,
    not_true_eq_false, Bool.true_eq_false, if_false]

/-- **The two sides agree.** For sixteen random bytes, and a host and path without white space, the
server accepts the request that the client builds, and gets the key of the client; the client
accepts the response that the server builds for this key; and it accepts a response for some other
key iff the accept values are the same. -/
theorem handshake_agrees {nonce host path : Bytes} (port : UInt16) (hnonce : nonce.length = 16)
    (hhost : ∀ c ∈ host, isspace c = false) (hpath : ∀ c ∈ path, isspace c = false) :
    validateClientHandshakeRequest
        (buildClientHandshakeRequest host port path (base64Encode nonce)) =
      .ok (base64Encode nonce) ∧
    validateServerHandshakeResponse (buildServerHandshakeResponse (base64Encode nonce))
        (base64Encode nonce) = .ok () ∧
    ∀ key key' : Bytes,
      validateServerHandshakeResponse (buildServerHandshakeResponse key) key' = .ok () ↔
        computeAcceptKey key = computeAcceptKey key' := by
  have hne : nonce ≠ [] := List.ne_nil_of_length_pos (by omega)
  refine ⟨?_, ?_, fun key key' => ?_⟩
  · rw [validateClientHandshakeRequest_build port hhost hpath (solid_base64Encode hne),
      isValidClientKey_base64Encode hnonce, if_neg Bool.noConfusion]
  · rw [validateServerHandshakeResponse_build, if_neg (not_not.mpr rfl)]
  · rw [validateServerHandshakeResponse_build]
    by_cases heq : computeAcceptKey key = computeAcceptKey key'
    · simp [heq]
    · simp [heq]

/-- A handshake with a local server. -/
theorem local_handshake :
    validateClientHandshakeRequest (buildClientHandshakeRequest (bytes "::1") 8080 (bytes "chat")
        (base64Encode (List.range 16 |>.map Nat.toUInt8))) =
      .ok (base64Encode (List.range 16 |>.map Nat.toUInt8)) :=
  have hhost : Solid (bytes "::1") := by decide
  have hpath : Solid (bytes "chat") := by decide
  (handshake_agrees 8080 (by decide) hhost.2 hpath.2).1

end WebSocketHandshake

end SimplyNode
