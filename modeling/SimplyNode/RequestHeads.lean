import SimplyNode.HttpPieces
import SimplyNode.TextNumbers

/-!
# The Heads of Requests

The head of a request is a line with its method, target and protocol, the lines of its headers and a
blank line. `RequestHead` is the text of one, and what the parser makes of it: a request without a
body, whose headers are in a map. The size of the body is the first `Content-Length` of this map, in
any case; without a `Transfer-Encoding` the request is complete when so many bytes have come behind
the head.

## Main results

* `feed_head`: a head and what is behind it, at once.
* `complete_iff`: **a request of announced size** is complete when its bytes have come.
* `framedBy_size`: **the size of a body** in the cases that the headers can announce.
-/

namespace SimplyNode

open Text Feed HttpRequestParser

/-- A header line: a key, a colon and a value. -/
structure HeaderLine where
  key : Bytes
  rawValue : Bytes
  colon : 58 ∉ key
  line : nextLine (key ++ 58 :: rawValue) = none

namespace HeaderLine

variable (f : HeaderLine)

/-- The line without its end. -/
def text : Bytes := f.key ++ 58 :: f.rawValue

/-- The value without the blanks around it. -/
def value : Bytes := trim f.rawValue

/-- The header has this name, in any case. -/
def named (name : String) : Bool := f.key.map tolower = (bytes name).map tolower

end HeaderLine

/-- The head of a request: a line that is accepted, and header lines. -/
structure RequestHead where
  line : Bytes
  fields : List HeaderLine
  oneLine : nextLine line = none
  accepted : isRequestLine line = true

namespace RequestHead

variable (head : RequestHead)

/-- The lines, each with its end, and a blank one. -/
def text : Bytes :=
  head.line ++ 13 :: 10 :: (head.fields.flatMap (fun f => f.text ++ [13, 10]) ++ [13, 10])

/-- The map of the headers. -/
def headers : StringMap := head.fields.foldl (fun m f => m.insertOrAssign f.key f.value) .empty

/-- What the request line says. -/
def target : HttpRequest :=
  match requestLineWords head.line with
  | none => {}
  | some (method, path, _) => setTarget {} method path

/-- The request without its body. -/
def request : HttpRequest := { head.target with headers := head.headers }

/-- The number of bytes that the headers announce. -/
def bodyLength : ℕ :=
  let contentLength := HttpRequest.getHeader head.headers (bytes "Content-Length")
  if contentLength = [] then 0 else parseContentLength contentLength

/-- The body does not come in a transfer encoding. -/
def Plain : Prop := HttpRequest.getHeader head.headers (bytes "Transfer-Encoding") = []

/-- A parser behind the header lines. -/
def parser (rest : Bytes) : HttpRequestParser :=
  { state := .headers, buffer := rest, request := head.request }

end RequestHead

/-! ### The lines of a head -/

theorem headerField_text (f : HeaderLine) : headerField f.text = some (f.key, f.value) := by
  rw [headerField, HeaderLine.text, cutAt_append f.colon]
  rfl

/-- Header lines in the buffer, and the blank line behind them. -/
theorem parseHeaders_fields (fields : List HeaderLine) {p : HttpRequestParser} {rest : Bytes}
    (h : p.buffer = fields.flatMap (fun f => f.text ++ [13, 10]) ++ 13 :: 10 :: rest) :
    p.parseHeaders = (({ p with request := { p.request with
      headers := fields.foldl (fun m f => m.insertOrAssign f.key f.value) p.request.headers }
        } : HttpRequestParser).setBuffer rest).endHeaders := by
  induction fields generalizing p with
  | nil =>
      have hnext : nextLine p.buffer = some ([], rest) := by
        rw [h]
        rfl
      rw [parseHeaders_end hnext]
      rfl
  | cons f fields ih =>
      have hnext : nextLine p.buffer = some (f.text,
          fields.flatMap (fun f => f.text ++ [13, 10]) ++ 13 :: 10 :: rest) := by
        rw [h, List.flatMap_cons, List.append_assoc, List.append_assoc]
        exact nextLine_line f.line _
      have hline : f.text ≠ [] := List.append_ne_nil_of_right_ne_nil _ (List.cons_ne_nil _ _)
      rw [parseHeaders_next hnext hline (headerField_text f), ih rfl]
      rfl

/-- The request line in the buffer. -/
theorem advanceRequestLine_line (head : RequestHead) (rest : Bytes) :
    (({} : HttpRequestParser).push (head.line ++ 13 :: 10 :: rest)).advanceRequestLine =
      { state := .headers, buffer := rest, request := head.target } := by
  have hnext : nextLine (({} : HttpRequestParser).push (head.line ++ 13 :: 10 :: rest)).buffer =
      some (head.line, rest) := nextLine_line head.oneLine rest
  have haccepted := head.accepted
  rw [isRequestLine] at haccepted
  refine (if_pos rfl).trans ?_
  rw [parseRequestLine, hnext]
  dsimp only
  rw [readRequestLine, RequestHead.target]
  cases hwords : requestLineWords head.line with
  | none =>
      rw [hwords] at haccepted
      cases haccepted
  | some words =>
      obtain ⟨method, path, protocol⟩ := words
      rw [hwords] at haccepted
      dsimp only at haccepted ⊢
      rw [if_pos haccepted]
      rfl

/-- A request line says nothing about the headers and the body. -/
theorem target_frame (head : RequestHead) :
    head.target.headers = .empty ∧ head.target.body = [] := by
  rw [RequestHead.target]
  cases requestLineWords head.line with
  | none => exact ⟨rfl, rfl⟩
  | some words =>
      dsimp only
      rw [setTarget]
      split <;> exact ⟨rfl, rfl⟩

/-- **A parser behind a head.** -/
theorem afterHead_text (head : RequestHead) (b : Bytes) :
    afterHead (head.text ++ b) = (head.parser b).endHeaders := by
  have htext : head.text ++ b = head.line ++ 13 :: 10 ::
      (head.fields.flatMap (fun f => f.text ++ [13, 10]) ++ 13 :: 10 :: b) := by
    rw [RequestHead.text]
    simp
  rw [afterHead, htext, advanceRequestLine_line, advanceHeaders_of_state rfl,
    parseHeaders_fields head.fields rfl]
  dsimp only
  rw [(target_frame head).1]
  rfl

/-! ### A body of announced size -/

/-- The blank line: the parser knows the size of the body. -/
theorem endHeaders_head {head : RequestHead} (hplain : head.Plain) (b : Bytes) :
    (head.parser b).endHeaders =
      { head.parser b with
        state := if head.bodyLength = 0 then .complete else .body
        bodyBytesExpected := head.bodyLength } := by
  have hannounce : (head.parser b).announceBody =
      { head.parser b with bodyBytesExpected := head.bodyLength } := by
    have hte : HttpRequest.getHeader (head.parser b).request.headers
        (bytes "Transfer-Encoding") = [] := hplain
    rw [announceBody, RequestHead.bodyLength]
    dsimp only
    rw [hte, if_neg (not_not.mpr rfl)]
    have hheaders : (head.parser b).request.headers = head.headers := rfl
    rw [hheaders]
    split_ifs <;> first | rfl | contradiction
  rw [endHeaders, hannounce]
  dsimp only
  by_cases hzero : head.bodyLength = 0
  · rw [if_pos hzero, if_pos ⟨hzero, rfl⟩]
  · rw [if_neg hzero, if_neg fun h => hzero h.1]

/-- What is complete behind a head, with some bytes behind it. -/
def RequestHead.complete (head : RequestHead) (b : Bytes) : HttpRequestParser where
  state := .complete
  buffer := b.drop head.bodyLength
  request := { head.request with body := b.take head.bodyLength }
  bodyBytesRead := head.bodyLength
  bodyBytesExpected := head.bodyLength

/-- What waits for the rest of the body. -/
def RequestHead.waiting (head : RequestHead) (b : Bytes) : HttpRequestParser where
  state := .body
  request := { head.request with body := b }
  bodyBytesRead := b.length
  bodyBytesExpected := head.bodyLength

/-- **A head and what is behind it**, at once. -/
theorem feed_head {head : RequestHead} (hplain : head.Plain) (b : Bytes) :
    feed {} (head.text ++ b) =
      if head.bodyLength ≤ b.length then head.complete b else head.waiting b := by
  have hbody : head.request.body = [] := (target_frame head).2
  rw [feed_fresh, afterHead_text, endHeaders_head hplain]
  by_cases hzero : head.bodyLength = 0
  · rw [if_pos hzero, advanceBody_of_ne (by exact ParserState.noConfusion), if_pos (by omega),
      RequestHead.complete, hzero, List.take_zero, List.drop_zero, ← hbody]
    rfl
  · rw [if_neg hzero, advanceBody_of_state rfl, parseBody]
    refine (if_neg Bool.false_ne_true).trans ?_
    rw [parseSizedBody]
    refine (if_pos (Nat.pos_of_ne_zero hzero)).trans ?_
    by_cases hlong : head.bodyLength ≤ b.length
    · have htake : head.request.body ++ b.take head.bodyLength = b.take head.bodyLength := by
        rw [hbody, List.nil_append]
      rw [if_pos hlong, RequestHead.complete, ← htake]
      exact if_pos hlong
    · have hall : head.request.body ++ b = b := by rw [hbody, List.nil_append]
      have hread : b.length = 0 + b.length := (Nat.zero_add _).symm
      rw [if_neg hlong, RequestHead.waiting]
      refine (if_neg hlong).trans ?_
      change ({ state := .body, request := { head.request with body := head.request.body ++ b }
                bodyBytesRead := 0 + b.length, bodyBytesExpected := head.bodyLength } :
        HttpRequestParser) = _
      rw [hall, ← hread]

/-- No chunks come behind a plain head. -/
theorem chunkedBody_plain {head : RequestHead} (hplain : head.Plain) {s b : Bytes}
    (hs : s <+: head.text ++ b) : chunkedBody s = none := by
  obtain ⟨t, hs⟩ := hs
  cases hchunks : chunkedBody s with
  | none => rfl
  | some r =>
      have hat := (afterHead_atChunks (head.text ++ b) (r ++ t)).1.mpr
        (hs ▸ chunkedBody_append hchunks t)
      rw [afterHead_text, endHeaders_head hplain] at hat
      exact Bool.noConfusion hat.2.1

/-- A complete parser only keeps what comes. -/
theorem feed_of_complete {p : HttpRequestParser} (h : p.state = .complete) (b : Bytes) :
    p.feed b = p.push b := by
  have hpush : (p.push b).state = .complete := h
  rw [feed_of_ne (by rw [h]; decide), advance, advanceRequestLine_of_ne (by rw [hpush]; decide),
    advanceHeaders_of_ne (by rw [hpush]; decide), advanceBody_of_ne (by rw [hpush]; decide)]

/-- What is behind a head, or a part of the head. -/
theorem prefix_append_cases {s a b : Bytes} (h : s <+: a ++ b) :
    (∃ c, c <+: b ∧ s = a ++ c) ∨ ∃ t, t ≠ [] ∧ s ++ t = a := by
  obtain ⟨c, rfl⟩ | ⟨t, rfl⟩ := List.prefix_or_prefix_of_prefix (List.prefix_append a b) h
  · exact Or.inl ⟨c, (List.prefix_append_right_inj a).mp h, rfl⟩
  · by_cases ht : t = []
    · exact Or.inl ⟨[], List.nil_prefix, by rw [ht, List.append_nil, List.append_nil]⟩
    · exact Or.inr ⟨t, ht, rfl⟩

/-- What comes behind a head is no error. -/
theorem feed_head_state {head : RequestHead} (hplain : head.Plain) (b : Bytes) :
    (feed {} (head.text ++ b)).state ≠ .error := by
  rw [feed_head hplain]
  split <;> exact ParserState.noConfusion

/-- A part of a head is neither a request nor an error. -/
theorem feed_part {head : RequestHead} (hplain : head.Plain) {s t : Bytes} (ht : t ≠ [])
    (hs : s ++ t = head.text) :
    (feed {} s).state ≠ .complete ∧ (feed {} s).state ≠ .error := by
  have hcut : ¬EndsInsideChunk s := by
    rintro ⟨b, hb, -⟩
    have hstarts : s <+: head.text ++ [] := (List.append_nil head.text).symm ▸ ⟨t, hs⟩
    rw [chunkedBody_plain hplain hstarts] at hb
    cases hb
  have hwhole := feed_head hplain []
  have hnoerror := feed_head_state hplain []
  rw [List.append_nil] at hwhole hnoerror
  have hsame : Same ((feed {} s).feed t) (feed {} head.text) := hs ▸ feed_resumes hcut t
  obtain heq | ⟨-, herror, -⟩ := hsame
  · constructor
    · -- a complete parser would keep the rest of the head, but nothing is left of it
      intro hcomplete
      rw [feed_of_complete hcomplete, hwhole] at heq
      have hbuffer := congrArg HttpRequestParser.buffer heq
      have hnil : ((feed {} s).push t).buffer = [] := by
        rw [hbuffer]
        split
        · exact List.drop_nil
        · rfl
      exact ht (List.append_eq_nil_iff.mp hnil).2
    · intro herror
      rw [feed_of_error herror] at heq
      exact hnoerror (heq ▸ herror)
  · exact absurd herror hnoerror

/-- **Pieces** of a request may be cut anywhere. -/
theorem feedAll_plain {head : RequestHead} (hplain : head.Plain) {pieces : List Bytes} {b : Bytes}
    (h : pieces.flatten <+: head.text ++ b) :
    feedAll feed {} pieces = feed {} pieces.flatten := by
  have hcuts : CutsOutsideChunks pieces := by
    rintro xs ys rfl - - ⟨c, hc, -⟩
    rw [List.flatten_append] at h
    rw [chunkedBody_plain hplain ((List.prefix_append _ _).trans h)] at hc
    cases hc
  obtain heq | ⟨-, herror, -⟩ := feedAll_same hcuts
  · exact heq
  · obtain ⟨c, -, hc⟩ | ⟨t, ht, hs⟩ := prefix_append_cases h
    · rw [hc] at herror
      exact absurd herror (feed_head_state hplain c)
    · exact absurd herror (feed_part hplain ht hs).2

/-- **A request of announced size** is complete when its bytes have come, and no error before. -/
theorem complete_iff {head : RequestHead} (hplain : head.Plain) {pieces : List Bytes} {b : Bytes}
    (h : pieces.flatten <+: head.text ++ b) :
    (feedAll feed {} pieces).hasError = false ∧
    ((feedAll feed {} pieces).isComplete = true ↔
      head.text.length + head.bodyLength ≤ pieces.flatten.length) ∧
    ((feedAll feed {} pieces).isComplete = true →
      feedAll feed {} pieces = head.complete (pieces.flatten.drop head.text.length)) := by
  rw [feedAll_plain hplain h]
  obtain ⟨c, -, hc⟩ | ⟨t, ht, hs⟩ := prefix_append_cases h
  · rw [hc, List.length_append, List.drop_left, feed_head hplain]
    by_cases hlong : head.bodyLength ≤ c.length
    · rw [if_pos hlong]
      exact ⟨rfl, iff_of_true rfl (by omega), fun _ => rfl⟩
    · rw [if_neg hlong]
      exact ⟨rfl, iff_of_false Bool.false_ne_true (by omega), fun hfalse => Bool.noConfusion hfalse⟩
  · obtain ⟨hcomplete, herror⟩ := feed_part hplain ht hs
    have hshort : pieces.flatten.length < head.text.length := by
      rw [← hs, List.length_append]
      have := List.length_pos_iff.mpr ht
      omega
    have hfalse : ¬(feed {} pieces.flatten).isComplete = true := fun h =>
      hcomplete (of_decide_eq_true h)
    exact ⟨hasError_of_state herror, iff_of_false hfalse (by omega), fun h => absurd h hfalse⟩

/-! ### The headers that announce the size -/

/-- The entries of the map come from the header lines. -/
theorem mem_headers {fields : List HeaderLine} {m : StringMap} {e : Bytes × Bytes}
    (h : e ∈ (fields.foldl (fun m f => m.insertOrAssign f.key f.value) m).entries) :
    e ∈ m.entries ∨ ∃ f ∈ fields, e = (f.key, f.value) := by
  induction fields generalizing m with
  | nil => exact Or.inl h
  | cons f fields ih =>
      obtain hm | ⟨g, hg, he⟩ := ih h
      · obtain he | hm := StringMap.mem_assign hm
        · exact Or.inr ⟨f, List.mem_cons_self, he⟩
        · exact Or.inl hm
      · exact Or.inr ⟨g, List.mem_cons_of_mem f hg, he⟩

/-- Every header line leaves an entry with its key. -/
theorem lookup_headers {fields : List HeaderLine} {m : StringMap} {key : Bytes}
    (h : (m.lookup key).isSome = true ∨ ∃ f ∈ fields, f.key = key) :
    ((fields.foldl (fun m f => m.insertOrAssign f.key f.value) m).lookup key).isSome = true := by
  induction fields generalizing m with
  | nil =>
      obtain h | ⟨f, hf, -⟩ := h
      · exact h
      · exact absurd hf List.not_mem_nil
  | cons f fields ih =>
      refine ih ?_
      rw [StringMap.lookup_insertOrAssign]
      by_cases hkey : f.key = key
      · rw [if_pos hkey]
        exact Or.inl rfl
      · rw [if_neg hkey]
        obtain h | ⟨g, hg, hgkey⟩ := h
        · exact Or.inl h
        · obtain rfl | hg := List.mem_cons.mp hg
          · exact absurd hgkey hkey
          · exact Or.inr ⟨g, hg, hgkey⟩

namespace RequestHead

variable {head : RequestHead}

/-- The header lines with a name, in any case. -/
def named (head : RequestHead) (name : String) : List HeaderLine :=
  head.fields.filter (·.named name)

/-- A header that is found comes from a line with its name. -/
theorem exists_of_find {name : String} {e : Bytes × Bytes}
    (h : head.headers.entries.find?
      (fun e => e.1.map tolower = (bytes name).map tolower) = some e) :
    ∃ f ∈ head.named name, e.2 = f.value := by
  obtain hm | ⟨f, hf, rfl⟩ := mem_headers (List.mem_of_find?_eq_some h)
  · exact absurd hm List.not_mem_nil
  · have hname := List.find?_some h
    exact ⟨f, List.mem_filter.mpr ⟨hf, hname⟩, rfl⟩

/-- A name without a line. -/
theorem getHeader_of_nil {name : String} (h : head.named name = []) :
    HttpRequest.getHeader head.headers (bytes name) = [] := by
  rw [HttpRequest.getHeader]
  cases hfind : head.headers.entries.find?
      (fun e => e.1.map tolower = (bytes name).map tolower) with
  | none => rfl
  | some e =>
      obtain ⟨f, hf, -⟩ := exists_of_find hfind
      rw [h] at hf
      exact absurd hf List.not_mem_nil

/-- A name with one line. -/
theorem getHeader_of_singleton {name : String} {f : HeaderLine} (h : head.named name = [f]) :
    HttpRequest.getHeader head.headers (bytes name) = f.value := by
  have hf : f ∈ head.named name := by
    rw [h]
    exact List.mem_singleton_self f
  obtain ⟨hfields, hname⟩ := List.mem_filter.mp hf
  rw [HttpRequest.getHeader]
  cases hfind : head.headers.entries.find?
      (fun e => e.1.map tolower = (bytes name).map tolower) with
  | none =>
      -- the line has left an entry
      have hsome := lookup_headers (m := .empty) (Or.inr ⟨f, hfields, rfl⟩)
      rw [StringMap.lookup, Option.isSome_map, List.find?_isSome] at hsome
      obtain ⟨e, he, hkey⟩ := hsome
      have hnone := List.find?_eq_none.mp hfind e he
      rw [of_decide_eq_true hkey] at hnone
      exact absurd hname hnone
  | some e =>
      obtain ⟨g, hg, hvalue⟩ := exists_of_find hfind
      rw [h] at hg
      rw [List.mem_singleton.mp hg] at hvalue
      exact hvalue

theorem plain_of_nil (h : head.named "Transfer-Encoding" = []) : head.Plain := getHeader_of_nil h

/-- What the conversion does not read counts as no size. -/
theorem bodyLength_of_none
    (h : ∀ f ∈ head.named "Content-Length", stoul f.value 10 = none) : head.bodyLength = 0 := by
  rw [bodyLength, HttpRequest.getHeader]
  cases hfind : head.headers.entries.find?
      (fun e => e.1.map tolower = (bytes "Content-Length").map tolower) with
  | none => exact if_pos rfl
  | some e =>
      obtain ⟨f, hf, hvalue⟩ := exists_of_find hfind
      have hread : parseContentLength e.2 = 0 := by
        rw [hvalue, parseContentLength, h f hf]
        rfl
      change (if e.2 = [] then 0 else parseContentLength e.2) = 0
      rw [hread, ite_self]

/-- A decimal number in range announces so many bytes. -/
theorem bodyLength_of_numeral {f : HeaderLine} (h : head.named "Content-Length" = [f])
    (hnumeral : IsNumeral 10 f.value) (hfits : numeral 10 f.value < wordSize) :
    head.bodyLength = numeral 10 f.value := by
  have hread := stoul_numeral (t := []) hnumeral (by simp) (by omega)
  rw [List.append_nil, if_neg (by omega)] at hread
  rw [bodyLength, getHeader_of_singleton h, if_neg hnumeral.1, parseContentLength, hread]
  rfl

/-- **The request is framed by a size**: however its bytes come, there is no error, and it is
complete when so many bytes have come behind the head, with these for its body. -/
def FramedBy (head : RequestHead) (n : ℕ) : Prop :=
  ∀ (b : Bytes) (pieces : List Bytes), pieces.flatten <+: head.text ++ b →
    (feedAll feed {} pieces).hasError = false ∧
    ((feedAll feed {} pieces).isComplete = true ↔
      head.text.length + n ≤ pieces.flatten.length) ∧
    ((feedAll feed {} pieces).isComplete = true →
      (feedAll feed {} pieces).request = { head.request with body := b.take n })

theorem Plain.framedBy (h : head.Plain) : head.FramedBy head.bodyLength := by
  intro b pieces hpieces
  obtain ⟨herror, hiff, hcomplete⟩ := complete_iff h hpieces
  refine ⟨herror, hiff, fun hdone => ?_⟩
  have hlong := hiff.mp hdone
  obtain ⟨t, ht⟩ := hpieces
  -- the bytes behind the head are the body, and maybe more
  have hbody : (pieces.flatten.drop head.text.length).take head.bodyLength =
      b.take head.bodyLength := by
    have hdrop : pieces.flatten.drop head.text.length ++ t = b := by
      rw [← List.drop_append_of_le_length (by omega), ht, List.drop_left]
    rw [← hdrop, List.take_append_of_le_length]
    rw [List.length_drop]
    omega
  rw [hcomplete hdone, complete, hbody]

end RequestHead

/-- **The size of a body**, where there is no transfer encoding: a single decimal number in range
frames the request, and a value that the conversion does not read counts as none. A request is
framed in any case. -/
theorem framedBy_size (head : RequestHead) (h : head.named "Transfer-Encoding" = []) :
    (∀ f, head.named "Content-Length" = [f] → IsNumeral 10 f.value →
      numeral 10 f.value < wordSize → head.FramedBy (numeral 10 f.value)) ∧
    ((∀ f ∈ head.named "Content-Length", stoul f.value 10 = none) → head.FramedBy 0) ∧
    head.FramedBy head.bodyLength := by
  have hframed := (RequestHead.plain_of_nil h).framedBy
  refine ⟨fun f hf hnumeral hfits => ?_, fun hnone => ?_, hframed⟩
  · rw [← RequestHead.bodyLength_of_numeral hf hnumeral hfits]
    exact hframed
  · rw [← RequestHead.bodyLength_of_none hnone]
    exact hframed

/-- A header for the size. -/
def sizeLine : HeaderLine := ⟨bytes "CONTENT-length", bytes " 2 ", by decide, by decide⟩

/-- A request with a size. -/
def sizedHead : RequestHead where
  line := bytes "POST / HTTP/1.1"
  fields := [sizeLine]
  oneLine := by decide
  accepted := by decide

/-- A body of two bytes. -/
theorem sizedHead_framedBy : sizedHead.FramedBy 2 :=
  (framedBy_size sizedHead (by decide)).1 sizeLine rfl (by decide) (by decide)

/-- A size with a letter behind it. -/
def laxHead : RequestHead where
  line := bytes "POST / HTTP/1.1"
  fields := [⟨bytes "Content-Length", bytes " 2x", by decide, by decide⟩]
  oneLine := by decide
  accepted := by decide

/-- Two sizes. -/
def twoSizes : RequestHead where
  line := bytes "POST / HTTP/1.1"
  fields := [⟨bytes "content-length", bytes " 3", by decide, by decide⟩,
    ⟨bytes "Content-Length", bytes " 2", by decide, by decide⟩]
  oneLine := by decide
  accepted := by decide

/-- Neither of these requests is refused. -/
theorem lax_sizes_complete :
    (laxHead.named "Transfer-Encoding" = [] ∧
      (laxHead.named "Content-Length").map HeaderLine.value = [bytes "2x"] ∧
      stoul (bytes "2x") 10 = some 2 ∧ ¬IsNumeral 10 (bytes "2x") ∧
      (feed {} (laxHead.text ++ bytes "hi")).isComplete = true) ∧
    (twoSizes.named "Transfer-Encoding" = [] ∧
      (twoSizes.named "Content-Length").map HeaderLine.value = [bytes "3", bytes "2"] ∧
      (feed {} (twoSizes.text ++ bytes "hi")).isComplete = true) := by
  decide +kernel

end SimplyNode
