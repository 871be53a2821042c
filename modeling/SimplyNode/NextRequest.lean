import SimplyNode.RequestHeads

/-!
# The Bytes of the Next Request

A connection may carry one request behind the other, and a read need not end where a request does.
Whoever uses the parser feeds it what has come and takes a request out when one is complete
(`serve`). `parse` then starts afresh, with an empty buffer.

## Main results

* `serve_request`: the calls up to the end of a request give this request.
* `nextKept_iff`: **the bytes of the next request are kept** if and only if none of them came with
  the end of the first one.
-/

namespace SimplyNode

open Text Feed HttpRequestParser

/-! ### Requests of announced size -/

/-- A request whose headers say how long its body is. -/
structure SizedRequest where
  head : RequestHead
  body : Bytes
  noTransferEncoding : head.named "Transfer-Encoding" = []
  size : (head.named "Content-Length" = [] ∧ body = []) ∨
    ∃ f, head.named "Content-Length" = [f] ∧ IsNumeral 10 f.value ∧
      numeral 10 f.value = body.length ∧ body.length < wordSize

namespace SizedRequest

variable (r : SizedRequest)

/-- The bytes of the request. -/
def text : Bytes := r.head.text ++ r.body

/-- What is to be parsed. -/
def request : HttpRequest := { r.head.request with body := r.body }

theorem bodyLength_eq : r.head.bodyLength = r.body.length := by
  obtain ⟨hnone, hbody⟩ | ⟨f, hone, hnumeral, hvalue, hfits⟩ := r.size
  · rw [hbody]
    refine RequestHead.bodyLength_of_none fun f hf => ?_
    rw [hnone] at hf
    exact absurd hf List.not_mem_nil
  · rw [RequestHead.bodyLength_of_numeral hone hnumeral (hvalue ▸ hfits), hvalue]

theorem text_ne_nil : r.text ≠ [] := by
  rw [text, RequestHead.text]
  simp

/-- The parser on the bytes of a request, and bytes behind them. -/
theorem feedAll_text {pieces : List Bytes} {rest : Bytes}
    (h : pieces.flatten <+: r.text ++ rest) :
    ((feedAll feed {} pieces).isComplete = true ↔ r.text.length ≤ pieces.flatten.length) ∧
    ((feedAll feed {} pieces).isComplete = true →
      (feedAll feed {} pieces).request = r.request) := by
  rw [text, List.append_assoc] at h
  obtain ⟨-, hiff, hrequest⟩ :=
    (RequestHead.plain_of_nil r.noTransferEncoding).framedBy _ pieces h
  rw [bodyLength_eq] at hiff hrequest
  rw [List.take_left] at hrequest
  refine ⟨?_, hrequest⟩
  rw [hiff, text, List.length_append]

end SizedRequest

/-! ### Serving a connection -/

/-- **The loop over what is read**: each piece is fed, and a request that is complete is taken out.
-/
def serve (p : HttpRequestParser) : List Bytes → List HttpRequest
  | [] => []
  | piece :: pieces =>
      let p := p.feed piece
      if p.isComplete then p.parse.1 :: serve p.parse.2 pieces else serve p pieces

/-- **The bytes of the next request are kept**: both requests come out, if only with a call that
brings nothing, and the call that completes the first one leaves in the buffer what is behind it. -/
structure NextKept (r₁ r₂ : SizedRequest) (pieces : List Bytes) : Prop where
  served : serve {} (pieces ++ [[]]) = [r₁.request, r₂.request]
  kept : ∀ xs x ys, pieces = xs ++ x :: ys → (feedAll feed {} xs).isComplete = false →
    (feedAll feed {} (xs ++ [x])).isComplete = true →
      (feedAll feed {} (xs ++ [x])).parse.1 = r₁.request ∧
      (feedAll feed {} (xs ++ [x])).parse.2.buffer =
        (xs ++ [x]).flatten.drop r₁.text.length

/-- Pieces that complete nothing. -/
theorem serve_waiting {xs : List Bytes} {p : HttpRequestParser}
    (h : ∀ ws, ws <+: xs → ws ≠ [] → (feedAll feed p ws).isComplete = false) (ys : List Bytes) :
    serve p (xs ++ ys) = serve (feedAll feed p xs) ys := by
  induction xs generalizing p with
  | nil => rfl
  | cons x xs ih =>
      have hx : (p.feed x).isComplete = false :=
        h [x] ((List.prefix_append [x] xs)) (List.cons_ne_nil x [])
      rw [List.cons_append, serve, hx, if_neg Bool.false_ne_true, feedAll_cons]
      refine ih fun ws hws _ => h (x :: ws) ?_ (List.cons_ne_nil x ws)
      exact (List.prefix_cons_inj x).mpr hws

/-- Calls that bring nothing to a parser that starts afresh. -/
theorem serve_nothing {pieces : List Bytes} (h : pieces.flatten = []) : serve {} pieces = [] := by
  induction pieces with
  | nil => rfl
  | cons x xs ih =>
      rw [List.flatten_cons, List.append_eq_nil_iff] at h
      obtain ⟨rfl, hxs⟩ := h
      have hfeed : feed {} [] = {} := by decide +kernel
      rw [serve, hfeed]
      exact ih hxs

/-- The piece that brings the end of a text. -/
theorem exists_last_piece {pieces : List Bytes} {text rest : Bytes}
    (h : pieces.flatten = text ++ rest) (htext : text ≠ []) :
    ∃ xs x ys z, pieces = xs ++ x :: ys ∧ xs.flatten.length < text.length ∧
      (xs ++ [x]).flatten = text ++ z ∧ rest = z ++ ys.flatten := by
  induction pieces using List.reverseRecOn generalizing rest with
  | nil => exact absurd (List.append_eq_nil_iff.mp h.symm).1 htext
  | append_singleton xs x ih =>
      rw [List.flatten_append, List.flatten_singleton] at h
      by_cases hshort : xs.flatten.length < text.length
      · refine ⟨xs, x, [], rest, rfl, hshort, ?_, (List.append_nil rest).symm⟩
        rw [List.flatten_append, List.flatten_singleton, h]
      · have hstarts : text <+: xs.flatten :=
          List.prefix_of_prefix_length_le ⟨rest, h.symm⟩ (List.prefix_append _ x) (by omega)
        obtain ⟨later, hlater⟩ := hstarts
        obtain ⟨ws, w, ys, z, hxs, hws, hw, hz⟩ := ih hlater.symm
        refine ⟨ws, w, ys ++ [x], z, ?_, hws, hw, ?_⟩
        · rw [hxs, List.append_assoc, List.cons_append]
        · rw [← hlater, List.append_assoc, List.append_right_inj] at h
          rw [← h, hz, List.flatten_append, List.flatten_singleton, List.append_assoc]

/-- The text of a request is complete with its last piece, and not before. -/
theorem isComplete_last {r : SizedRequest} {xs ys : List Bytes} {x z rest : Bytes}
    (h : (xs ++ x :: ys).flatten = r.text ++ rest) (hshort : xs.flatten.length < r.text.length)
    (hx : (xs ++ [x]).flatten = r.text ++ z) :
    (∀ ws, ws <+: xs → (feedAll feed {} ws).isComplete = false) ∧
    (feedAll feed {} (xs ++ [x])).isComplete = true ∧
    (feedAll feed {} (xs ++ [x])).request = r.request := by
  have hstarts : ∀ ws : List Bytes, ws <+: xs ++ x :: ys → ws.flatten <+: r.text ++ rest := by
    rintro ws ⟨later, hlater⟩
    rw [← h, ← hlater, List.flatten_append]
    exact List.prefix_append _ _
  constructor
  · intro ws hws
    refine Bool.eq_false_iff.mpr fun hcomplete => ?_
    have htext := r.feedAll_text (hstarts ws (hws.trans (List.prefix_append _ _)))
    have hlong := htext.1.mp hcomplete
    obtain ⟨later, rfl⟩ := hws
    rw [List.flatten_append, List.length_append] at hshort
    omega
  · have hlast := r.feedAll_text (hstarts (xs ++ [x]) ⟨ys, by simp⟩)
    have hcomplete := hlast.1.mpr (by rw [hx, List.length_append]; omega)
    exact ⟨hcomplete, hlast.2 hcomplete⟩

/-- **The calls up to the end of a request** give this request, and the parser starts afresh. -/
theorem serve_request {r : SizedRequest} {pieces : List Bytes} {rest : Bytes}
    (h : pieces.flatten = r.text ++ rest) :
    ∃ xs x ys z, pieces = xs ++ x :: ys ∧ xs.flatten.length < r.text.length ∧
      (xs ++ [x]).flatten = r.text ++ z ∧ rest = z ++ ys.flatten ∧
      serve {} pieces = r.request :: serve {} ys := by
  obtain ⟨xs, x, ys, z, rfl, hshort, hx, hrest⟩ := exists_last_piece h r.text_ne_nil
  obtain ⟨hwaiting, hcomplete, hrequest⟩ := isComplete_last h hshort hx
  refine ⟨xs, x, ys, z, rfl, hshort, hx, hrest, ?_⟩
  rw [feedAll_append, feedAll_cons, feedAll_nil] at hcomplete hrequest
  rw [serve_waiting fun ws hws _ => hwaiting ws hws, serve, if_pos hcomplete, parse,
    if_pos hcomplete, hrequest]

/-- Where a text ends with a piece, the piece that brings its end brings nothing else. -/
theorem flatten_last_piece {ws vs xs ys : List Bytes} {x text : Bytes}
    (h : ws ++ vs = xs ++ x :: ys) (hws : ws.flatten = text)
    (hshort : xs.flatten.length < text.length)
    (hlong : text.length ≤ (xs ++ [x]).flatten.length) : (xs ++ [x]).flatten = text := by
  have hx : xs ++ [x] <+: ws ++ vs := ⟨ys, by rw [h, List.append_assoc, List.singleton_append]⟩
  obtain hstarts | ⟨later, hlater⟩ :=
    List.prefix_or_prefix_of_prefix (List.prefix_append ws vs) hx
  · obtain rfl | ⟨later, rfl⟩ := List.prefix_concat_iff.mp hstarts
    · exact hws
    · -- the text would have ended before the piece
      rw [List.flatten_append, hws, List.length_append] at hshort
      omega
  · have hstarts : (xs ++ [x]).flatten <+: text := by
      rw [← hws, ← hlater, (xs ++ [x]).flatten_append]
      exact List.prefix_append _ _
    exact hstarts.eq_of_length_le hlong

/-- **The bytes of the next request are kept** if and only if the first request ends where a piece
ends. -/
theorem nextKept_iff (r₁ r₂ : SizedRequest) (pieces : List Bytes)
    (h : pieces.flatten = r₁.text ++ r₂.text) :
    NextKept r₁ r₂ pieces ↔ ∃ xs ys, pieces = xs ++ ys ∧ xs.flatten = r₁.text := by
  constructor
  · intro hall
    obtain ⟨xs, x, ys, z, rfl, hshort, hx, -⟩ := exists_last_piece h r₁.text_ne_nil
    obtain ⟨hwaiting, hcomplete, -⟩ := isComplete_last h hshort hx
    obtain ⟨-, hbuffer⟩ := hall.kept xs x ys rfl (hwaiting xs List.prefix_rfl) hcomplete
    -- what is behind the first request is gone, so nothing was behind it
    rw [parse, if_pos hcomplete, hx, List.drop_left] at hbuffer
    refine ⟨xs ++ [x], ys, by simp, ?_⟩
    rw [hx, ← hbuffer, List.append_nil]
  · rintro ⟨ws, vs, rfl, hws⟩
    constructor
    · have hall : (ws ++ (vs ++ [[]])).flatten = r₁.text ++ r₂.text := by
        rw [← h]
        simp
      obtain ⟨xs, x, ys, z, hpieces, hshort, hx, hrest, hserve⟩ := serve_request hall
      have hend := flatten_last_piece hpieces hws hshort (by rw [hx, List.length_append]; omega)
      rw [hx, List.append_right_eq_self] at hend
      rw [hend, List.nil_append] at hrest
      have hlast : ys.flatten = r₂.text ++ [] := by rw [List.append_nil, hrest]
      obtain ⟨-, -, vs', z', -, -, -, hnothing, hserve'⟩ := serve_request hlast
      have hnil := (List.append_eq_nil_iff.mp hnothing.symm).2
      rw [List.append_assoc, hserve, hserve', serve_nothing hnil]
    · intro xs x ys hpieces hwaiting hcomplete
      have hstarts : ∀ us later : List Bytes, us ++ later = xs ++ x :: ys →
          us.flatten <+: r₁.text ++ r₂.text := by
        intro us later hus
        rw [← h, hpieces, ← hus, List.flatten_append]
        exact List.prefix_append _ _
      have hbefore := r₁.feedAll_text (hstarts xs _ rfl)
      have hbehind := r₁.feedAll_text (hstarts (xs ++ [x]) ys (by simp))
      have hshort : xs.flatten.length < r₁.text.length := by
        rw [hwaiting] at hbefore
        have := mt hbefore.1.mpr Bool.false_ne_true
        omega
      have hend := flatten_last_piece hpieces hws hshort (hbehind.1.mp hcomplete)
      rw [parse, if_pos hcomplete, hend, List.drop_length]
      exact ⟨hbehind.2 hcomplete, rfl⟩

/-- A request without headers. -/
def getRequest (line : String) (honeLine : nextLine (bytes line) = none)
    (haccepted : isRequestLine (bytes line) = true) : SizedRequest where
  head := ⟨bytes line, [], honeLine, haccepted⟩
  body := []
  noTransferEncoding := rfl
  size := Or.inl ⟨rfl, rfl⟩

/-- Two requests in three calls: the second call ends with the first request. -/
theorem kept_apart :
    NextKept (getRequest "GET /first HTTP/1.1" (by decide) (by decide))
      (getRequest "GET /second HTTP/1.1" (by decide) (by decide))
      [bytes "GET /fir", bytes "st HTTP/1.1\r\n\r\n", bytes "GET /second HTTP/1.1\r\n\r\n"] :=
  (nextKept_iff _ _ _ (by decide)).mpr
    ⟨[bytes "GET /fir", bytes "st HTTP/1.1\r\n\r\n"],
      [bytes "GET /second HTTP/1.1\r\n\r\n"], rfl, by decide⟩

/-- Two requests in one call: the second one is gone. -/
theorem second_request_lost :
    ¬NextKept (getRequest "GET /first HTTP/1.1" (by decide) (by decide))
      (getRequest "GET /second HTTP/1.1" (by decide) (by decide))
      [bytes "GET /first HTTP/1.1\r\n\r\nGET /second HTTP/1.1\r\n\r\n"] := by
  intro h
  exact absurd h.served (by decide +kernel)

end SimplyNode
