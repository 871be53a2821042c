import SimplyNode.HttpRequestParser
import SimplyNode.Lib.Feed

/-!
# Requests That Arrive in Pieces

Whether the parser ends on the pieces of a stream as it would have ended on the whole stream.
The request line, the headers and a body of announced length may be cut anywhere. A chunk may
not: its size line is taken from the buffer as soon as it is there, and when the data is not,
the next call reads the data as a size line.

The layout of a stream is defined on its bytes alone: `chunkedBody` is what stands behind the
head of a request that announces chunks, and `insideChunk` says that such a body ends inside a
chunk, behind its size line and before the last of its bytes and their line end. Everything
behind a size of `2 ^ 64 - 2` or more counts as inside, since `chunkSize + 2` is no longer
computed in full.

## Main results

* `feed_resumes`: a cut that is not inside a chunk goes unnoticed, whatever follows.
* `feedAll_outcome_iff`: pieces cut outside the chunks give the outcome of the whole stream;
  and a stream that completes a request at once may be cut anywhere exactly when it never
  enters a chunk.
-/

namespace SimplyNode

open Text Feed

namespace HttpRequestParser

/-! ### The layout of a stream -/

/-- Whether the bytes of a chunked body end inside a chunk. -/
def insideChunk (b : Bytes) : Bool :=
  match _h : nextLine b with
  | none => false
  | some (line, rest) =>
      match stoul line 16 with
      | none => false
      | some n =>
          if n = 0 then false
          else if rest.length < n + 2 ∨ wordSize ≤ n + 2 then true
          else insideChunk (rest.drop (n + 2))
termination_by b.length
decreasing_by
  have := length_of_nextLine _h
  rw [List.length_drop]
  omega

/-- What stands behind the header lines `b`, when they are complete and, with the headers
before them, announce chunks. -/
def chunkedHeaders (headers : StringMap) (b : Bytes) : Option Bytes :=
  match _h : nextLine b with
  | none => none
  | some (line, rest) =>
      if line = [] then if announcesChunks headers then some rest else none
      else
        match headerField line with
        | none => none
        | some (key, value) => chunkedHeaders (headers.insertOrAssign key value) rest
termination_by b.length
decreasing_by exact length_of_nextLine _h

/-- A request line the parser accepts. -/
def isRequestLine (line : Bytes) : Bool :=
  match requestLineWords line with
  | none => false
  | some (_, _, protocol) => isSupported protocol

/-- The body of a chunked request, when the stream has come to it. -/
def chunkedBody (stream : Bytes) : Option Bytes :=
  match nextLine stream with
  | none => none
  | some (line, rest) => if isRequestLine line then chunkedHeaders .empty rest else none

/-- The stream ends inside a chunk of its request. -/
def EndsInsideChunk (stream : Bytes) : Prop := ∃ b, chunkedBody stream = some b ∧ insideChunk b

/-- Whether a stream ends inside a chunk can be computed. -/
instance : DecidablePred EndsInsideChunk := fun stream =>
  decidable_of_iff ((chunkedBody stream).any insideChunk = true) (Option.any_eq_true _ _)

/-- No two consecutive pieces meet inside a chunk. -/
def CutsOutsideChunks (pieces : List Bytes) : Prop :=
  ∀ xs ys, pieces = xs ++ ys → xs ≠ [] → ys ≠ [] → ¬ EndsInsideChunk xs.flatten

/-- A size line that announces data: the buffer ends inside that chunk, or the next one
decides. -/
theorem insideChunk_next {b line rest : Bytes} {n : ℕ} (h : nextLine b = some (line, rest))
    (hsize : stoul line 16 = some n) (hn : n ≠ 0) :
    insideChunk b = true ↔ rest.length < n + 2 ∨ wordSize ≤ n + 2 ∨
      insideChunk (rest.drop (n + 2)) = true := by
  rw [insideChunk]
  split
  · simp_all
  · split
    · simp_all
    · simp_all [or_assoc]

/-- A chunk of a size that can be counted takes its bytes and two more. -/
theorem chunkSpan_of_lt {n : ℕ} (h : n + 2 < wordSize) : chunkSpan n = n + 2 :=
  Nat.mod_eq_of_lt h

/-- A buffer that is inside no chunk starts with a chunk that fits, where it starts with one. -/
theorem of_insideChunk_eq_false {b line rest : Bytes} {n : ℕ}
    (h : nextLine b = some (line, rest)) (hsize : stoul line 16 = some n) (hn : n ≠ 0)
    (hcut : insideChunk b = false) :
    n + 2 ≤ rest.length ∧ chunkSpan n = n + 2 ∧ insideChunk (rest.drop (n + 2)) = false := by
  have hnext := not_congr (insideChunk_next h hsize hn)
  rw [Bool.not_eq_true, iff_true_left hcut] at hnext
  push Not at hnext
  obtain ⟨hfits, hword, hrest⟩ := hnext
  exact ⟨hfits, chunkSpan_of_lt hword, Bool.eq_false_iff.mpr hrest⟩

/-- A body that ends inside a chunk starts with a size line other than 0. -/
theorem exists_size_of_insideChunk {b : Bytes} (h : insideChunk b = true) :
    ∃ line rest n, nextLine b = some (line, rest) ∧ stoul line 16 = some n ∧ n ≠ 0 := by
  rw [insideChunk] at h
  split at h
  · cases h
  · rename_i line rest hline
    split at h
    · cases h
    · rename_i n hsize
      split at h
      · cases h
      · exact ⟨line, rest, n, hline, hsize, ‹_›⟩

/-! ### What is observed -/

/-- What a caller sees of a parser. -/
structure Outcome where
  isComplete : Bool
  hasError : Bool
  error : String
  request : HttpRequest
  deriving DecidableEq

/-- `isComplete()`, `hasError()`, `error()` and the request of `parse()`. -/
def outcome (p : HttpRequestParser) : Outcome :=
  ⟨p.isComplete, p.hasError, p.error, p.parse.1⟩

/-- Equal parsers, and parsers that have failed with one message: they no longer look at the
bytes that arrive. -/
def Same (p q : HttpRequestParser) : Prop :=
  p = q ∨ p.state = .error ∧ q.state = .error ∧ p.errorMessage = q.errorMessage

/-- To be the same is an equivalence. -/
theorem same_equivalence : Equivalence Same where
  refl _ := Or.inl rfl
  symm h := h.imp Eq.symm fun h => ⟨h.2.1, h.1, h.2.2.symm⟩
  trans := by
    rintro p q r (rfl | ⟨hp, hq, hpq⟩) (rfl | ⟨hq', hr, hqr⟩)
    · exact Or.inl rfl
    · exact Or.inr ⟨hq', hr, hqr⟩
    · exact Or.inr ⟨hp, hq, hpq⟩
    · exact Or.inr ⟨hp, hr, hpq.trans hqr⟩

/-- The same parsers tell the program the same. -/
theorem Same.outcome_eq {p q : HttpRequestParser} (h : Same p q) : p.outcome = q.outcome := by
  rcases h with rfl | ⟨hp, hq, hmessage⟩
  · rfl
  · simp only [outcome, isComplete, hasError, error, parse, hp, hq, hmessage, reduceCtorEq,
      decide_false, Bool.false_eq_true, if_false]

/-- A parser that has failed reads nothing. -/
theorem feed_of_error {p : HttpRequestParser} (hp : p.state = .error) (b : Bytes) :
    p.feed b = p :=
  if_pos (decide_eq_true hp)

/-- Any other parser takes the bytes and goes on. -/
theorem feed_of_ne {p : HttpRequestParser} (hp : p.state ≠ .error) (b : Bytes) :
    p.feed b = (p.push b).advance :=
  if_neg (by rw [hasError_of_state hp]; decide)

/-- The same parsers stay the same under the same bytes. -/
theorem Same.feed {p q : HttpRequestParser} (h : Same p q) (b : Bytes) :
    Same (p.feed b) (q.feed b) := by
  rcases h with rfl | ⟨hp, hq, hmessage⟩
  · exact Or.inl rfl
  · rw [feed_of_error hp, feed_of_error hq]
    exact Or.inr ⟨hp, hq, hmessage⟩

/-! ### Interrupting a body -/

/-- The chunk loop may be interrupted where the buffer does not end inside a chunk. -/
theorem parseChunks_interrupted {p : HttpRequestParser} (hp : p.state = .body)
    (hchunked : p.isChunked = true) (hcut : insideChunk p.buffer = false) (t : Bytes) :
    (p.parseChunks.push t).advanceBody = (p.push t).parseChunks := by
  induction p using parseChunks.induct with
  | case1 p hline =>
      have hpt : (p.push t).state = .body := hp
      have hct : (p.push t).isChunked = true := hchunked
      rw [parseChunks_wait hline, advanceBody_of_state hpt, parseBody, if_pos hct]
  | case2 p line rest hline hsize =>
      have hlater : nextLine (p.push t).buffer = some (line, rest ++ t) := nextLine_append hline t
      rw [parseChunks_fail hline hsize, parseChunks_fail hlater hsize, advanceBody_of_ne]
      · rfl
      · exact ParserState.noConfusion
  | case3 p line rest hline hsize =>
      have hlater : nextLine (p.push t).buffer = some (line, rest ++ t) := nextLine_append hline t
      rw [parseChunks_last hline hsize, parseChunks_last hlater hsize, advanceBody_of_ne]
      · rfl
      · exact ParserState.noConfusion
  | case4 p line rest hline n hsize hn hshort =>
      obtain ⟨hfits, hspan, -⟩ := of_insideChunk_eq_false hline hsize hn hcut
      rw [hspan] at hshort
      omega
  | case5 p line rest hline n hsize hn hfits ih =>
      have hlater : nextLine (p.push t).buffer = some (line, rest ++ t) := nextLine_append hline t
      obtain ⟨hdata, hspan, hnext⟩ := of_insideChunk_eq_false hline hsize hn hcut
      have hfits' : ¬ (rest ++ t).length < chunkSpan n := by
        rw [List.length_append]
        omega
      have htake : (rest ++ t).take n = rest.take n := List.take_append_of_le_length (by omega)
      have hdrop : (rest ++ t).drop (n + 2) = rest.drop (n + 2) ++ t :=
        List.drop_append_of_le_length hdata
      rw [hspan] at ih
      rw [parseChunks_next hline hsize hn hfits, parseChunks_next hlater hsize hn hfits', htake,
        hspan, hdrop]
      exact ih hp hchunked hnext

/-- A body may be interrupted where the buffer does not end inside a chunk. -/
theorem advanceBody_interrupted {p : HttpRequestParser}
    (hcut : p.state = .body → p.isChunked = true → insideChunk p.buffer = false) (t : Bytes) :
    (p.advanceBody.push t).advanceBody = (p.push t).advanceBody := by
  by_cases hp : p.state = .body
  · have hpt : (p.push t).state = .body := hp
    rw [advanceBody_of_state hp, advanceBody_of_state hpt]
    cases hchunked : p.isChunked with
    | true =>
        have hct : (p.push t).isChunked = true := hchunked
        rw [parseBody, if_pos hchunked, parseBody, if_pos hct]
        exact parseChunks_interrupted hp hchunked (hcut hp hchunked) t
    | false =>
        have hct : (p.push t).isChunked = false := hchunked
        rw [parseBody, hchunked, parseBody, hct, if_neg Bool.false_ne_true,
          if_neg Bool.false_ne_true]
        exact parseSizedBody_interrupted hp hchunked t
  · rw [advanceBody_of_ne hp]

/-! ### The head of a stream -/

/-- Where no line is complete the headers are not. -/
theorem chunkedHeaders_none {headers : StringMap} {b : Bytes} (h : nextLine b = none) :
    chunkedHeaders headers b = none := by
  rw [chunkedHeaders]
  split <;> simp_all

/-- An empty line ends the headers. -/
theorem chunkedHeaders_end {headers : StringMap} {b rest : Bytes}
    (h : nextLine b = some ([], rest)) :
    chunkedHeaders headers b = if announcesChunks headers then some rest else none := by
  rw [chunkedHeaders]
  split <;> simp_all

/-- A line that is no header announces nothing. -/
theorem chunkedHeaders_fail {headers : StringMap} {b line rest : Bytes}
    (h : nextLine b = some (line, rest)) (hline : line ≠ [])
    (hfield : headerField line = none) : chunkedHeaders headers b = none := by
  rw [chunkedHeaders]
  split <;> simp_all

/-- A header is added to those before it. -/
theorem chunkedHeaders_next {headers : StringMap} {b line rest key value : Bytes}
    (h : nextLine b = some (line, rest)) (hline : line ≠ [])
    (hfield : headerField line = some (key, value)) :
    chunkedHeaders headers b = chunkedHeaders (headers.insertOrAssign key value) rest := by
  rw [chunkedHeaders]
  split <;> simp_all

/-- Bytes behind the head belong to the body. -/
theorem chunkedHeaders_append {headers : StringMap} {b r : Bytes}
    (h : chunkedHeaders headers b = some r) (t : Bytes) :
    chunkedHeaders headers (b ++ t) = some (r ++ t) := by
  induction headers, b using chunkedHeaders.induct with
  | case1 headers b hline => rw [chunkedHeaders_none hline] at h; cases h
  | case2 headers b rest hannounced hline =>
      rw [chunkedHeaders_end hline, if_pos hannounced, Option.some.injEq] at h
      rw [chunkedHeaders_end (nextLine_append hline t), if_pos hannounced, h]
  | case3 headers b rest hannounced hline =>
      rw [chunkedHeaders_end hline, if_neg hannounced] at h
      cases h
  | case4 headers b line rest hline hne hfield =>
      rw [chunkedHeaders_fail hline hne hfield] at h
      cases h
  | case5 headers b line rest hline hne key value hfield ih =>
      rw [chunkedHeaders_next hline hne hfield] at h
      rw [chunkedHeaders_next (nextLine_append hline t) hne hfield]
      exact ih h

/-- The head alone has come to its body. -/
theorem chunkedHeaders_cut {headers : StringMap} {b r : Bytes}
    (h : chunkedHeaders headers b = some r) :
    ∃ head, b = head ++ r ∧ chunkedHeaders headers head = some [] := by
  induction headers, b using chunkedHeaders.induct with
  | case1 headers b hline => rw [chunkedHeaders_none hline] at h; cases h
  | case2 headers b rest hannounced hline =>
      rw [chunkedHeaders_end hline, if_pos hannounced, Option.some.injEq] at h
      refine ⟨[] ++ [13, 10], h ▸ nextLine_eq_append hline, ?_⟩
      rw [chunkedHeaders_end (nextLine_cut hline), if_pos hannounced]
  | case3 headers b rest hannounced hline =>
      rw [chunkedHeaders_end hline, if_neg hannounced] at h
      cases h
  | case4 headers b line rest hline hne hfield =>
      rw [chunkedHeaders_fail hline hne hfield] at h
      cases h
  | case5 headers b line rest hline hne key value hfield ih =>
      rw [chunkedHeaders_next hline hne hfield] at h
      obtain ⟨head, rfl, hhead⟩ := ih h
      refine ⟨line ++ [13, 10] ++ head, ?_, ?_⟩
      · rw [nextLine_eq_append hline]
        simp
      · rw [chunkedHeaders_next (nextLine_append (nextLine_cut hline) head) hne hfield]
        exact hhead

/-- More bytes stand at the end of the body. -/
theorem chunkedBody_append {a r : Bytes} (h : chunkedBody a = some r) (t : Bytes) :
    chunkedBody (a ++ t) = some (r ++ t) := by
  rw [chunkedBody] at h
  split at h
  · cases h
  · rename_i line rest hline
    split at h
    · rename_i haccepted
      rw [chunkedBody, nextLine_append hline t]
      dsimp only
      rw [if_pos haccepted]
      exact chunkedHeaders_append h t
    · cases h

/-- The head of a chunked request can be cut off. -/
theorem chunkedBody_cut {a r : Bytes} (h : chunkedBody a = some r) :
    ∃ head, a = head ++ r ∧ chunkedBody head = some [] := by
  rw [chunkedBody] at h
  split at h
  · cases h
  · rename_i line rest hline
    split at h
    · rename_i haccepted
      obtain ⟨head, rfl, hhead⟩ := chunkedHeaders_cut h
      refine ⟨line ++ [13, 10] ++ head, ?_, ?_⟩
      · rw [nextLine_eq_append hline]
        simp
      · rw [chunkedBody, nextLine_append (nextLine_cut hline) head]
        dsimp only
        rw [if_pos haccepted]
        exact hhead
    · cases h

/-- No part of a head ends inside a chunk. -/
theorem not_endsInsideChunk_of_head {head a t : Bytes} (hhead : chunkedBody head = some [])
    (ha : head = a ++ t) : ¬ EndsInsideChunk a := by
  rintro ⟨b, hb, hinside⟩
  have hall := chunkedBody_append hb t
  rw [← ha, hhead, Option.some.injEq] at hall
  obtain ⟨rfl, -⟩ := List.append_eq_nil_iff.mp hall.symm
  obtain ⟨line, rest, n, hline, -⟩ := exists_size_of_insideChunk hinside
  cases hline

/-- The parser is at a chunked body with the bytes `b` of it in the buffer. -/
def AtChunks (p : HttpRequestParser) (b : Bytes) : Prop :=
  p.state = .body ∧ p.isChunked = true ∧ p.buffer = b

/-- Behind the blank line the parser is at a chunked body exactly when the headers announce
one. -/
theorem endHeaders_atChunks {p : HttpRequestParser} (hchunked : p.isChunked = false) (b : Bytes) :
    AtChunks p.endHeaders b ↔ announcesChunks p.request.headers = true ∧ p.buffer = b := by
  cases hannounced : announcesChunks p.request.headers with
  | true =>
      have hheader : HttpRequest.getHeader p.request.headers (bytes "Transfer-Encoding") ≠ [] := by
        intro hnil
        rw [announcesChunks, hnil] at hannounced
        exact absurd hannounced (by decide)
      rw [announcesChunks] at hannounced
      simp [AtChunks, endHeaders, announceBody, hheader, hannounced]
  | false =>
      rw [announcesChunks] at hannounced
      have hsized : p.announceBody.isChunked = false := by
        simp only [announceBody, hannounced, Bool.false_eq_true, if_false]
        split_ifs <;> exact hchunked
      have hstays : p.endHeaders.isChunked = false := by
        rw [endHeaders]
        split_ifs <;> exact hsized
      simp [AtChunks, hstays]

/-- The header stage ends at a chunked body exactly when the stream has come to one. -/
theorem parseHeaders_atChunks {p : HttpRequestParser} (hp : p.state = .headers)
    (hchunked : p.isChunked = false) (b : Bytes) :
    AtChunks p.parseHeaders b ↔ chunkedHeaders p.request.headers p.buffer = some b := by
  induction p using parseHeaders.induct with
  | case1 p hline =>
      rw [parseHeaders_wait hline, chunkedHeaders_none hline]
      simp [AtChunks, hp]
  | case2 p rest hline =>
      rw [parseHeaders_end hline, chunkedHeaders_end hline,
        endHeaders_atChunks (p := p.setBuffer rest) hchunked]
      simp [setBuffer]
  | case3 p line rest hline hne hfield =>
      rw [parseHeaders_fail hline hne hfield, chunkedHeaders_fail hline hne hfield]
      simp [AtChunks, fail]
  | case4 p line rest hline hne key value hfield ih =>
      rw [parseHeaders_next hline hne hfield, chunkedHeaders_next hline hne hfield]
      exact ih hp hchunked

/-- The header stage reads nothing of the body. -/
theorem parseHeaders_body (p : HttpRequestParser) :
    p.parseHeaders.request.body = p.request.body := by
  induction p using parseHeaders.induct with
  | case1 p hline => rw [parseHeaders_wait hline]
  | case2 p rest hline =>
      rw [parseHeaders_end hline, endHeaders, announceBody]
      split_ifs <;> rfl
  | case3 p line rest hline hne hfield =>
      rw [parseHeaders_fail hline hne hfield]
      rfl
  | case4 p line rest hline hne key value hfield ih =>
      rw [parseHeaders_next hline hne hfield, ih]
      rfl

/-- A fresh parser with the bytes of a stream, behind the head. -/
def afterHead (stream : Bytes) : HttpRequestParser :=
  (({} : HttpRequestParser).push stream).advanceRequestLine.advanceHeaders

/-- A new parser reads the head and goes on with the body. -/
theorem feed_fresh (stream : Bytes) :
    feed {} stream = (afterHead stream).advanceBody :=
  feed_of_ne ParserState.noConfusion stream

/-- The request line is accepted or the parser fails. -/
theorem readRequestLine_headers (p : HttpRequestParser) (line : Bytes) :
    (p.readRequestLine line).state = .headers ↔ isRequestLine line = true := by
  rw [readRequestLine, isRequestLine]
  cases requestLineWords line with
  | none => simp [fail]
  | some words =>
      dsimp only
      cases isSupported words.2.2 <;> simp [fail]

/-- What the request line leaves alone. -/
theorem readRequestLine_frame (p : HttpRequestParser) (line : Bytes) :
    (p.readRequestLine line).isChunked = p.isChunked ∧
      (p.readRequestLine line).buffer = p.buffer ∧
      (p.readRequestLine line).request.headers = p.request.headers ∧
      (p.readRequestLine line).request.body = p.request.body := by
  rw [readRequestLine]
  cases requestLineWords line with
  | none => exact ⟨rfl, rfl, rfl, rfl⟩
  | some words =>
      have htarget : (setTarget p.request words.1 words.2.1).headers = p.request.headers ∧
          (setTarget p.request words.1 words.2.1).body = p.request.body := by
        rw [setTarget]
        split <;> exact ⟨rfl, rfl⟩
      dsimp only
      split <;> exact ⟨rfl, rfl, htarget⟩

/-- **The layout and the parser.** A fresh parser comes to a chunked body exactly where the
layout of the stream says, and has read nothing of the body then. -/
theorem afterHead_atChunks (stream b : Bytes) :
    ((afterHead stream).AtChunks b ↔ chunkedBody stream = some b) ∧
      (afterHead stream).request.body = [] := by
  have hfresh : (({} : HttpRequestParser).push stream).advanceRequestLine
      = (({} : HttpRequestParser).push stream).parseRequestLine := if_pos rfl
  have hbuffer : (({} : HttpRequestParser).push stream).buffer = stream := rfl
  rw [afterHead, hfresh, parseRequestLine, hbuffer, chunkedBody]
  cases hline : nextLine stream with
  | none =>
      rw [advanceHeaders_of_ne (show ParserState.requestLine ≠ .headers by decide)]
      simp [AtChunks, push]
  | some found =>
      obtain ⟨line, rest⟩ := found
      dsimp only
      set q := ((({} : HttpRequestParser).push stream).setBuffer rest).readRequestLine line with hq
      obtain ⟨hchunked, hrest, hheaders, hbody⟩ :=
        readRequestLine_frame ((({} : HttpRequestParser).push stream).setBuffer rest) line
      have haccepted := readRequestLine_headers
        ((({} : HttpRequestParser).push stream).setBuffer rest) line
      rw [← hq] at hchunked hrest hheaders hbody haccepted
      by_cases hstate : q.state = .headers
      · rw [advanceHeaders_of_state hstate, if_pos (haccepted.mp hstate),
          parseHeaders_atChunks hstate hchunked, hheaders, hrest, parseHeaders_body, hbody]
        exact ⟨Iff.rfl, rfl⟩
      · have herror : q.state = .error := by
          have := readRequestLine_state ((({} : HttpRequestParser).push stream).setBuffer rest) line
          exact this.resolve_left hstate
        rw [advanceHeaders_of_ne hstate, if_neg (mt haccepted.mpr hstate)]
        simp [AtChunks, herror, hbody, push, setBuffer]

/-- **A cut outside the chunks goes unnoticed**, whatever follows. -/
theorem feed_resumes {a : Bytes} (hcut : ¬ EndsInsideChunk a) : Resumes feed Same {} a := by
  have hbody : (afterHead a).state = .body → (afterHead a).isChunked = true →
      insideChunk (afterHead a).buffer = false := by
    intro hstate hchunked
    have hlayout := (afterHead_atChunks a (afterHead a).buffer).1.mp ⟨hstate, hchunked, rfl⟩
    exact Bool.eq_false_iff.mpr fun hinside => hcut ⟨_, hlayout, hinside⟩
  change Resumes (buffered push advance fun p => p.hasError = true) Same {} a
  refine Resumes.of_append same_equivalence push_push ?_ fun b => ?_
  · intro p b hp
    have herror : p.state = .error := of_decide_eq_true hp
    have hstays : (p.push b).advance = p.push b := by
      have hpush : (p.push b).state = .error := herror
      rw [advance, advanceRequestLine_of_ne (by rw [hpush]; decide),
        advanceHeaders_of_ne (by rw [hpush]; decide), advanceBody_of_ne (by rw [hpush]; decide)]
    rw [hstays]
    exact Or.inr ⟨herror, herror, rfl⟩
  · exact advance_interrupted (advanceBody_interrupted hbody b)

/-- Pieces that meet outside the chunks give what the whole stream gives. -/
theorem feedAll_same {pieces : List Bytes} (hcuts : CutsOutsideChunks pieces) :
    Same (feedAll feed {} pieces) (feed {} pieces.flatten) := by
  refine feedAll_related same_equivalence (fun _ _ b h => h.feed b) ?_
    fun xs ys hpieces hxs hys => feed_resumes (hcuts xs ys hpieces hxs hys)
  exact Or.inl (by decide +kernel)

/-! ### A stream cut at every byte -/

/-- The bytes of a stream, each a piece of its own. -/
theorem flatten_bytes (s : Bytes) : (s.map fun c => [c]).flatten = s := by
  rw [← List.flatMap_def]
  exact List.flatMap_singleton' s

/-- A chunked body of which nothing was read and no line is waiting. -/
def Starved (p : HttpRequestParser) : Prop :=
  p.isChunked = true ∧ p.request.body = [] ∧ p.state ≠ .requestLine ∧ p.state ≠ .headers ∧
    (p.state = .body → nextLine p.buffer = none)

/-- **Byte by byte no chunk is read.** A size line completes with its last byte, when none of
its data is there, and is gone with the next byte. -/
theorem Starved.feed_byte {p : HttpRequestParser} (h : Starved p) (c : UInt8) :
    Starved (p.feed [c]) := by
  obtain ⟨hchunked, hbody, hline, hheaders, hwaits⟩ := h
  by_cases herror : p.state = .error
  · rw [feed_of_error herror]
    exact ⟨hchunked, hbody, hline, hheaders, hwaits⟩
  rw [feed_of_ne herror, advance, advanceRequestLine_of_ne (by exact hline),
    advanceHeaders_of_ne (by exact hheaders)]
  by_cases hp : p.state = .body
  · have hpt : (p.push [c]).state = .body := hp
    have hct : (p.push [c]).isChunked = true := hchunked
    rw [advanceBody_of_state hpt, parseBody, if_pos hct]
    cases hfound : nextLine (p.push [c]).buffer with
    | none =>
        rw [parseChunks_wait hfound]
        exact ⟨hchunked, hbody, hline, hheaders, fun _ => hfound⟩
    | some found =>
        obtain ⟨line, rest⟩ := found
        obtain rfl : rest = [] := nextLine_snoc (hwaits hp) hfound
        cases hsize : stoul line 16 with
        | none =>
            rw [parseChunks_fail hfound hsize]
            exact ⟨hchunked, hbody, ParserState.noConfusion, ParserState.noConfusion,
              ParserState.noConfusion⟩
        | some n =>
            by_cases hn : n = 0
            · rw [hn] at hsize
              rw [parseChunks_last hfound hsize]
              exact ⟨hchunked, hbody, ParserState.noConfusion, ParserState.noConfusion,
                ParserState.noConfusion⟩
            · by_cases hshort : ([] : Bytes).length < chunkSpan n
              · rw [parseChunks_short hfound hsize hn hshort]
                exact ⟨hchunked, hbody, hline, hheaders, fun _ => rfl⟩
              · -- the size of the chunk and its line end wrapped to 0
                rw [parseChunks_next hfound hsize hn hshort, List.take_nil, List.drop_nil,
                  parseChunks_wait rfl]
                refine ⟨hchunked, ?_, hline, hheaders, fun _ => rfl⟩
                change p.request.body ++ [] = []
                rw [hbody, List.append_nil]
  · have hpt : (p.push [c]).state ≠ .body := hp
    rw [advanceBody_of_ne hpt]
    exact ⟨hchunked, hbody, hline, hheaders, fun hstate => absurd hstate hp⟩

/-- Byte by byte a starved parser stays starved. -/
theorem Starved.feedAll_bytes {p : HttpRequestParser} (h : Starved p) (s : Bytes) :
    Starved (feedAll feed p (s.map fun c => [c])) := by
  induction s generalizing p with
  | nil => exact h
  | cons c s ih => exact ih (h.feed_byte c)

/-! ### A stream read at once -/

/-- The chunks only add to the body. -/
theorem parseChunks_body (p : HttpRequestParser) :
    p.request.body <+: p.parseChunks.request.body := by
  induction p using parseChunks.induct with
  | case1 p hline => rw [parseChunks_wait hline]
  | case2 p line rest hline hsize =>
      rw [parseChunks_fail hline hsize]
      exact List.prefix_rfl
  | case3 p line rest hline hsize =>
      rw [parseChunks_last hline hsize]
      exact List.prefix_rfl
  | case4 p line rest hline n hsize hn hshort =>
      rw [parseChunks_short hline hsize hn hshort]
      exact List.prefix_rfl
  | case5 p line rest hline n hsize hn hfits ih =>
      rw [parseChunks_next hline hsize hn hfits]
      exact (List.prefix_append _ _).trans ih

/-- Chunks that announce data and come to an end leave data in the body. -/
theorem parseChunks_body_ne_nil {p : HttpRequestParser} {b t : Bytes} (hp : p.state = .body)
    (hbuffer : p.buffer = b ++ t) (hinside : insideChunk b = true)
    (hcomplete : p.parseChunks.state = .complete) : p.parseChunks.request.body ≠ [] := by
  obtain ⟨line, rest, n, hline, hsize, hn⟩ := exists_size_of_insideChunk hinside
  have hlater : nextLine p.buffer = some (line, rest ++ t) := by
    rw [hbuffer]
    exact nextLine_append hline t
  by_cases hshort : (rest ++ t).length < chunkSpan n
  · rw [parseChunks_short hlater hsize hn hshort] at hcomplete
    exact absurd (hp.symm.trans hcomplete) (by decide)
  · rw [parseChunks_next hlater hsize hn hshort] at hcomplete ⊢
    cases hdata : rest ++ t with
    | nil =>
        -- without data the loop waits for another size line
        rw [hdata, List.take_nil, List.drop_nil, parseChunks_wait rfl] at hcomplete
        exact absurd (hp.symm.trans hcomplete) (by decide)
    | cons c data =>
        have hprefix := parseChunks_body
          ((p.addBody ((c :: data).take n)).setBuffer ((c :: data).drop (chunkSpan n)))
        have hfirst : p.request.body ++ (c :: data).take n ≠ [] := by
          obtain ⟨m, rfl⟩ := Nat.exists_eq_succ_of_ne_zero hn
          rw [List.take_succ_cons]
          exact List.append_ne_nil_of_right_ne_nil _ (List.cons_ne_nil _ _)
        intro hnil
        rw [hnil] at hprefix
        exact hfirst (List.prefix_nil.mp hprefix)

/-- Behind the head of a chunked request the parser is at its chunks. -/
theorem feed_of_chunkedBody {stream b : Bytes} (h : chunkedBody stream = some b) :
    ∃ p, AtChunks p b ∧ p.request.body = [] ∧ feed {} stream = p.parseChunks := by
  obtain ⟨hlayout, hbody⟩ := afterHead_atChunks stream b
  have hat := hlayout.mpr h
  refine ⟨afterHead stream, hat, hbody, ?_⟩
  rw [feed_fresh, advanceBody_of_state hat.1, parseBody, if_pos hat.2.1]

/-- **A stream with a chunk of data cannot be cut everywhere.** When the whole stream
completes a request, the same bytes one by one leave the body empty. -/
theorem feedAll_bytes_outcome_ne {a t : Bytes} (hinside : EndsInsideChunk a)
    (hcomplete : (feed {} (a ++ t)).isComplete = true) :
    (feedAll feed {} ((a ++ t).map fun c => [c])).outcome ≠ (feed {} (a ++ t)).outcome := by
  obtain ⟨b, hb, hinside⟩ := hinside
  -- at once: the body holds data
  obtain ⟨p, ⟨hp, -, hbuffer⟩, -, hfeed⟩ := feed_of_chunkedBody (chunkedBody_append hb t)
  have hstate : (feed {} (a ++ t)).state = .complete := of_decide_eq_true hcomplete
  have hdata : (feed {} (a ++ t)).request.body ≠ [] := by
    rw [hfeed] at hstate ⊢
    exact parseChunks_body_ne_nil hp hbuffer hinside hstate
  -- byte by byte: the head is read as at once, and then no chunk is
  obtain ⟨head, rfl, hhead⟩ := chunkedBody_cut hb
  obtain ⟨q, ⟨hq, hchunked, hempty⟩, hbody, hfeedq⟩ := feed_of_chunkedBody hhead
  have hwaits : nextLine q.buffer = none := by rw [hempty]; rfl
  rw [parseChunks_wait hwaits] at hfeedq
  have hflatten := flatten_bytes head
  have hsame : feedAll feed {} (head.map fun c => [c]) = q := by
    have hcuts : CutsOutsideChunks (head.map fun c => [c]) := fun xs ys hpieces _ _ => by
      refine not_endsInsideChunk_of_head hhead (t := ys.flatten) ?_
      rw [← List.flatten_append, ← hpieces, hflatten]
    have hsame := feedAll_same hcuts
    rw [hflatten, hfeedq] at hsame
    rcases hsame with h | ⟨-, herror, -⟩
    · exact h
    · exact absurd (hq.symm.trans herror) (by decide)
  have hstarved : Starved (feedAll feed {} ((head ++ b ++ t).map fun c => [c])) := by
    rw [List.append_assoc, List.map_append, feedAll_append, hsame]
    refine Starved.feedAll_bytes ⟨hchunked, hbody, ?_, ?_, fun _ => hwaits⟩ (b ++ t) <;>
      rw [hq] <;> decide
  intro heq
  have hcomplete' : (feedAll feed {} ((head ++ b ++ t).map fun c => [c])).isComplete = true := by
    have := congrArg Outcome.isComplete heq
    exact this.trans hcomplete
  have hrequest := congrArg Outcome.request heq
  simp only [outcome, parse, hcomplete, hcomplete', if_true] at hrequest
  exact hdata (hrequest ▸ hstarved.2.1)

/-- **When the pieces of a stream give what the whole stream gives.** Pieces that do not meet
inside a chunk always do. A stream that completes a request at once may be cut anywhere exactly
when it never enters a chunk. -/
theorem feedAll_outcome_iff (pieces : List Bytes) (stream : Bytes) :
    (CutsOutsideChunks pieces →
      (feedAll feed {} pieces).outcome = (feed {} pieces.flatten).outcome) ∧
    ((feed {} stream).isComplete = true →
      ((∀ pieces : List Bytes, pieces.flatten = stream →
          (feedAll feed {} pieces).outcome = (feed {} stream).outcome) ↔
        ∀ a, a <+: stream → ¬ EndsInsideChunk a)) := by
  refine ⟨fun hcuts => (feedAll_same hcuts).outcome_eq, fun hcomplete => ?_⟩
  constructor
  · rintro hall a ⟨t, rfl⟩ hinside
    exact feedAll_bytes_outcome_ne hinside hcomplete (hall _ (flatten_bytes _))
  · rintro hnever pieces rfl
    refine (feedAll_same fun xs ys hpieces _ _ => hnever _ ?_).outcome_eq
    rw [hpieces, List.flatten_append]
    exact List.prefix_append _ _

/-- A request in two pieces that meet between its chunks. -/
theorem cut_between_chunks :
    CutsOutsideChunks [bytes "POST / HTTP/1.1\r\nTransfer-Encoding: chunked\r\n\r\n5\r\nhello\r\n",
      bytes "0\r\n\r\n"] ∧
    (feedAll feed {}
      [bytes "POST / HTTP/1.1\r\nTransfer-Encoding: chunked\r\n\r\n5\r\nhello\r\n",
        bytes "0\r\n\r\n"]).outcome.request.body = bytes "hello" := by
  have hcuts : CutsOutsideChunks
      [bytes "POST / HTTP/1.1\r\nTransfer-Encoding: chunked\r\n\r\n5\r\nhello\r\n",
        bytes "0\r\n\r\n"] := by
    intro xs ys hpieces hxs hys
    match xs, ys, hpieces with
    | [x], [y], h =>
        obtain ⟨rfl, -⟩ := List.cons.inj h
        decide +kernel
    | x :: x' :: xs, y :: ys, h => simp at h
  refine ⟨hcuts, ?_⟩
  rw [(feedAll_outcome_iff _ []).1 hcuts]
  decide +kernel

/-- A chunk whose data arrives after its size line: the data is read as a size. -/
theorem cut_behind_size_line :
    (feed {} (bytes "POST / HTTP/1.1\r\nTransfer-Encoding: chunked\r\n\r\n5\r\nhello\r\n0\r\n\r\n")
      ).request.body = bytes "hello" ∧
    (feedAll feed {}
      [bytes "POST / HTTP/1.1\r\nTransfer-Encoding: chunked\r\n\r\n5\r\n",
        bytes "hello\r\n0\r\n\r\n"]).error = "Invalid chunk size" ∧
    ¬ ∀ (stream : Bytes) (pieces : List Bytes), pieces.flatten = stream →
      (feedAll feed {} pieces).outcome = (feed {} stream).outcome := by
  refine ⟨by decide +kernel, by decide +kernel, fun hall => ?_⟩
  have := hall _ [bytes "POST / HTTP/1.1\r\nTransfer-Encoding: chunked\r\n\r\n5\r\n",
    bytes "hello\r\n0\r\n\r\n"] rfl
  exact absurd this (by decide +kernel)

end HttpRequestParser

end SimplyNode
