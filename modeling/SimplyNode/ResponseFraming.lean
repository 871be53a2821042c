import SimplyNode.HttpRequestParser
import SimplyNode.HttpServer
import SimplyNode.TextLines

/-!
# The Framing of Responses

`HttpResponse::serialize` writes the status line, a line for every header and a blank line, and the
body behind it. Whoever reads this finds the end of the body from the header `Content-Length`, whose
name may be in any case, and the end of the headers from the first blank line. `serialize` sees to
the entry of its map that has this name in exactly this case, and writes keys and values as they
are, with whatever line ends they have.

## Main results

* `serialize_eq`: the lines of a response.
* `framed_iff`: **a response is framed** if and only if its headers, written and read line by line,
  have no blank line and no other `Content-Length`.
-/

namespace SimplyNode

open Text

namespace StringMap

/-- Where an entry is written: the other entries are those with other keys. -/
theorem exists_assign {key value : Bytes} {es : List (Bytes × Bytes)}
    (h : es.Pairwise fun a b => a.1 < b.1) :
    ∃ before after, assign key value es = before ++ (key, value) :: after ∧
      ∀ e, e ∈ before ++ after ↔ e ∈ es ∧ e.1 ≠ key := by
  induction es with
  | nil => exact ⟨[], [], rfl, fun e => by simp⟩
  | cons d es ih =>
      obtain ⟨hhead, htail⟩ := List.pairwise_cons.mp h
      rw [assign]
      split
      · rename_i hlt
        refine ⟨[], d :: es, rfl, fun e => ?_⟩
        rw [List.nil_append]
        refine ⟨fun he => ⟨he, ?_⟩, fun he => he.1⟩
        obtain rfl | he := List.mem_cons.mp he
        · exact ne_of_gt hlt
        · exact ne_of_gt (hlt.trans (hhead e he))
      · split
        · rename_i heq
          refine ⟨[], es, rfl, fun e => ?_⟩
          rw [List.nil_append, List.mem_cons]
          constructor
          · exact fun he => ⟨Or.inr he, heq ▸ ne_of_gt (hhead e he)⟩
          · rintro ⟨rfl | he, hne⟩
            · exact absurd heq.symm hne
            · exact he
        · rename_i hne
          obtain ⟨before, after, hassign, hothers⟩ := ih htail
          refine ⟨d :: before, after, congrArg (d :: ·) hassign, fun e => ?_⟩
          rw [List.cons_append, List.mem_cons, hothers, List.mem_cons]
          constructor
          · rintro (rfl | he)
            · exact ⟨Or.inl rfl, Ne.symm hne⟩
            · exact ⟨Or.inr he.1, he.2⟩
          · rintro ⟨rfl | he, hother⟩
            · exact Or.inl rfl
            · exact Or.inr ⟨he, hother⟩

end StringMap

namespace HttpResponse

/-! ### What a reader finds -/

/-- The name of a header is `Content-Length`, in any case. -/
def isContentLength (field : Bytes × Bytes) : Bool :=
  field.1.map tolower = (bytes "Content-Length").map tolower

/-- The headers named `Content-Length` among some lines. -/
def contentLengths (block : List Bytes) : List (Bytes × Bytes) :=
  (block.filterMap HttpRequestParser.headerField).filter isContentLength

/-- The status line. -/
def statusLine (r : HttpResponse) : Bytes :=
  bytes "HTTP/1.1 " ++ bytes (toString r.statusCode) ++ bytes " " ++ bytes (statusText r.statusCode)

/-- A header as `serialize` writes it. -/
def headerLine (e : Bytes × Bytes) : Bytes := e.1 ++ bytes ": " ++ e.2

/-- **A response is framed**: the first blank line is behind its headers, the body is behind the
blank line, and one header tells its size. -/
def Framed (r : HttpResponse) : Prop :=
  ∃ head, cutBlank r.serialize = some (head, r.body) ∧
    (lines head).head? = some r.statusLine ∧
    ∃ key, contentLengths (lines head).tail = [(key, bytes (toString r.body.length))]

/-! ### The lines of a response -/

/-- The entries that are written. -/
def written (r : HttpResponse) : List (Bytes × Bytes) :=
  (r.headers.insertOrAssign (bytes "Content-Length") (bytes (toString r.body.length))).entries

/-- What is written in front of the blank line. -/
def head (r : HttpResponse) : Bytes :=
  r.statusLine ++ r.written.flatMap fun e => 13 :: 10 :: headerLine e

/-- Line ends behind some lines, and in front of them. -/
theorem flatMap_crlf (es : List (Bytes × Bytes)) :
    13 :: 10 :: es.flatMap (fun e => headerLine e ++ [13, 10]) =
      es.flatMap (fun e => 13 :: 10 :: headerLine e) ++ [13, 10] := by
  induction es with
  | nil => rfl
  | cons e es ih =>
      rw [List.flatMap_cons, List.flatMap_cons, List.append_assoc (13 :: 10 :: headerLine e), ← ih]
      simp

/-- **The lines of a response**, a blank line and the body. -/
theorem serialize_eq (r : HttpResponse) :
    r.serialize = r.head ++ 13 :: 10 :: 13 :: 10 :: r.body := by
  have hcrlf : bytes "\r\n" = [13, 10] := rfl
  have hblock := flatMap_crlf r.written
  have hserialize : r.serialize = r.statusLine ++
      (13 :: 10 :: r.written.flatMap (fun e => headerLine e ++ [13, 10])) ++
        [13, 10] ++ r.body := by
    rw [serialize, hcrlf]
    simp only [statusLine, headerLine, written, List.append_assoc, List.cons_append,
      List.nil_append]
  rw [hserialize, hblock, head]
  simp only [List.append_assoc, List.cons_append, List.nil_append]

theorem lines_flatMap (start : Bytes) (es : List (Bytes × Bytes)) :
    lines (start ++ es.flatMap fun e => 13 :: 10 :: headerLine e) =
      lines start ++ es.flatMap fun e => lines (headerLine e) := by
  induction es using List.reverseRecOn with
  | nil => rw [List.flatMap_nil, List.flatMap_nil, List.append_nil, List.append_nil]
  | append_singleton es e ih =>
      rw [List.flatMap_append, List.flatMap_append, List.flatMap_singleton, List.flatMap_singleton,
        ← List.append_assoc, lines_append, ih, List.append_assoc]

theorem notMem_statusText (statusCode : ℤ) : 13 ∉ bytes (statusText statusCode) := by
  rw [statusText]
  repeat' split
  all_goals decide

/-- The status line is a line. -/
theorem nextLine_statusLine (r : HttpResponse) : nextLine r.statusLine = none := by
  have hcode := (solid_toString_int r.statusCode).notMem (c := 13) rfl
  refine nextLine_of_notMem ?_
  rw [statusLine]
  simp only [List.mem_append, not_or]
  exact ⟨⟨⟨by decide, hcode⟩, by decide⟩, notMem_statusText r.statusCode⟩

theorem lines_head (r : HttpResponse) :
    lines r.head = r.statusLine :: r.written.flatMap fun e => lines (headerLine e) := by
  rw [head, lines_flatMap, lines_line (nextLine_statusLine r), List.singleton_append]

/-! ### The headers -/

/-- The header that `serialize` sees to. -/
theorem contentLengths_own (n : ℕ) :
    lines (headerLine (bytes "Content-Length", bytes (toString n))) =
        [headerLine (bytes "Content-Length", bytes (toString n))] ∧
      contentLengths [headerLine (bytes "Content-Length", bytes (toString n))] =
        [(bytes "Content-Length", bytes (toString n))] := by
  have hsize := solid_toString n
  have hname : 58 ∉ bytes "Content-Length" := by decide
  have hcr : 13 ∉ headerLine (bytes "Content-Length", bytes (toString n)) := by
    rw [headerLine]
    simp only [List.mem_append, not_or]
    exact ⟨⟨by decide, by decide⟩, hsize.notMem (c := 13) rfl⟩
  refine ⟨lines_line (nextLine_of_notMem hcr), ?_⟩
  have hfield : HttpRequestParser.headerField
      (headerLine (bytes "Content-Length", bytes (toString n))) =
        some (bytes "Content-Length", bytes (toString n)) := by
    have hcut := cutAt_append hname (32 :: bytes (toString n))
    rw [HttpRequestParser.headerField, headerLine, List.append_assoc]
    exact (congrArg _ hcut).trans (congrArg some (congrArg _ (trim_word hsize)))
  rw [contentLengths, List.filterMap_cons, hfield]
  rfl

/-- The headers named `Content-Length` of all entries. -/
theorem contentLengths_flatMap (es : List (Bytes × Bytes)) :
    contentLengths (es.flatMap fun e => lines (headerLine e)) =
      es.flatMap fun e => contentLengths (lines (headerLine e)) := by
  induction es with
  | nil => rfl
  | cons e es ih =>
      rw [List.flatMap_cons, List.flatMap_cons, ← ih, contentLengths, contentLengths,
        contentLengths, List.filterMap_append, List.filter_append]

/-- A line that names the size of a body. -/
def namesContentLength (line : Bytes) : Bool :=
  (HttpRequestParser.headerField line).any isContentLength

theorem contentLengths_eq_nil_iff (block : List Bytes) :
    contentLengths block = [] ↔ ∀ line ∈ block, namesContentLength line = false := by
  rw [contentLengths, List.filter_eq_nil_iff]
  constructor
  · intro h line hline
    rw [namesContentLength, Bool.eq_false_iff, ne_eq, Option.any_eq_true]
    rintro ⟨field, hfield, hname⟩
    exact h field (List.mem_filterMap.mpr ⟨line, hline, hfield⟩) hname
  · intro h field hmem hname
    obtain ⟨line, hline, hfield⟩ := List.mem_filterMap.mp hmem
    exact absurd (h line hline) (by rw [namesContentLength, hfield, Option.any_some, hname]; simp)

/-- **The condition**: a header that is written as it is has no blank line, and no line that is
named `Content-Length`. -/
def Clean (r : HttpResponse) : Prop :=
  ∀ e ∈ r.headers.entries, e.1 ≠ bytes "Content-Length" →
    ∀ line ∈ lines (headerLine e), line ≠ [] ∧ namesContentLength line = false

/-- The entry that `serialize` writes, and the others. -/
theorem written_split (r : HttpResponse) :
    ∃ before after, r.written =
        before ++ (bytes "Content-Length", bytes (toString r.body.length)) :: after ∧
      ∀ e, e ∈ before ++ after ↔ e ∈ r.headers.entries ∧ e.1 ≠ bytes "Content-Length" :=
  StringMap.exists_assign r.headers.sorted

/-- The lines of the header that `serialize` sees to, and of the others. -/
theorem exists_lines (r : HttpResponse) :
    ∃ before after : List (Bytes × Bytes),
      (∀ e, e ∈ before ++ after ↔ e ∈ r.headers.entries ∧ e.1 ≠ bytes "Content-Length") ∧
      (lines r.head).tail = before.flatMap (fun e => lines (headerLine e)) ++
        headerLine (bytes "Content-Length", bytes (toString r.body.length)) ::
          after.flatMap (fun e => lines (headerLine e)) ∧
      contentLengths (lines r.head).tail =
        before.flatMap (fun e => contentLengths (lines (headerLine e))) ++
          (bytes "Content-Length", bytes (toString r.body.length)) ::
            after.flatMap (fun e => contentLengths (lines (headerLine e))) := by
  obtain ⟨before, after, hwritten, hothers⟩ := r.written_split
  obtain ⟨hline, hown⟩ := contentLengths_own r.body.length
  refine ⟨before, after, hothers, ?_, ?_⟩
  · rw [lines_head, List.tail_cons, hwritten, List.flatMap_append, List.flatMap_cons, hline,
      List.singleton_append]
  · rw [lines_head, List.tail_cons, contentLengths_flatMap, hwritten, List.flatMap_append,
      List.flatMap_cons, hline, hown, List.singleton_append]

/-- The headers of a framed response are clean. -/
theorem Framed.clean {r : HttpResponse} (h : r.Framed) : r.Clean := by
  obtain ⟨head, hcut, -, key, hsingle⟩ := h
  obtain ⟨before, after, hothers, htail, hlengths⟩ := r.exists_lines
  obtain rfl : r.head = head := by
    have heq := r.serialize_eq.symm.trans (cutBlank_eq_append hcut)
    exact List.append_cancel_right heq
  rw [serialize_eq, cutBlank_iff, htail, List.mem_append, List.mem_cons, not_or, not_or] at hcut
  rw [hlengths] at hsingle
  have hcount := congrArg List.length hsingle
  rw [List.length_append, List.length_cons, List.length_singleton] at hcount
  have hbefore : ∀ e ∈ before, contentLengths (lines (headerLine e)) = [] :=
    List.flatMap_eq_nil_iff.mp (List.eq_nil_of_length_eq_zero (by omega))
  have hafter : ∀ e ∈ after, contentLengths (lines (headerLine e)) = [] :=
    List.flatMap_eq_nil_iff.mp (List.eq_nil_of_length_eq_zero (by omega))
  intro e he hne line hmem
  obtain hin | hin := List.mem_append.mp ((hothers e).mpr ⟨he, hne⟩)
  · refine ⟨?_, (contentLengths_eq_nil_iff _).mp (hbefore e hin) line hmem⟩
    rintro rfl
    exact hcut.1 (List.mem_flatMap.mpr ⟨e, hin, hmem⟩)
  · refine ⟨?_, (contentLengths_eq_nil_iff _).mp (hafter e hin) line hmem⟩
    rintro rfl
    exact hcut.2.2 (List.mem_flatMap.mpr ⟨e, hin, hmem⟩)

/-- A response with clean headers is framed. -/
theorem Clean.framed {r : HttpResponse} (hclean : r.Clean) : r.Framed := by
  obtain ⟨before, after, hothers, htail, hlengths⟩ := r.exists_lines
  have hother (e : Bytes × Bytes) (he : e ∈ before ++ after) :=
    hclean e ((hothers e).mp he).1 ((hothers e).mp he).2
  have hnone (e : Bytes × Bytes) (he : e ∈ before ++ after) :
      contentLengths (lines (headerLine e)) = [] :=
    (contentLengths_eq_nil_iff _).mpr fun line hmem => (hother e he line hmem).2
  refine ⟨r.head, ?_, by rw [lines_head]; rfl, bytes "Content-Length", ?_⟩
  · rw [serialize_eq, cutBlank_iff, htail, List.mem_append, List.mem_cons, not_or, not_or]
    refine ⟨?_, ?_, ?_⟩
    · intro hmem
      obtain ⟨e, he, hnil⟩ := List.mem_flatMap.mp hmem
      exact (hother e (List.mem_append_left _ he) _ hnil).1 rfl
    · exact List.cons_ne_nil _ _ ∘ Eq.symm
    · intro hmem
      obtain ⟨e, he, hnil⟩ := List.mem_flatMap.mp hmem
      exact (hother e (List.mem_append_right _ he) _ hnil).1 rfl
  · have hbefore := List.flatMap_eq_nil_iff.mpr fun e (he : e ∈ before) =>
      hnone e (List.mem_append_left _ he)
    have hafter := List.flatMap_eq_nil_iff.mpr fun e (he : e ∈ after) =>
      hnone e (List.mem_append_right _ he)
    rw [hlengths, hbefore, hafter, List.nil_append]

/-- **A response is framed** if and only if its headers are clean. -/
theorem framed_iff (r : HttpResponse) : r.Framed ↔ r.Clean := ⟨Framed.clean, Clean.framed⟩

/-- A handler that has set a size of its own, in lower case, and a value with a blank line in it. -/
theorem two_lengths_or_early_body :
    ¬Framed { headers := StringMap.empty.insertOrAssign (bytes "content-length") (bytes "5"),
              body := bytes "ok" } ∧
    ¬Framed { headers := StringMap.empty.insertOrAssign (bytes "X") (bytes "a\r\n\r\nb"),
              body := bytes "ok" } := by
  constructor
  · intro h
    have hline := h.clean (bytes "content-length", bytes "5") List.mem_cons_self (by decide)
      (bytes "content-length: 5") (by decide +kernel)
    exact absurd hline.2 (by decide +kernel)
  · intro h
    have hline := h.clean (bytes "X", bytes "a\r\n\r\nb") List.mem_cons_self (by decide)
      [] (by decide +kernel)
    exact hline.1 rfl

end HttpResponse

end SimplyNode
