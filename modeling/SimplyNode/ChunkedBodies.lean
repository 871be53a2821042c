import SimplyNode.HttpPieces
import SimplyNode.TextNumbers

/-!
# Chunked Bodies

A chunked body is a sequence of chunks, each with a line for its size, the data and a line end, and
a last line for the size 0. `_parseBody` reads a size with `std::stoul`, which takes more than hex
digits and does not mind what is behind them, and it removes two bytes behind the data whatever they
are. The sum `chunkSize + 2` is one of `size_t`.

## Main results

* `parseChunks_chunks`: well-formed chunks go into the body.
* `feed_encodeChunks`: the standard encoding of some data is decoded.
* `decodesChunks_iff`: **malformed chunks are rejected** if and only if the first thing that is
  wrong is a size line that `std::stoul` does not read.
-/

namespace SimplyNode

open Text

namespace HttpRequestParser

/-! ### Well-formed chunks -/

/-- The size in a well-formed line: hex digits, and maybe an extension behind a semicolon. With the
two bytes of a line end it is still a `size_t`. -/
def chunkSizeOf (line : Bytes) : Option ℕ :=
  let size := line.takeWhile (· ≠ 59)
  if IsNumeral 16 size ∧ numeral 16 size + 2 < wordSize then some (numeral 16 size) else none

/-- A well-formed chunk. -/
structure Chunk where
  sizeLine : Bytes
  data : Bytes
  line : nextLine sizeLine = none
  size : chunkSizeOf sizeLine = some data.length
  data_ne : data ≠ []

/-- The bytes of a chunk. -/
def Chunk.text (c : Chunk) : Bytes := c.sizeLine ++ 13 :: 10 :: (c.data ++ [13, 10])

/-- The text of a chunk in front of other text. -/
theorem Chunk.text_append (c : Chunk) (rest : Bytes) :
    c.text ++ rest = c.sizeLine ++ 13 :: 10 :: (c.data ++ 13 :: 10 :: rest) := by
  simp [Chunk.text]

/-- Some data that a string can hold. -/
structure ChunkData where
  data : Bytes
  data_ne : data ≠ []
  fits : data.length + 2 < wordSize

/-- The standard encoding of some data. -/
def encodeChunks (cs : List ChunkData) : Bytes :=
  cs.flatMap (fun c => hexSize c.data.length ++ 13 :: 10 :: (c.data ++ [13, 10])) ++
    bytes "0\r\n\r\n"

/-- **What has arrived of a body is malformed**: behind some chunks there is a line that is no size,
or a chunk without a line end behind its data. -/
inductive Malformed (a : Bytes) : Prop
  | size (cs : List Chunk) {line rest : Bytes}
      (h : a = cs.flatMap Chunk.text ++ (line ++ 13 :: 10 :: rest)) (hline : nextLine line = none)
      (hsize : chunkSizeOf line = none)
  | tail (cs : List Chunk) {line data rest : Bytes} {c d : UInt8}
      (h : a = cs.flatMap Chunk.text ++ (line ++ 13 :: 10 :: (data ++ c :: d :: rest)))
      (hline : nextLine line = none) (hsize : chunkSizeOf line = some data.length)
      (hdata : data ≠ []) (htail : ¬(c = 13 ∧ d = 10))

/-- The sizes with which the loop of `_parseBody` compares the size of the buffer. -/
def testedSizes (b : Bytes) : List ℕ :=
  match _h : nextLine b with
  | none => []
  | some (line, rest) =>
      match stoul line 16 with
      | none => []
      | some chunkSize =>
          if chunkSize = 0 then []
          else if rest.length < chunkSpan chunkSize then [chunkSize]
          else chunkSize :: testedSizes (rest.drop (chunkSpan chunkSize))
termination_by b.length
decreasing_by
  have := length_of_nextLine _h
  simp only [List.length_drop]
  omega

/-- **Chunks are decoded** behind the head of a request: the encoding of some data gives the data,
nothing malformed is taken for anything else, and no sum wraps around. -/
structure DecodesChunks (head b : Bytes) : Prop where
  encoded : ∀ cs, b = encodeChunks cs → (feed {} (head ++ b)).isComplete = true ∧
    (feed {} (head ++ b)).request.body = cs.flatMap ChunkData.data
  rejects : ∀ a, a <+: b → Malformed a → (feed {} (head ++ a)).hasError = true
  exact : ∀ n ∈ testedSizes b, chunkSpan n = n + 2

/-- **The condition** on a body: behind well-formed chunks, a line that is no size is none that
`std::stoul` reads, and there is a line end behind the data of a chunk. -/
structure SoundChunks (b : Bytes) : Prop where
  sizes : ∀ (cs : List Chunk) (line rest : Bytes),
    b = cs.flatMap Chunk.text ++ (line ++ 13 :: 10 :: rest) → nextLine line = none →
      chunkSizeOf line = none → stoul line 16 = none
  tails : ∀ (cs : List Chunk) (line data rest : Bytes) (c d : UInt8),
    b = cs.flatMap Chunk.text ++ (line ++ 13 :: 10 :: (data ++ c :: d :: rest)) →
      nextLine line = none → chunkSizeOf line = some data.length → data ≠ [] → c = 13 ∧ d = 10

/-! ### Sizes -/

/-- A well-formed size, and what is behind it in its line. -/
theorem chunkSizeOf_eq_some {line : Bytes} {n : ℕ} (h : chunkSizeOf line = some n) :
    ∃ size extension, line = size ++ extension ∧ IsNumeral 16 size ∧ numeral 16 size = n ∧
      n + 2 < wordSize ∧ ∀ c ∈ extension.head?, c = 59 := by
  rw [chunkSizeOf] at h
  split at h
  · rename_i hsize
    cases h
    refine ⟨line.takeWhile (· ≠ 59), line.dropWhile (· ≠ 59), ?_, hsize.1, rfl, hsize.2, ?_⟩
    · exact (List.takeWhile_append_dropWhile).symm
    · intro c hc
      have hstop := List.head?_dropWhile_not (fun c => decide (c ≠ (59 : UInt8))) line
      rw [Option.mem_def.mp hc] at hstop
      simpa using hstop
  · cases h

/-- A text that begins with a semicolon, or is empty, has no digit in front. -/
theorem isDigitIn_extension {extension : Bytes} (h : ∀ c ∈ extension.head?, c = 59) :
    ∀ c ∈ extension.head?, isDigitIn 16 c = false := by
  intro c hc
  rw [h c hc]
  decide

/-- A hex digit is not the letter of a prefix. -/
theorem tolower_ne_of_hex {c : UInt8} (h : isDigitIn 16 c = true) : tolower c ≠ 120 := by
  intro hx
  obtain ⟨d, hd, hlt⟩ := exists_digitValue h
  have hletter : c.toNat = 88 ∨ c.toNat = 120 := by
    rw [tolower] at hx
    split at hx
    · have hsum := congrArg UInt8.toNat hx
      rw [UInt8.toNat_add] at hsum
      have hbyte := c.toNat_lt
      simp only [UInt8.reduceToNat] at hsum
      omega
    · rw [hx]
      exact Or.inr rfl
  have hvalue : digitValue c = some 33 := by
    obtain hc | hc := hletter
    · obtain rfl : c = 88 := UInt8.toNat_inj.mp hc
      rfl
    · obtain rfl : c = 120 := UInt8.toNat_inj.mp hc
      rfl
  rw [hvalue] at hd
  cases hd
  omega

/-- `std::stoul` reads a well-formed size. -/
theorem stoul_of_chunkSizeOf {line : Bytes} {n : ℕ} (h : chunkSizeOf line = some n) :
    stoul line 16 = some n := by
  obtain ⟨size, extension, rfl, hnumeral, rfl, hfits, hextension⟩ := chunkSizeOf_eq_some h
  have hx : ∀ c ∈ (size ++ extension).tail.head?, tolower c ≠ 120 := by
    intro c hc
    have hall := hnumeral.2
    cases size with
    | nil => exact absurd rfl hnumeral.1
    | cons first size =>
        cases size with
        | nil =>
            rw [hextension c hc]
            decide
        | cons second size =>
            rw [List.all_cons, List.all_cons, Bool.and_eq_true, Bool.and_eq_true] at hall
            obtain rfl : second = c := Option.some.inj hc
            exact tolower_ne_of_hex hall.2.1
  rw [stoul_numeral hnumeral (isDigitIn_extension hextension) fun _ => hx, if_neg (by omega)]

/-- The size that has been written for some data. -/
theorem chunkSizeOf_hexSize {n : ℕ} (h : n + 2 < wordSize) : chunkSizeOf (hexSize n) = some n := by
  obtain ⟨hnumeral, hvalue⟩ := numeral_hexSize n
  have hall : ∀ c ∈ hexSize n, decide (c ≠ 59) = true := by
    intro c hc
    refine decide_eq_true ?_
    rintro rfl
    exact absurd (List.all_eq_true.mp hnumeral.2 59 hc) (by decide)
  have hsize : (hexSize n).takeWhile (fun c => decide (c ≠ 59)) = hexSize n :=
    List.takeWhile_eq_self_iff.mpr hall
  rw [chunkSizeOf, hsize, hvalue]
  exact if_pos ⟨hnumeral, h⟩

/-- A size that has been written is a line. -/
theorem nextLine_hexSize (n : ℕ) : nextLine (hexSize n) = none := by
  refine nextLine_of_notMem fun hmem => ?_
  exact absurd (List.all_eq_true.mp (numeral_hexSize n).1.2 13 hmem) (by decide)

/-- The chunk for some data. -/
def ChunkData.chunk (c : ChunkData) : Chunk where
  sizeLine := hexSize c.data.length
  data := c.data
  line := nextLine_hexSize _
  size := chunkSizeOf_hexSize c.fits
  data_ne := c.data_ne

theorem encodeChunks_eq (cs : List ChunkData) :
    encodeChunks cs = (cs.map ChunkData.chunk).flatMap Chunk.text ++ [48, 13, 10, 13, 10] := by
  rw [encodeChunks, List.flatMap_map]
  rfl

/-! ### The loop over the chunks -/

theorem addBody_append (p : HttpRequestParser) (a b : Bytes) :
    (p.addBody a).addBody b = p.addBody (a ++ b) := by
  simp only [addBody, List.append_assoc]

theorem addBody_nil (p : HttpRequestParser) : p.addBody [] = p := by
  simp only [addBody, List.append_nil]

/-- A chunk in the buffer. -/
theorem parseChunks_chunk {p : HttpRequestParser} {line data rest : Bytes} {c d : UInt8}
    (hline : nextLine line = none) (hsize : chunkSizeOf line = some data.length)
    (hdata : data ≠ []) (h : p.buffer = line ++ 13 :: 10 :: (data ++ c :: d :: rest)) :
    p.parseChunks = ((p.addBody data).setBuffer rest).parseChunks := by
  obtain ⟨-, -, -, -, -, hfits, -⟩ := chunkSizeOf_eq_some hsize
  have hspan := chunkSpan_of_lt hfits
  have hnext : nextLine p.buffer = some (line, data ++ c :: d :: rest) := h ▸ nextLine_line hline _
  have hlong : ¬(data ++ c :: d :: rest).length < chunkSpan data.length := by
    rw [hspan, List.length_append, List.length_cons, List.length_cons]
    omega
  have hdrop : (data ++ c :: d :: rest).drop (chunkSpan data.length) = rest := by
    rw [hspan, ← List.drop_drop, List.drop_left]
    rfl
  rw [parseChunks_next hnext (stoul_of_chunkSizeOf hsize) (mt List.length_eq_zero_iff.mp hdata)
    hlong, hdrop, List.take_left]

/-- **Well-formed chunks** go into the body. -/
theorem parseChunks_chunks (cs : List Chunk) {p : HttpRequestParser} {rest : Bytes}
    (h : p.buffer = cs.flatMap Chunk.text ++ rest) :
    p.parseChunks = ((p.addBody (cs.flatMap Chunk.data)).setBuffer rest).parseChunks := by
  induction cs generalizing p with
  | nil =>
      rw [List.flatMap_nil, List.nil_append] at h
      rw [List.flatMap_nil, addBody_nil, ← h]
      rfl
  | cons c cs ih =>
      rw [List.flatMap_cons, List.append_assoc, Chunk.text_append] at h
      rw [parseChunks_chunk c.line c.size c.data_ne h, ih rfl, List.flatMap_cons, ← addBody_append]
      rfl

/-- What the parser makes of a body behind its head. -/
theorem feed_chunks {head : Bytes} (hhead : chunkedBody head = some []) (cs : List Chunk)
    (rest : Bytes) : ∃ p, AtChunks p rest ∧ p.request.body = cs.flatMap Chunk.data ∧
      feed {} (head ++ (cs.flatMap Chunk.text ++ rest)) = p.parseChunks := by
  obtain ⟨p, ⟨hstate, hchunked, hbuffer⟩, hbody, hfeed⟩ :=
    feed_of_chunkedBody (chunkedBody_append hhead (cs.flatMap Chunk.text ++ rest))
  rw [List.nil_append] at hbuffer
  refine ⟨(p.addBody (cs.flatMap Chunk.data)).setBuffer rest, ⟨hstate, hchunked, rfl⟩, ?_, ?_⟩
  · change p.request.body ++ cs.flatMap Chunk.data = cs.flatMap Chunk.data
    rw [hbody, List.nil_append]
  · rw [hfeed, parseChunks_chunks cs hbuffer]

/-- **The standard encoding** of some data is decoded. -/
theorem feed_encodeChunks {head : Bytes} (hhead : chunkedBody head = some [])
    (cs : List ChunkData) : (feed {} (head ++ encodeChunks cs)).isComplete = true ∧
      (feed {} (head ++ encodeChunks cs)).request.body = cs.flatMap ChunkData.data := by
  obtain ⟨p, ⟨-, -, hbuffer⟩, hbody, hfeed⟩ :=
    feed_chunks hhead (cs.map ChunkData.chunk) [48, 13, 10, 13, 10]
  have hlast : nextLine p.buffer = some ([48], [13, 10]) := by
    rw [hbuffer]
    rfl
  rw [encodeChunks_eq, hfeed, parseChunks_last hlast (by decide)]
  refine ⟨rfl, hbody.trans ?_⟩
  rw [List.flatMap_map]
  rfl

/-! ### Malformed chunks -/

/-- A size line that is read, with nothing behind it: there is no error. -/
theorem parseChunks_size_line {p : HttpRequestParser} {line : Bytes} {n : ℕ}
    (hp : p.state = .body) (hbuffer : p.buffer = line ++ [13, 10])
    (hline : nextLine line = none) (hsize : stoul line 16 = some n) :
    p.parseChunks.hasError = false := by
  have hnext : nextLine p.buffer = some (line, []) := hbuffer ▸ nextLine_line hline []
  by_cases hn : n = 0
  · rw [parseChunks_last hnext (hn ▸ hsize)]
    rfl
  · by_cases hshort : ([] : Bytes).length < chunkSpan n
    · rw [parseChunks_short hnext hsize hn hshort]
      exact hasError_of_state (by rw [setBuffer, hp]; decide)
    · rw [parseChunks_next hnext hsize hn hshort, List.take_nil, List.drop_nil,
        parseChunks_wait rfl]
      exact hasError_of_state (by rw [setBuffer, addBody, hp]; decide)

/-- The condition on what is left behind a chunk. -/
theorem SoundChunks.later {c : Chunk} {rest : Bytes} (h : SoundChunks (c.text ++ rest)) :
    SoundChunks rest := by
  constructor
  · intro cs line later heq hline hsize
    refine h.sizes (c :: cs) line later ?_ hline hsize
    rw [heq, List.flatMap_cons, List.append_assoc]
  · intro cs line data later x y heq hline hsize hdata
    refine h.tails (c :: cs) line data later x y ?_ hline hsize hdata
    rw [heq, List.flatMap_cons, List.append_assoc]

/-- Where a chunk ends does not depend on how its text is cut. -/
theorem Chunk.text_cut {c : Chunk} {rest line later : Bytes} (hline : nextLine line = none)
    (h : c.text ++ rest = line ++ 13 :: 10 :: later) :
    line = c.sizeLine ∧ later = c.data ++ 13 :: 10 :: rest := by
  have hnext := nextLine_line c.line (c.data ++ 13 :: 10 :: rest)
  rw [← c.text_append, h, nextLine_line hline] at hnext
  cases hnext
  exact ⟨rfl, rfl⟩

/-- A chunk in front keeps the condition. -/
theorem SoundChunks.chunk {rest : Bytes} (c : Chunk) (h : SoundChunks rest) :
    SoundChunks (c.text ++ rest) := by
  have hbehind : ∀ (x : Chunk) (later : Bytes), c.text ++ rest = x.text ++ later →
      rest = later := by
    intro x later heq
    obtain ⟨hline, hdata⟩ := Chunk.text_cut x.line (heq.trans (x.text_append later))
    have hsize := x.size
    rw [hline, c.size, Option.some.injEq] at hsize
    cases (List.append_inj hdata hsize.symm).2
    rfl
  constructor
  · intro cs line later heq hline hsize
    cases cs with
    | nil =>
        rw [(Chunk.text_cut hline heq).1, c.size] at hsize
        cases hsize
    | cons x cs =>
        rw [List.flatMap_cons, List.append_assoc] at heq
        exact h.sizes cs line later (hbehind x _ heq) hline hsize
  · intro cs line data later y z heq hline hsize hdata
    cases cs with
    | nil =>
        obtain ⟨rfl, hlater⟩ := Chunk.text_cut hline heq
        rw [c.size, Option.some.injEq] at hsize
        cases (List.append_inj hlater hsize.symm).2
        exact ⟨rfl, rfl⟩
    | cons x cs =>
        rw [List.flatMap_cons, List.append_assoc] at heq
        exact h.tails cs line data later y z (hbehind x _ heq) hline hsize hdata

/-- The last chunk meets the condition, whatever is behind it. -/
theorem soundChunks_last {line rest : Bytes} (hline : nextLine line = none)
    (hsize : chunkSizeOf line = some 0) : SoundChunks (line ++ 13 :: 10 :: rest) := by
  have hcut : ∀ {line' later : Bytes}, nextLine line' = none →
      line ++ 13 :: 10 :: rest = line' ++ 13 :: 10 :: later → chunkSizeOf line' = some 0 := by
    intro line' later hline' heq
    have hnext := nextLine_line hline rest
    rw [heq, nextLine_line hline'] at hnext
    cases hnext
    exact hsize
  have hchunk : ∀ (x : Chunk) (later : Bytes),
      line ++ 13 :: 10 :: rest ≠ x.text ++ later := by
    intro x later heq
    have hzero := hcut x.line (heq.trans (x.text_append later))
    rw [x.size, Option.some.injEq] at hzero
    exact x.data_ne (List.length_eq_zero_iff.mp hzero)
  constructor
  · intro cs line' later heq hline' hnone
    cases cs with
    | nil =>
        rw [hcut hline' heq] at hnone
        cases hnone
    | cons x cs =>
        rw [List.flatMap_cons, List.append_assoc] at heq
        exact absurd heq (hchunk x _)
  · intro cs line' data later y z heq hline' hsome hdata
    cases cs with
    | nil =>
        rw [hcut hline' heq, Option.some.injEq] at hsome
        exact absurd (List.length_eq_zero_iff.mp hsome.symm) hdata
    | cons x cs =>
        rw [List.flatMap_cons, List.append_assoc] at heq
        exact absurd heq (hchunk x _)

/-- A size that is compared with the size of the buffer, and those behind it. -/
theorem mem_testedSizes {b : Bytes} {m : ℕ} (h : m ∈ testedSizes b) :
    ∃ line rest n, nextLine b = some (line, rest) ∧ stoul line 16 = some n ∧ n ≠ 0 ∧
      (m = n ∨ ¬rest.length < chunkSpan n ∧ m ∈ testedSizes (rest.drop (chunkSpan n))) := by
  rw [testedSizes] at h
  split at h
  · exact absurd h List.not_mem_nil
  · rename_i line rest hnext
    split at h
    · exact absurd h List.not_mem_nil
    · rename_i n hsize
      split at h
      · exact absurd h List.not_mem_nil
      · split at h
        · exact ⟨line, rest, n, hnext, hsize, ‹_›, Or.inl (List.mem_singleton.mp h)⟩
        · exact ⟨line, rest, n, hnext, hsize, ‹_›, (List.mem_cons.mp h).imp_right fun h => ⟨‹_›, h⟩⟩

/-- A size that is read is well-formed where the condition holds. -/
theorem SoundChunks.size {b line rest : Bytes} {n : ℕ} (h : SoundChunks b)
    (hnext : nextLine b = some (line, rest)) (hsize : stoul line 16 = some n) :
    chunkSizeOf line = some n := by
  cases hwell : chunkSizeOf line with
  | none =>
      have hread := h.sizes [] line rest (nextLine_eq_append hnext) (nextLine_of_line hnext) hwell
      rw [hsize] at hread
      cases hread
  | some m =>
      rw [stoul_of_chunkSizeOf hwell] at hsize
      exact hsize

/-- Two bytes, and what is behind them. -/
theorem exists_two {s : Bytes} (h : 2 ≤ s.length) : ∃ c d later, s = c :: d :: later := by
  cases s with
  | nil => exact absurd h (by decide)
  | cons c s =>
      cases s with
      | nil => exact absurd h (by simp)
      | cons d later => exact ⟨c, d, later, rfl⟩

/-- The condition behind a chunk that has arrived. -/
theorem SoundChunks.next {b line rest : Bytes} {n : ℕ} (h : SoundChunks b)
    (hnext : nextLine b = some (line, rest)) (hwell : chunkSizeOf line = some n) (hn : n ≠ 0)
    (hlong : n + 2 ≤ rest.length) : SoundChunks (rest.drop (n + 2)) := by
  have hdata : (rest.take n).length = n := List.length_take_of_le (by omega)
  have hne : rest.take n ≠ [] := by
    rw [ne_eq, ← List.length_eq_zero_iff, hdata]
    exact hn
  obtain ⟨c, d, later, hrest⟩ := exists_two (s := rest.drop n) (by rw [List.length_drop]; omega)
  have hbuffer : b = line ++ 13 :: 10 :: (rest.take n ++ c :: d :: later) := by
    rw [← hrest, List.take_append_drop]
    exact nextLine_eq_append hnext
  have hline := nextLine_of_line hnext
  obtain ⟨rfl, rfl⟩ :=
    h.tails [] line (rest.take n) later c d hbuffer hline (hdata.symm ▸ hwell) hne
  have hdrop : rest.drop (n + 2) = later := by
    rw [← List.drop_drop, hrest]
    rfl
  have hchunk : b = Chunk.text ⟨line, rest.take n, hline, hdata.symm ▸ hwell, hne⟩ ++ later :=
    hbuffer.trans (by simp [Chunk.text])
  rw [hdrop]
  exact SoundChunks.later (hchunk ▸ h)

/-- No sum wraps around where the condition holds. -/
theorem SoundChunks.exact {b : Bytes} (h : SoundChunks b) :
    ∀ m ∈ testedSizes b, chunkSpan m = m + 2 := by
  induction hlength : b.length using Nat.strong_induction_on generalizing b with
  | _ k ih =>
      intro m hm
      obtain ⟨line, rest, n, hnext, hsize, hn, hlater⟩ := mem_testedSizes hm
      have hwell := h.size hnext hsize
      obtain ⟨-, -, -, -, -, hfits, -⟩ := chunkSizeOf_eq_some hwell
      have hspan := chunkSpan_of_lt hfits
      obtain rfl | ⟨hlong, hmem⟩ := hlater
      · exact hspan
      · rw [hspan] at hlong hmem
        have hless : (rest.drop (n + 2)).length < k := by
          have hrest := length_of_nextLine hnext
          rw [List.length_drop, ← hlength]
          omega
        exact ih _ hless (h.next hnext hwell hn (Nat.not_lt.mp hlong)) rfl m hmem

/-- **Malformed chunks are rejected** if and only if the first thing that is wrong is a size line
that `std::stoul` does not read. -/
theorem decodesChunks_iff {head : Bytes} (hhead : chunkedBody head = some []) (b : Bytes) :
    DecodesChunks head b ↔ SoundChunks b := by
  constructor
  · intro h
    constructor
    · intro cs line rest heq hline hsize
      cases hread : stoul line 16 with
      | none => rfl
      | some n =>
          -- the line has arrived, and the parser has taken it
          have harrived : cs.flatMap Chunk.text ++ (line ++ [13, 10]) <+: b := by
            rw [heq, List.prefix_append_right_inj, List.prefix_append_right_inj]
            exact List.prefix_append [13, 10] rest
          obtain ⟨p, ⟨hp, -, hbuffer⟩, -, hfeed⟩ := feed_chunks hhead cs (line ++ [13, 10])
          have herror := h.rejects _ harrived (.size cs rfl hline hsize)
          rw [hfeed, parseChunks_size_line hp hbuffer hline hread] at herror
          cases herror
    · intro cs line data rest c d heq hline hsize hdata
      by_contra htail
      have harrived : cs.flatMap Chunk.text ++ (line ++ 13 :: 10 :: (data ++ [c, d])) <+: b := by
        rw [heq]
        exact ⟨rest, by simp⟩
      obtain ⟨p, ⟨hp, -, hbuffer⟩, -, hfeed⟩ :=
        feed_chunks hhead cs (line ++ 13 :: 10 :: (data ++ [c, d]))
      have herror := h.rejects _ harrived (.tail cs rfl hline hsize hdata htail)
      rw [hfeed, parseChunks_chunk hline hsize hdata hbuffer, parseChunks_wait rfl] at herror
      rw [hasError_of_state (by rw [setBuffer, addBody, hp]; decide)] at herror
      cases herror
  · intro h
    refine ⟨?_, ?_, h.exact⟩
    · rintro cs rfl
      exact feed_encodeChunks hhead cs
    · rintro a ⟨t, rfl⟩ hmalformed
      cases hmalformed with
      | @size cs line rest heq hline hsize =>
          have hread := h.sizes cs line (rest ++ t) (by rw [heq]; simp) hline hsize
          obtain ⟨p, ⟨-, -, hbuffer⟩, -, hfeed⟩ := feed_chunks hhead cs (line ++ 13 :: 10 :: rest)
          have hnext : nextLine p.buffer = some (line, rest) := hbuffer ▸ nextLine_line hline rest
          rw [heq, hfeed, parseChunks_fail hnext hread]
          rfl
      | @tail cs line data rest c d heq hline hsize hdata htail =>
          exact absurd (h.tails cs line data (rest ++ t) c d (by rw [heq]; simp) hline hsize hdata)
            htail

/-- The head of a request for the examples. -/
def chunkedHead : Bytes := bytes "POST / HTTP/1.1\r\nTransfer-Encoding: chunked\r\n\r\n"

/-- A chunk with an extension. -/
def extended : Chunk where
  sizeLine := bytes "5;x=y"
  data := bytes "hello"
  line := by decide
  size := by decide
  data_ne := by decide

/-- Two chunks with extensions, and the last one. -/
theorem extension_decoded :
    DecodesChunks chunkedHead
      (bytes "5;x=y\r\nhello\r\n5;x=y\r\nhello\r\n0;z\r\n\r\n") := by
  refine (decodesChunks_iff (by decide +kernel) _).mpr ?_
  have hlast : SoundChunks (bytes "0;z" ++ 13 :: 10 :: [13, 10]) :=
    soundChunks_last (by decide) (by decide)
  exact (hlast.chunk extended).chunk extended

/-- A size with something behind it, a chunk with no line end behind its data, and a size that goes
around with the two bytes of a line end. -/
theorem malformed_chunks_accepted :
    ¬DecodesChunks chunkedHead (bytes "5zz\r\nhello\r\n0\r\n\r\n") ∧
    ¬DecodesChunks chunkedHead (bytes "5\r\nhelloXX0\r\n\r\n") ∧
    ¬DecodesChunks chunkedHead (bytes "FFFFFFFFFFFFFFFE\r\n0\r\n\r\n") := by
  refine ⟨fun h => ?_, fun h => ?_, fun h => ?_⟩
  · have hmalformed : Malformed (bytes "5zz\r\n") :=
      @Malformed.size _ [] (bytes "5zz") [] rfl (by decide) (by decide)
    exact absurd (h.rejects _ (by decide) hmalformed) (by decide +kernel)
  · have hmalformed : Malformed (bytes "5\r\nhelloXX") :=
      @Malformed.tail _ [] (bytes "5") (bytes "hello") [] 88 88 rfl (by decide) (by decide)
        (by decide) (by decide)
    exact absurd (h.rejects _ (by decide) hmalformed) (by decide +kernel)
  · exact absurd (h.exact 0xFFFFFFFFFFFFFFFE (by decide +kernel)) (by decide)

end HttpRequestParser

end SimplyNode
