import SimplyNode.IniParser

/-!
# Reading an INI Text Again

What `toString` writes is read again line by line: a header opens its section, and a pair goes to
it with its key and its value, from which `stripInlineComment` takes what looks like a comment. The
names, keys and values that come from a text have nothing of that kind. A value that has been set
may have.

## Main results

* `reads_textLines`: **what is read** of the text of a parser.
* `reload_loaded`: a parser that has been loaded is read again as it is.
* `survives_iff`: values that have been set are read again exactly if no comment begins in them.
-/

namespace SimplyNode

open Text

namespace IniParser

/-! ### Trimmed texts -/

/-- A text without white space at its ends. -/
def Trimmed (s : Bytes) : Prop :=
  (∀ c ∈ s.head?, isspace c = false) ∧ ∀ c ∈ s.getLast?, isspace c = false

instance (s : Bytes) : Decidable (Trimmed s) :=
  decidable_of_iff (s.head?.all (!isspace ·) = true ∧ s.getLast?.all (!isspace ·) = true)
    (by simp [Trimmed, Option.all_eq_true])

/-- Blanks around a trimmed text are trimmed off. -/
theorem trim_append {a s b : Bytes} (ha : ∀ c ∈ a, isspace c = true)
    (hb : ∀ c ∈ b, isspace c = true) (hs : Trimmed s) : trim (a ++ s ++ b) = s :=
  dropWhile_both ha hb hs.1 hs.2

/-- A trimmed text has nothing to trim. -/
theorem trim_trimmed {s : Bytes} (hs : Trimmed s) : trim s = s := by
  have h := trim_append (a := []) (b := []) (List.forall_mem_nil _) (List.forall_mem_nil _) hs
  rwa [List.append_nil] at h

/-- What `trim` takes away. -/
theorem exists_trim (s : Bytes) : ∃ a b, s = a ++ trim s ++ b ∧ (∀ c ∈ a, isspace c = true) ∧
    (∀ c ∈ b, isspace c = true) ∧ Trimmed (trim s) := by
  have hfront := List.takeWhile_append_dropWhile (p := isspace) (l := s)
  have hback := List.takeWhile_append_dropWhile (p := isspace)
    (l := (s.dropWhile isspace).reverse)
  have hrest : s.dropWhile isspace =
      trim s ++ ((s.dropWhile isspace).reverse.takeWhile isspace).reverse := by
    rw [trim, ← List.reverse_append, hback, List.reverse_reverse]
  refine ⟨s.takeWhile isspace, ((s.dropWhile isspace).reverse.takeWhile isspace).reverse, ?_,
    fun c hc => List.mem_takeWhile_imp hc,
    fun c hc => List.mem_takeWhile_imp (List.mem_reverse.mp hc), ?_, ?_⟩
  · rw [List.append_assoc, ← hrest, hfront]
  · intro c hc
    -- the first character of what is left is the first one behind the white space
    have hne : trim s ≠ [] := fun hnil => by
      rw [hnil] at hc
      cases hc
    have hhead : (s.dropWhile isspace).head? = (trim s).head? := by
      rw [hrest, List.head?_append_of_ne_nil _ hne]
    exact Bool.eq_false_iff.mpr fun hspace => by
      have hnot := List.head?_dropWhile_not isspace s
      rw [hhead, hc] at hnot
      simp [hspace] at hnot
  · intro c hc
    rw [trim, List.getLast?_reverse] at hc
    have hnot := List.head?_dropWhile_not isspace (s.dropWhile isspace).reverse
    rw [hc] at hnot
    simpa using hnot

/-- Trimming leaves a trimmed text. -/
theorem trimmed_trim (s : Bytes) : Trimmed (trim s) := by
  obtain ⟨_, _, -, -, -, h⟩ := exists_trim s
  exact h

/-- Trimming adds nothing. -/
theorem mem_of_mem_trim {s : Bytes} {c : UInt8} (h : c ∈ trim s) : c ∈ s := by
  obtain ⟨a, b, hs, -⟩ := exists_trim s
  rw [hs]
  simp [h]

/-! ### Comments -/

/-- No comment begins inside a text, behind its first character. -/
def NoneInside (s : Bytes) : Prop :=
  ∀ a d c b, s = a ++ d :: c :: b → isCommentStart c = true → isspace d = false

/-- No comment begins in a text: the characters of a comment are neither its first one nor behind
white space. -/
def CommentFree (s : Bytes) : Prop :=
  (∀ c ∈ s.head?, isCommentStart c = false) ∧ NoneInside s

/-- The empty text has no comment inside. -/
theorem noneInside_nil : NoneInside [] := fun a d c b h => by
  cases a <;> cases h

/-- The condition, character by character. -/
theorem noneInside_cons {x : UInt8} {s : Bytes} : NoneInside (x :: s) ↔
    (isspace x = true → ∀ c ∈ s.head?, isCommentStart c = false) ∧ NoneInside s := by
  constructor
  · intro h
    refine ⟨fun hx c hc => ?_, fun a d c b hs => h (x :: a) d c b (by rw [hs]; rfl)⟩
    obtain ⟨b, rfl⟩ := List.head?_eq_some_iff.mp hc
    refine Bool.eq_false_iff.mpr fun hstart => ?_
    exact Bool.noConfusion (hx.symm.trans (h [] x c b rfl hstart))
  · rintro ⟨hhead, hrest⟩ a d c b hs hstart
    cases a with
    | nil =>
        obtain ⟨rfl, rfl⟩ := List.cons.inj hs
        refine Bool.eq_false_iff.mpr fun hd => ?_
        exact Bool.noConfusion (hstart.symm.trans (hhead hd c rfl))
    | cons y a =>
        obtain ⟨rfl, rfl⟩ := List.cons.inj hs
        exact hrest a d c b rfl hstart

/-- A byte is kept unless a comment begins with it. -/
theorem beforeComment_cons (mayBegin : Bool) (x : UInt8) (s : Bytes) :
    beforeComment mayBegin (x :: s) =
      if isCommentStart x ∧ mayBegin then [] else x :: beforeComment (isspace x) s :=
  rfl

/-- What is in front of the first comment is all there is exactly if none begins. -/
theorem beforeComment_eq_self_iff {mayBegin : Bool} {s : Bytes} :
    beforeComment mayBegin s = s ↔
      (mayBegin = true → ∀ c ∈ s.head?, isCommentStart c = false) ∧ NoneInside s := by
  induction s generalizing mayBegin with
  | nil => exact iff_of_true rfl ⟨fun _ _ hc => absurd hc (by simp), noneInside_nil⟩
  | cons x s ih =>
      rw [beforeComment_cons, noneInside_cons, ← ih]
      by_cases hx : isCommentStart x = true ∧ mayBegin = true
      · rw [if_pos hx]
        refine iff_of_false (List.cons_ne_nil x s).symm fun h => ?_
        exact Bool.noConfusion (hx.1.symm.trans (h.1 hx.2 x rfl))
      · rw [if_neg hx, List.cons.injEq]
        refine and_congr_left fun _ => iff_of_true rfl fun hbegin c hc => ?_
        obtain rfl : x = c := Option.some.inj hc
        exact Bool.eq_false_iff.mpr fun hstart => hx ⟨hstart, hbegin⟩

/-- What stands before a comment is a prefix. -/
theorem beforeComment_isPrefix (mayBegin : Bool) (s : Bytes) : beforeComment mayBegin s <+: s := by
  induction s generalizing mayBegin with
  | nil => exact List.prefix_rfl
  | cons x s ih =>
      rw [beforeComment_cons]
      split
      · exact List.nil_prefix
      · exact (List.cons_prefix_cons.mpr ⟨rfl, ih _⟩)

/-- What stands before a comment has no comment. -/
theorem beforeComment_beforeComment (mayBegin : Bool) (s : Bytes) :
    beforeComment mayBegin (beforeComment mayBegin s) = beforeComment mayBegin s := by
  induction s generalizing mayBegin with
  | nil => rfl
  | cons x s ih =>
      by_cases hx : isCommentStart x = true ∧ mayBegin = true
      · rw [beforeComment_cons, if_pos hx]
        rfl
      · rw [beforeComment_cons, if_neg hx, beforeComment_cons, if_neg hx, ih]

/-- Nothing begins in front of the first comment. -/
theorem commentFree_beforeComment (s : Bytes) : CommentFree (beforeComment true s) := by
  have h := beforeComment_eq_self_iff.mp (beforeComment_beforeComment true s)
  exact ⟨h.1 rfl, h.2⟩

/-- A text without a comment is left as it is. -/
theorem commentFree_iff {s : Bytes} : CommentFree s ↔ beforeComment true s = s := by
  rw [beforeComment_eq_self_iff, CommentFree]
  exact and_congr_left fun _ => ⟨fun h _ => h, fun h => h rfl⟩

/-- Nor does it when the white space at the ends is gone. -/
theorem CommentFree.trim {s : Bytes} (h : CommentFree s) : CommentFree (trim s) := by
  obtain ⟨a, b, hs, ha, -, -⟩ := exists_trim s
  refine ⟨fun c hc => ?_, fun x d c y hx => ?_⟩
  · obtain ⟨t, ht⟩ := List.head?_eq_some_iff.mp hc
    rw [ht] at hs
    rcases List.eq_nil_or_concat a with rfl | ⟨a, d, rfl⟩
    · exact h.1 c (by rw [hs]; rfl)
    · refine Bool.eq_false_iff.mpr fun hstart => ?_
      have hspace := ha d (by simp)
      have hnot := h.2 a d c (t ++ b) (by rw [hs]; simp) hstart
      exact Bool.noConfusion (hspace.symm.trans hnot)
  · refine h.2 (a ++ x) d c (y ++ b) ?_
    rw [hs, hx]
    simp

/-- What is left of a value is one that no comment begins in. -/
theorem commentFree_stripInlineComment (value : Bytes) : CommentFree (stripInlineComment value) :=
  (commentFree_beforeComment value).trim

/-- Stripping adds nothing. -/
theorem mem_of_mem_stripInlineComment {value : Bytes} {c : UInt8}
    (h : c ∈ stripInlineComment value) : c ∈ value :=
  (beforeComment_isPrefix true value).subset (mem_of_mem_trim h)

/-- **A value is read as it is** exactly if no comment begins in it. -/
theorem stripInlineComment_eq_self_iff {value : Bytes} (h : Trimmed value) :
    stripInlineComment value = value ↔ CommentFree value := by
  rw [commentFree_iff]
  constructor
  · intro heq
    obtain ⟨a, b, hs, -⟩ := exists_trim (beforeComment true value)
    have hprefix := beforeComment_isPrefix true value
    refine hprefix.eq_of_length (Nat.le_antisymm hprefix.length_le ?_)
    rw [stripInlineComment] at heq
    rw [heq] at hs
    have hlength := congrArg List.length hs
    simp only [List.length_append] at hlength
    omega
  · intro heq
    rw [stripInlineComment, heq, trim_trimmed h]

/-- The blank behind the equals sign. -/
theorem stripInlineComment_blank (value : Bytes) :
    stripInlineComment (32 :: value) = stripInlineComment value := by
  have hcons : beforeComment true (32 :: value) = 32 :: beforeComment true value := by
    rw [beforeComment_cons, if_neg (by simp [isCommentStart])]
    rfl
  rw [stripInlineComment, hcons, trim, List.dropWhile_cons_of_pos (by decide)]
  rfl

/-! ### Names, keys and values -/

/-- What stands in one line without white space at its ends. -/
structure IsText (s : Bytes) : Prop where
  trimmed : Trimmed s
  newline : 10 ∉ s

/-- The name of a section. -/
structure IsName (name : Bytes) : Prop extends IsText name where
  ne_nil : name ≠ []

/-- A key. -/
structure IsKey (key : Bytes) : Prop extends IsText key where
  ne_nil : key ≠ []
  equals : 61 ∉ key
  head : ∀ c ∈ key.head?, c ≠ 91 ∧ isCommentStart c = false

/-- A value that has come from a text. -/
structure IsValue (value : Bytes) : Prop extends IsText value where
  commentFree : CommentFree value

/-- The names, keys and values of a section. -/
structure SectionOf (P : Bytes → Prop) (d : SectionData) : Prop where
  keys : ∀ key ∈ d.values, IsKey key
  values : ∀ key value, d.values.lookup key = some value → P value

/-- The names, keys and values of a parser. -/
structure TextOf (P : Bytes → Prop) (data : Finmap fun _ : Bytes => SectionData) : Prop where
  names : ∀ name ∈ data, name ≠ [] → IsName name
  sections : ∀ name d, data.lookup name = some d → SectionOf P d

/-- A line that has been trimmed is a text. -/
theorem isText_trim {s : Bytes} (h : 10 ∉ s) : IsText (trim s) :=
  ⟨trimmed_trim s, fun hmem => h (mem_of_mem_trim hmem)⟩

/-- Where a text is cut, it has its first separator. -/
theorem cutAt_eq_append {sep : UInt8} {s a b : Bytes} (h : cutAt sep s = some (a, b)) :
    s = a ++ sep :: b ∧ sep ∉ a := by
  rw [cutAt] at h
  split at h
  · rename_i hmem
    obtain ⟨rfl, rfl⟩ := Prod.mk.inj (Option.some.inj h)
    refine ⟨?_, fun hsep => ?_⟩
    · have hne : s.dropWhile (· ≠ sep) ≠ [] := fun hnil => by
        have hall := List.dropWhile_eq_nil_iff.mp hnil sep hmem
        simp at hall
      obtain ⟨x, t, hx⟩ := List.exists_cons_of_ne_nil hne
      have hnot := List.head?_dropWhile_not (· ≠ sep) s
      rw [hx] at hnot
      obtain rfl : x = sep := by simpa using hnot
      rw [hx, List.tail_cons, ← hx, List.takeWhile_append_dropWhile]
    · have hnot := List.mem_takeWhile_imp hsep
      simp at hnot
  · cases h

/-- The key of a pair in a line that is no comment and no header. -/
theorem isKey_trim {line front behind : Bytes} (hline : IsText line)
    (hcomment : isCommentLine line = false) (hheader : line.head? ≠ some 91)
    (hcut : cutAt 61 line = some (front, behind)) (hne : trim front ≠ []) :
    IsKey (trim front) := by
  obtain ⟨rfl, hequals⟩ := cutAt_eq_append hcut
  have hnewline : 10 ∉ front := fun hmem => hline.newline (List.mem_append_left _ hmem)
  refine ⟨isText_trim hnewline, hne, fun hmem => hequals (mem_of_mem_trim hmem), fun c hc => ?_⟩
  -- the line has no white space in front, so neither has what is in front of the equals sign
  obtain ⟨a, b, hfront, ha, -, -⟩ := exists_trim front
  obtain ⟨t, ht⟩ := List.head?_eq_some_iff.mp hc
  have hnil : a = [] := by
    cases a with
    | nil => rfl
    | cons d a =>
        have hd := hline.trimmed.1 d (by rw [hfront]; rfl)
        exact absurd (ha d List.mem_cons_self) (by rw [hd]; exact Bool.noConfusion)
  have hhead : (front ++ 61 :: behind).head? = some c := by
    rw [hfront, hnil, ht]
    rfl
  rw [isCommentLine, hhead] at hcomment
  exact ⟨fun heq => hheader (heq ▸ hhead), hcomment⟩

/-- A value that has been stripped is loaded as it is. -/
theorem isValue_stripInlineComment {value : Bytes} (h : 10 ∉ value) :
    IsValue (stripInlineComment value) :=
  ⟨⟨trimmed_trim _, fun hmem => h (mem_of_mem_stripInlineComment hmem)⟩,
    commentFree_stripInlineComment value⟩

/-- A section with no values. -/
theorem sectionOf_empty {P : Bytes → Prop} : SectionOf P {} where
  keys key h := absurd h Finmap.notMem_empty
  values key value h := by
    rw [Finmap.lookup_empty] at h
    cases h

/-- A section with one more value. -/
theorem SectionOf.insert {P : Bytes → Prop} {d : SectionData} (h : SectionOf P d)
    {key value : Bytes} (hkey : IsKey key) (hvalue : P value) (order : List Bytes) :
    SectionOf P ⟨d.values.insert key value, order⟩ where
  keys other hmem := (Finmap.mem_insert.mp hmem).elim (fun heq => heq ▸ hkey) (h.keys other)
  values other v hlookup := by
    by_cases hother : other = key
    · subst hother
      rw [Finmap.lookup_insert] at hlookup
      exact Option.some.inj hlookup ▸ hvalue
    · rw [Finmap.lookup_insert_of_ne _ hother] at hlookup
      exact h.values other v hlookup

namespace TextOf

variable {P : Bytes → Prop} {data : Finmap fun _ : Bytes => SectionData} {d : SectionData}
  {name : Bytes}

/-- No sections. -/
theorem empty : TextOf P ∅ where
  names name h := absurd h Finmap.notMem_empty
  sections name d h := by
    rw [Finmap.lookup_empty] at h
    cases h

/-- The section that a name stands for, or an empty one. -/
theorem current (h : TextOf P data) (name : Bytes) :
    SectionOf P ((data.lookup name).getD {}) := by
  cases hd : data.lookup name with
  | none => exact sectionOf_empty
  | some d => exact h.sections name d hd

/-- One more section. -/
theorem insert (h : TextOf P data) (hname : name ≠ [] → IsName name) (hd : SectionOf P d) :
    TextOf P (data.insert name d) where
  names other hmem hne := by
    rcases Finmap.mem_insert.mp hmem with rfl | hmem
    · exact hname hne
    · exact h.names other hmem hne
  sections other d' hlookup := by
    by_cases hother : other = name
    · subst hother
      rw [Finmap.lookup_insert] at hlookup
      exact Option.some.inj hlookup ▸ hd
    · rw [Finmap.lookup_insert_of_ne _ hother] at hlookup
      exact h.sections other d' hlookup

end TextOf

/-! ### What comes from a text -/

/-- What has been read so far: the section in front of all others is there only with a pair. -/
structure Loading.Read (l : Loading) : Prop where
  ordered : l.Ordered
  text : TextOf IsValue l.parsedData
  current : l.currentSection ≠ [] → IsName l.currentSection
  global : ∀ d, l.parsedData.lookup [] = some d → d.keyOrder ≠ []

namespace Loading

variable {l l' : Loading} {n : ℕ} {line key value : Bytes}

/-- A header that has been read. -/
theorem read_openSection (h : l.Read) {name : Bytes} (hname : IsName name) :
    (l.openSection name).Read where
  ordered := ordered_openSection h.ordered hname.ne_nil
  text := by
    rw [openSection]
    split
    · exact h.text
    · exact h.text.insert (fun _ => hname) sectionOf_empty
  current _ := hname
  global := by
    rw [openSection]
    split
    · exact h.global
    · rw [Finmap.lookup_insert_of_ne _ hname.ne_nil.symm]
      exact h.global

/-- An entry that has been read. -/
theorem read_addEntry (h : l.Read) (hkey : IsKey key) (hvalue : IsValue value) :
    (l.addEntry key value).Read where
  ordered := ordered_addEntry h.ordered
  text := h.text.insert h.current ((h.text.current _).insert hkey hvalue _)
  current := h.current
  global d hd := by
    by_cases hcurrent : l.currentSection = []
    · rw [addEntry, hcurrent, Finmap.lookup_insert] at hd
      obtain rfl := Option.some.inj hd
      have hnew : key ∈ if key ∈ l.current.values then l.current.keyOrder
          else l.current.keyOrder ++ [key] :=
        (mem_track fun hmem => ((h.ordered.current _).mem_keyOrder key).mpr hmem).mpr (Or.inl rfl)
      exact List.ne_nil_of_mem hnew
    · rw [addEntry, Finmap.lookup_insert_of_ne _ (Ne.symm hcurrent)] at hd
      exact h.global d hd

/-- **One line** that has been read. -/
theorem read_readLine (h : l.Read) (hline : 10 ∉ line) (hread : l.readLine n line = .ok l') :
    l'.Read := by
  have hcr : 10 ∉ if line.getLast? = some 13 then line.dropLast else line := by
    split
    · exact fun hmem => hline (List.mem_of_mem_dropLast hmem)
    · exact hline
  have htext := isText_trim hcr
  rcases readTrimmed_cases hread with ⟨-, rfl⟩ | ⟨-, -, hname, rfl⟩ |
    ⟨front, behind, hcomment, hheader, hcut, hkey, rfl⟩
  · exact h
  · refine read_openSection h ⟨isText_trim fun hmem => ?_, hname⟩
    exact htext.newline (List.mem_of_mem_tail (List.mem_of_mem_dropLast hmem))
  · refine read_addEntry h (isKey_trim htext hcomment hheader hcut hkey) ?_
    refine isValue_stripInlineComment fun hmem => htext.newline ?_
    rw [(cutAt_eq_append hcut).1]
    exact List.mem_append_right _ (List.mem_cons_of_mem _ hmem)

/-- Nothing has been read. -/
theorem read_empty : Read {} where
  ordered := ordered_empty
  text := .empty
  current h := absurd rfl h
  global d h := by
    rw [Finmap.lookup_empty] at h
    cases h

end Loading

/-- A line has no line end. -/
theorem notMem_getlines {sep : UInt8} {s line : Bytes} (h : line ∈ getlines sep s) :
    sep ∉ line := by
  induction s generalizing line with
  | nil => cases h
  | cons c s ih =>
      rw [getlines] at h
      split at h
      · rcases List.mem_cons.mp h with rfl | h
        · exact List.not_mem_nil
        · exact ih h
      · rename_i hc
        split at h
        · rw [List.mem_singleton.mp h, List.mem_singleton]
          exact fun heq => hc heq.symm
        · rename_i field fields hfields
          rw [hfields] at ih
          rcases List.mem_cons.mp h with rfl | h
          · rw [List.mem_cons, not_or]
            exact ⟨fun heq => hc heq.symm, ih List.mem_cons_self⟩
          · exact ih (List.mem_cons_of_mem field h)

/-! ### The text of a parser -/

/-- A pair. -/
def entryLine (key value : Bytes) : Bytes := key ++ bytes " = " ++ value

/-- A header. -/
def headerLine (name : Bytes) : Bytes := bytes "[" ++ name ++ bytes "]"

/-- The pairs of a section in their order. -/
def entries (d : SectionData) : List (Bytes × Bytes) :=
  d.keyOrder.filterMap fun key => (d.values.lookup key).map (key, ·)

/-- The lines of the pairs of a section. -/
def entryLines (d : SectionData) : List Bytes := (entries d).map fun e => entryLine e.1 e.2

/-- The lines of the sections. -/
def sectionLines (p : IniParser) : Bool → List Bytes → List Bytes
  | _, [] => []
  | wroteSection, name :: names =>
      match p.data.lookup name with
      | none => sectionLines p wroteSection names
      | some d =>
          if name = [] then sectionLines p wroteSection names
          else (if wroteSection then [[]] else []) ++ headerLine name :: entryLines d ++
            sectionLines p true names

/-- The lines of `toString`. -/
def textLines (p : IniParser) : List Bytes :=
  match p.data.lookup [] with
  | none => sectionLines p false p.sectionOrder
  | some d => entryLines d ++ sectionLines p (d.keyOrder ≠ []) p.sectionOrder

/-- Every line with its end. -/
def ended (lines : List Bytes) : Bytes := lines.flatMap fun line => line ++ [10]

/-- Lines behind lines. -/
theorem ended_append (xs ys : List Bytes) : ended (xs ++ ys) = ended xs ++ ended ys :=
  List.flatMap_append

/-- Lines that have been ended are read back. -/
theorem getlines_ended {lines : List Bytes} (h : ∀ line ∈ lines, 10 ∉ line) :
    getlines 10 (ended lines) = lines := by
  induction lines with
  | nil => rfl
  | cons line lines ih =>
      have hcons : ended (line :: lines) = line ++ 10 :: ended lines := by
        rw [ended, List.flatMap_cons, List.append_assoc]
        rfl
      rw [hcons, getlines_append (h line List.mem_cons_self),
        ih fun other hmem => h other (List.mem_cons_of_mem line hmem)]

/-- The text of the entries of a section, by lines. -/
theorem ended_entryLines (d : SectionData) : entriesText d = ended (entryLines d) := by
  rw [entriesText, entryLines, entries]
  induction d.keyOrder with
  | nil => rfl
  | cons key keys ih =>
      rw [List.flatMap_cons, List.filterMap_cons, ih]
      cases d.values.lookup key with
      | none => rfl
      | some value => rfl

/-- The text of the sections, by lines. -/
theorem ended_sectionLines (p : IniParser) (wroteSection : Bool) (names : List Bytes) :
    p.sectionsText wroteSection names = ended (sectionLines p wroteSection names) := by
  induction names generalizing wroteSection with
  | nil => rfl
  | cons name names ih =>
      rw [sectionsText, sectionLines]
      cases p.data.lookup name with
      | none => exact ih wroteSection
      | some d =>
          dsimp only
          split
          · exact ih wroteSection
          · have hnewline : bytes "]\n" = bytes "]" ++ [10] := by decide
            rw [ended_append, ended_append, sectionText, hnewline, ended_entryLines, ih true]
            cases wroteSection <;> simp [ended, headerLine]

/-- The text of a parser, by lines. -/
theorem toString_eq (p : IniParser) : p.toString = ended (textLines p) := by
  rw [IniParser.toString, textLines]
  cases p.data.lookup [] with
  | none => exact ended_sectionLines p _ _
  | some d =>
      dsimp only
      rw [ended_append, ended_entryLines, ended_sectionLines]

/-! ### Reading the lines -/

namespace Loading

variable {l l' l'' : Loading} {lines more : List Bytes} {name key value : Bytes}

/-- The lines are read, whatever their numbers are. -/
inductive Reads : Loading → List Bytes → Loading → Prop
  | nil (l : Loading) : Reads l [] l
  | cons {l l' l'' : Loading} {line : Bytes} {more : List Bytes} :
      (∀ n, l.readLine n line = .ok l') → Reads l' more l'' → Reads l (line :: more) l''

/-- Lines that are read one by one are read at once. -/
theorem Reads.readLines (h : l.Reads lines l') (n : ℕ) : readLines n l lines = .ok l' := by
  induction h generalizing n with
  | nil l => rfl
  | cons hline _ ih =>
      rw [Loading.readLines, hline]
      exact ih (n + 1)

/-- Lines that are read behind others. -/
theorem Reads.append (h : l.Reads lines l') (hmore : l'.Reads more l'') :
    l.Reads (lines ++ more) l'' := by
  induction h with
  | nil l => exact hmore
  | cons hline _ ih => exact .cons hline (ih hmore)

/-- An empty line is skipped. -/
theorem readLine_blank (l : Loading) (n : ℕ) : l.readLine n [] = .ok l := rfl

/-- A line that does not end with a carriage return. -/
theorem readLine_eq {n : ℕ} {line : Bytes} (h : line.getLast? ≠ some 13) :
    l.readLine n line = l.readTrimmed n (trim line) := by
  rw [readLine, if_neg h]

/-- A header opens its section. -/
theorem readLine_header (hname : IsName name) (n : ℕ) :
    l.readLine n (headerLine name) = .ok (l.openSection name) := by
  have hlast : (headerLine name).getLast? = some 93 := by
    rw [headerLine, List.getLast?_append_of_ne_nil _ (by decide)]
    rfl
  have hhead : (headerLine name).head? = some 91 := rfl
  have htrim : trim (headerLine name) = headerLine name := by
    refine trim_trimmed ⟨fun c hc => ?_, fun c hc => ?_⟩
    · obtain rfl : 91 = c := Option.some.inj (hhead.symm.trans hc)
      rfl
    · obtain rfl : 93 = c := Option.some.inj (hlast.symm.trans hc)
      rfl
  have hinside : (headerLine name).tail.dropLast = name := by
    rw [headerLine]
    exact List.dropLast_concat
  have hne : ¬(headerLine name = [] ∨ isCommentLine (headerLine name) = true) := by
    rw [isCommentLine, hhead]
    rintro (hnil | hcomment)
    · rw [hnil] at hhead
      cases hhead
    · exact absurd hcomment (by decide)
  rw [readLine_eq (by rw [hlast]; decide), htrim, readTrimmed, if_neg hne, if_pos hhead,
    if_neg (not_not.mpr hlast), hinside, trim_trimmed hname.trimmed]
  exact if_neg hname.ne_nil

/-- A pair is read with what is left of its value. -/
theorem readLine_entry (hkey : IsKey key) (hvalue : IsText value) (n : ℕ) :
    l.readLine n (entryLine key value) = .ok (l.addEntry key (stripInlineComment value)) := by
  have htrimKey : trim (key ++ [32]) = key := by
    have h := trim_append (a := []) (b := [32]) (List.forall_mem_nil _)
      (List.forall_mem_singleton.mpr rfl) hkey.trimmed
    rwa [List.nil_append] at h
  have hequals : 61 ∉ key ++ [32] := by
    rw [List.mem_append, not_or]
    exact ⟨hkey.equals, by decide⟩
  -- what is left of the line, with the blank behind the equals sign or without it
  obtain ⟨behind, htrim, hbehind⟩ : ∃ behind,
      trim (entryLine key value) = key ++ [32] ++ 61 :: behind ∧
        stripInlineComment behind = stripInlineComment value := by
    have hhead (s : Bytes) : ∀ c ∈ (key ++ s).head?, isspace c = false := by
      rw [List.head?_append_of_ne_nil _ hkey.ne_nil]
      exact hkey.trimmed.1
    by_cases hnil : value = []
    · subst hnil
      refine ⟨[], ?_, rfl⟩
      have h := trim_append (a := []) (s := key ++ [32, 61]) (b := [32])
        (List.forall_mem_nil _) (List.forall_mem_singleton.mpr rfl)
        ⟨hhead _, by simp; decide⟩
      rw [List.nil_append, List.append_assoc] at h
      rw [entryLine, List.append_nil, List.append_assoc]
      exact h
    · refine ⟨32 :: value, ?_, stripInlineComment_blank value⟩
      have hline : entryLine key value = key ++ [32] ++ 61 :: 32 :: value := by
        rw [entryLine, List.append_assoc, List.append_assoc]
        rfl
      rw [hline]
      refine trim_trimmed ⟨by rw [List.append_assoc]; exact hhead _, ?_⟩
      rw [← hline, entryLine, List.getLast?_append_of_ne_nil _ hnil]
      exact hvalue.trimmed.2
  have hlast : (entryLine key value).getLast? ≠ some 13 := by
    rw [entryLine]
    by_cases hnil : value = []
    · rw [hnil, List.append_nil, List.getLast?_append_of_ne_nil _ (by decide)]
      decide
    · rw [List.getLast?_append_of_ne_nil _ hnil]
      exact fun heq => absurd (hvalue.trimmed.2 13 heq) (by decide)
  obtain ⟨c, t, rfl⟩ := List.exists_cons_of_ne_nil hkey.ne_nil
  obtain ⟨hheader, hcomment⟩ := hkey.head c rfl
  have hblank : ¬(c :: t ++ [32] ++ 61 :: behind = [] ∨
      isCommentLine (c :: t ++ [32] ++ 61 :: behind) = true) := by
    rintro (hnil | hyes)
    · cases hnil
    · exact Bool.noConfusion (hcomment.symm.trans hyes)
  have hhead : ¬((c :: t ++ [32] ++ 61 :: behind).head? = some 91) := fun heq =>
    hheader (Option.some.inj heq)
  rw [readLine_eq hlast, htrim, readTrimmed, if_neg hblank, if_neg hhead,
    cutAt_append hequals]
  dsimp only
  rw [htrimKey, if_neg hkey.ne_nil, hbehind]

/-- The pairs of a section are read one after the other. -/
theorem reads_entries {es : List (Bytes × Bytes)} (hkeys : ∀ e ∈ es, IsKey e.1)
    (hvalues : ∀ e ∈ es, IsText e.2) :
    l.Reads (es.map fun e => entryLine e.1 e.2)
      (es.foldl (fun l e => l.addEntry e.1 (stripInlineComment e.2)) l) := by
  induction es generalizing l with
  | nil => exact .nil l
  | cons e es ih =>
      refine .cons (readLine_entry (hkeys e List.mem_cons_self) (hvalues e List.mem_cons_self)) ?_
      exact ih (fun e' h => hkeys e' (List.mem_cons_of_mem e h))
        fun e' h => hvalues e' (List.mem_cons_of_mem e h)

/-- Pairs with new keys are put behind the others. -/
theorem addEntries {es : List (Bytes × Bytes)} (hnodup : (es.map Prod.fst).Nodup)
    (hnew : ∀ e ∈ es, e.1 ∉ l.current.values)
    (hknown : l.currentSection = [] ∨ l.currentSection ∈ l.parsedSectionOrder) :
    let l' := es.foldl (fun l e => l.addEntry e.1 (stripInlineComment e.2)) l
    l'.parsedSectionOrder = l.parsedSectionOrder ∧ l'.currentSection = l.currentSection ∧
      (∀ name, name ≠ l.currentSection → l'.parsedData.lookup name = l.parsedData.lookup name) ∧
      (es = [] → l'.parsedData = l.parsedData) ∧
      (es ≠ [] → l'.parsedData.lookup l.currentSection = some
        { values := es.foldl (fun m e => m.insert e.1 (stripInlineComment e.2)) l.current.values
          keyOrder := l.current.keyOrder ++ es.map Prod.fst }) := by
  induction es generalizing l with
  | nil => exact ⟨rfl, rfl, fun _ _ => rfl, fun _ => rfl, fun h => absurd rfl h⟩
  | cons e es ih =>
      obtain ⟨hfresh, hrest⟩ := List.nodup_cons.mp hnodup
      have horder : (l.addEntry e.1 (stripInlineComment e.2)).parsedSectionOrder =
          l.parsedSectionOrder := if_neg (not_new_iff.mpr hknown)
      have hcurrent : (l.addEntry e.1 (stripInlineComment e.2)).current =
          ⟨l.current.values.insert e.1 (stripInlineComment e.2), l.current.keyOrder ++ [e.1]⟩ := by
        rw [current, addEntry, Finmap.lookup_insert, Option.getD_some,
          if_neg (hnew e List.mem_cons_self)]
      obtain ⟨hsame, hsection, hothers, hnone, hsome⟩ := ih hrest (fun e' h => by
        rw [hcurrent, Finmap.mem_insert, not_or]
        refine ⟨fun heq => hfresh (heq ▸ List.mem_map_of_mem h), ?_⟩
        exact hnew e' (List.mem_cons_of_mem e h)) (by rw [horder]; exact hknown)
      refine ⟨hsame.trans horder, hsection, fun name hname => ?_, fun h => absurd h (by simp),
        fun _ => ?_⟩
      · exact (hothers name hname).trans (Finmap.lookup_insert_of_ne _ hname)
      · rw [List.foldl_cons, List.foldl_cons, List.map_cons]
        by_cases hes : es = []
        · subst hes
          have hlookup : (l.addEntry e.1 (stripInlineComment e.2)).parsedData.lookup
              l.currentSection = some (l.addEntry e.1 (stripInlineComment e.2)).current := by
            rw [hcurrent, addEntry, Finmap.lookup_insert, if_neg (hnew e List.mem_cons_self)]
          exact hlookup.trans (congrArg some hcurrent)
        · have hlookup := hsome hes
          rw [hcurrent, List.append_assoc] at hlookup
          exact hlookup

end Loading

/-- A section as it is read again. -/
def reread (d : SectionData) : SectionData where
  values := (entries d).foldl (fun m e => m.insert e.1 (stripInlineComment e.2)) ∅
  keyOrder := d.keyOrder

section Reread

variable {d : SectionData}

/-- The pairs of some keys of a section. -/
theorem lookup_foldl_entries {keys : List Bytes} (hkeys : ∀ key ∈ keys, key ∈ d.values)
    (m : Finmap fun _ : Bytes => Bytes) (key : Bytes) :
    ((keys.filterMap fun key => (d.values.lookup key).map (key, ·)).foldl
        (fun m e => m.insert e.1 (stripInlineComment e.2)) m).lookup key =
      if key ∈ keys then (d.values.lookup key).map stripInlineComment else m.lookup key := by
  induction keys generalizing m with
  | nil => rfl
  | cons k keys ih =>
      obtain ⟨value, hvalue⟩ := Finmap.mem_iff.mp (hkeys k List.mem_cons_self)
      rw [List.filterMap_cons, hvalue]
      dsimp only [Option.map_some]
      rw [List.foldl_cons, ih fun key h => hkeys key (List.mem_cons_of_mem k h)]
      by_cases hmem : key ∈ keys
      · rw [if_pos hmem, if_pos (List.mem_cons_of_mem k hmem)]
      · rw [if_neg hmem]
        by_cases hk : key = k
        · subst hk
          rw [Finmap.lookup_insert, if_pos List.mem_cons_self, hvalue]
          rfl
        · rw [Finmap.lookup_insert_of_ne _ hk, if_neg (by simp [hk, hmem])]

/-- A value that is reread has lost what looks like a comment. -/
theorem lookup_reread (h : d.Ordered) (key : Bytes) :
    (reread d).values.lookup key = (d.values.lookup key).map stripInlineComment := by
  rw [reread, entries, lookup_foldl_entries fun k hk => (h.mem_keyOrder k).mp hk]
  split
  · rfl
  · rw [Finmap.lookup_empty, Finmap.lookup_eq_none.mpr (mt (h.mem_keyOrder key).mpr ‹_›)]
    rfl

/-- The entries are in the order of their keys. -/
theorem map_fst_entries (h : d.Ordered) : (entries d).map Prod.fst = d.keyOrder := by
  have hkeys : ∀ keys : List Bytes, (∀ key ∈ keys, key ∈ d.values) →
      (keys.filterMap fun key => (d.values.lookup key).map (key, ·)).map Prod.fst = keys := by
    intro keys hkeys
    induction keys with
    | nil => rfl
    | cons k keys ih =>
        obtain ⟨value, hvalue⟩ := Finmap.mem_iff.mp (hkeys k List.mem_cons_self)
        rw [List.filterMap_cons, hvalue]
        exact congrArg (k :: ·) (ih fun key hk => hkeys key (List.mem_cons_of_mem k hk))
  exact hkeys d.keyOrder fun key hk => (h.mem_keyOrder key).mp hk

/-- A section without keys has no entries. -/
theorem entries_eq_nil (h : d.Ordered) : entries d = [] ↔ d.keyOrder = [] := by
  rw [← map_fst_entries h, List.map_eq_nil_iff]

/-- An entry has the value of its key. -/
theorem mem_entries {e : Bytes × Bytes} (h : e ∈ entries d) :
    e.1 ∈ d.values ∧ d.values.lookup e.1 = some e.2 := by
  obtain ⟨key, -, he⟩ := List.mem_filterMap.mp h
  obtain ⟨value, hvalue, rfl⟩ := Option.map_eq_some_iff.mp he
  exact ⟨Finmap.mem_of_lookup_eq_some hvalue, hvalue⟩

end Reread

namespace Loading

variable {p : IniParser} {l : Loading}

/-- The pairs of a section are read into a section that is empty. -/
theorem reads_section {d : SectionData} (hd : d.Ordered) (htext : SectionOf IsText d)
    (hempty : l.current = {})
    (hknown : l.currentSection = [] ∨ l.currentSection ∈ l.parsedSectionOrder) :
    ∃ l', l.Reads (entryLines d) l' ∧ l'.parsedSectionOrder = l.parsedSectionOrder ∧
      l'.currentSection = l.currentSection ∧
      (∀ name, name ≠ l.currentSection → l'.parsedData.lookup name = l.parsedData.lookup name) ∧
      l'.parsedData.lookup l.currentSection =
        if d.keyOrder = [] then l.parsedData.lookup l.currentSection else some (reread d) := by
  have hkeys := fun e he => htext.keys e.1 (mem_entries (e := e) he).1
  have hvalues := fun e he => htext.values e.1 e.2 (mem_entries (e := e) he).2
  have hnodup : ((entries d).map Prod.fst).Nodup := by
    rw [map_fst_entries hd]
    exact hd.nodup
  have hnew : ∀ e ∈ entries d, e.1 ∉ l.current.values := fun e _ => by
    rw [hempty]
    exact Finmap.notMem_empty
  obtain ⟨hsame, hsection, hothers, hnone, hsome⟩ := addEntries hnodup hnew hknown
  refine ⟨_, reads_entries hkeys hvalues, hsame, hsection, hothers, ?_⟩
  split
  · rw [hnone ((entries_eq_nil hd).mpr ‹_›)]
  · rw [hsome (mt (entries_eq_nil hd).mp ‹_›), hempty, map_fst_entries hd]
    rfl

/-- **The sections are read one after the other.** -/
theorem reads_sections {names : List Bytes} {wroteSection : Bool} (hnodup : names.Nodup)
    (hnew : ∀ name ∈ names, name ∉ l.parsedData)
    (hnames : ∀ name ∈ names, IsName name ∧
      ∃ d, p.data.lookup name = some d ∧ d.Ordered ∧ SectionOf IsText d) :
    ∃ l', l.Reads (p.sectionLines wroteSection names) l' ∧
      l'.parsedSectionOrder = l.parsedSectionOrder ++ names ∧
      ∀ name, l'.parsedData.lookup name =
        if name ∈ names then (p.data.lookup name).map reread else l.parsedData.lookup name := by
  induction names generalizing l wroteSection with
  | nil => exact ⟨l, .nil l, (List.append_nil _).symm, fun _ => rfl⟩
  | cons name names ih =>
      obtain ⟨hfresh, hrest⟩ := List.nodup_cons.mp hnodup
      obtain ⟨hname, d, hlookup, hd, htext⟩ := hnames name List.mem_cons_self
      have hno := hnew name List.mem_cons_self
      have hopened : l.openSection name =
          ⟨l.parsedData.insert name {}, l.parsedSectionOrder ++ [name], name⟩ := by
        rw [openSection, if_neg hno, if_neg hno]
      have hempty : (l.openSection name).current = {} := by
        rw [hopened, current, Finmap.lookup_insert]
        rfl
      obtain ⟨l₁, hreads, horder, -, hothers, hown⟩ := reads_section hd htext hempty
        (Or.inr (by rw [hopened]; simp))
      rw [hopened] at horder hothers hown
      dsimp only at horder hothers hown
      have hreread : l₁.parsedData.lookup name = some (reread d) := by
        rw [hown]
        split
        · rename_i hnil
          rw [Finmap.lookup_insert, reread, (entries_eq_nil hd).mpr hnil, hnil]
          rfl
        · rfl
      obtain ⟨l₂, hmore, horder₂, hlookups⟩ := @ih l₁ true hrest
        (fun other hmem => by
          have hne : other ≠ name := fun heq => hfresh (heq ▸ hmem)
          rw [← Finmap.lookup_eq_none, hothers other hne, Finmap.lookup_insert_of_ne _ hne,
            Finmap.lookup_eq_none]
          exact hnew other (List.mem_cons_of_mem name hmem))
        fun other hmem => hnames other (List.mem_cons_of_mem name hmem)
      have hheader := (Reads.cons (fun n => readLine_header hname n) hreads).append hmore
      refine ⟨l₂, ?_, by rw [horder₂, horder, List.append_assoc]; rfl, fun other => ?_⟩
      · rw [sectionLines, hlookup]
        dsimp only
        rw [if_neg hname.ne_nil, List.append_assoc]
        cases wroteSection with
        | false => exact hheader
        | true => exact .cons (readLine_blank l) hheader
      · rw [hlookups other]
        by_cases hmem : other ∈ names
        · rw [if_pos hmem, if_pos (List.mem_cons_of_mem name hmem)]
        · rw [if_neg hmem]
          by_cases heq : other = name
          · subst heq
            rw [hreread, if_pos List.mem_cons_self, hlookup]
            rfl
          · rw [hothers other heq, Finmap.lookup_insert_of_ne _ heq,
              if_neg (by simp [heq, hmem])]

end Loading

/-! ### The whole text -/

section Reload

variable {p : IniParser}

/-- An entry is one line. -/
theorem IsKey.notMem_entryLine {key value : Bytes} (hkey : IsKey key) (hvalue : IsText value) :
    10 ∉ entryLine key value := by
  simp only [entryLine, List.mem_append, not_or]
  exact ⟨⟨hkey.newline, by decide⟩, hvalue.newline⟩

/-- Each entry is one line. -/
theorem notMem_entryLines {d : SectionData} (htext : SectionOf IsText d) :
    ∀ line ∈ entryLines d, 10 ∉ line := by
  intro line hline
  obtain ⟨e, he, rfl⟩ := List.mem_map.mp hline
  exact (htext.keys e.1 (mem_entries he).1).notMem_entryLine
    (htext.values e.1 e.2 (mem_entries he).2)

/-- Each line of the sections is one. -/
theorem notMem_sectionLines (htext : TextOf IsText p.data) (wroteSection : Bool)
    (names : List Bytes) : ∀ line ∈ p.sectionLines wroteSection names, 10 ∉ line := by
  induction names generalizing wroteSection with
  | nil => exact List.forall_mem_nil _
  | cons name names ih =>
      rw [sectionLines]
      cases hlookup : p.data.lookup name with
      | none => exact ih wroteSection
      | some d =>
          dsimp only
          split
          · exact ih wroteSection
          · rename_i hne
            intro line hline
            rw [List.mem_append, List.mem_append, List.mem_cons] at hline
            rcases hline with (hline | rfl | hline) | hline
            · split at hline
              · rw [List.mem_singleton.mp hline]
                exact List.not_mem_nil
              · cases hline
            · have hname := htext.names name (Finmap.mem_of_lookup_eq_some hlookup) hne
              simp only [headerLine, List.mem_append, not_or]
              exact ⟨⟨by decide, hname.newline⟩, by decide⟩
            · exact notMem_entryLines (htext.sections name d hlookup) line hline
            · exact ih true line hline

/-- Each line of the text is one. -/
theorem notMem_textLines (htext : TextOf IsText p.data) : ∀ line ∈ textLines p, 10 ∉ line := by
  rw [textLines]
  cases hlookup : p.data.lookup [] with
  | none => exact notMem_sectionLines htext _ _
  | some d =>
      intro line hline
      rcases List.mem_append.mp hline with hline | hline
      · exact notMem_entryLines (htext.sections [] d hlookup) line hline
      · exact notMem_sectionLines htext _ _ line hline

/-- **What is read of the text of a parser**: its sections in their order, each of them with its
keys in their order and what is left of their values. -/
theorem reads_textLines (hord : Ordered p.data p.sectionOrder) (htext : TextOf IsText p.data) :
    ∃ l, Loading.Reads {} (textLines p) l ∧ l.parsedSectionOrder = p.sectionOrder ∧
      ∀ name, l.parsedData.lookup name =
        ((p.data.lookup name).filter fun d => name ≠ [] ∨ d.keyOrder ≠ []).map reread := by
  have hnames : ∀ name ∈ p.sectionOrder, IsName name ∧
      ∃ d, p.data.lookup name = some d ∧ d.Ordered ∧ SectionOf IsText d := by
    intro name hmem
    obtain ⟨hne, hdata⟩ := (hord.mem_sectionOrder name).mp hmem
    obtain ⟨d, hd⟩ := Finmap.mem_iff.mp hdata
    exact ⟨htext.names name hdata hne, d, hd, hord.sections name d hd, htext.sections name d hd⟩
  have hempty : [] ∉ p.sectionOrder := fun hmem => ((hord.mem_sectionOrder []).mp hmem).1 rfl
  have hsections (l₁ : Loading) (wroteSection : Bool) (horder : l₁.parsedSectionOrder = [])
      (hothers : ∀ name, name ≠ [] → l₁.parsedData.lookup name = none)
      (hglobal : l₁.parsedData.lookup [] =
        ((p.data.lookup []).filter fun d => d.keyOrder ≠ []).map reread) :
      ∃ l, l₁.Reads (p.sectionLines wroteSection p.sectionOrder) l ∧
        l.parsedSectionOrder = p.sectionOrder ∧ ∀ name, l.parsedData.lookup name =
          ((p.data.lookup name).filter fun d => name ≠ [] ∨ d.keyOrder ≠ []).map reread := by
    have hnew : ∀ name ∈ p.sectionOrder, name ∉ l₁.parsedData := fun name hmem =>
      Finmap.lookup_eq_none.mp (hothers name ((hord.mem_sectionOrder name).mp hmem).1)
    obtain ⟨l, hreads, horder', hlookup⟩ :=
      @Loading.reads_sections p l₁ p.sectionOrder wroteSection hord.nodup hnew hnames
    refine ⟨l, hreads, by rw [horder', horder, List.nil_append], fun name => ?_⟩
    rw [hlookup name]
    by_cases hname : name = []
    · subst hname
      rw [if_neg hempty, hglobal]
      simp
    · by_cases hmem : name ∈ p.sectionOrder
      · rw [if_pos hmem]
        cases p.data.lookup name <;> simp [hname]
      · have hnone : p.data.lookup name = none := Finmap.lookup_eq_none.mpr fun hdata =>
          hmem ((hord.mem_sectionOrder name).mpr ⟨hname, hdata⟩)
        rw [if_neg hmem, hothers name hname, hnone]
        rfl
  rw [textLines]
  cases hlookup : p.data.lookup [] with
  | none => exact hsections {} false rfl (fun _ _ => Finmap.lookup_empty _) (by rw [hlookup]; rfl)
  | some d =>
      obtain ⟨l₁, hreads, horder, -, hothers, hown⟩ := Loading.reads_section (l := {})
        (hord.sections [] d hlookup) (htext.sections [] d hlookup)
        (by rw [Loading.current, Finmap.lookup_empty]; rfl) (Or.inl rfl)
      obtain ⟨l, hmore, horder', hlookups⟩ := hsections l₁ (d.keyOrder ≠ []) horder
        (fun name hname => (hothers name hname).trans (Finmap.lookup_empty _)) (by
          rw [hown, hlookup, Finmap.lookup_empty]
          by_cases hnil : d.keyOrder = [] <;> simp [hnil])
      exact ⟨l, hreads.append hmore, horder', hlookups⟩

/-- The text of a parser is read. -/
theorem loadFromString_toString (hord : Ordered p.data p.sectionOrder)
    (htext : TextOf IsText p.data) : ∃ data, (∀ q : IniParser, q.loadFromString p.toString =
      (true, { data := data, sectionOrder := p.sectionOrder })) ∧
      ∀ name, data.lookup name =
        ((p.data.lookup name).filter fun d => name ≠ [] ∨ d.keyOrder ≠ []).map reread := by
  obtain ⟨l, hreads, horder, hlookup⟩ := reads_textLines hord htext
  refine ⟨l.parsedData, fun q => ?_, hlookup⟩
  rw [loadFromString, toString_eq, getlines_ended (notMem_textLines htext), hreads.readLines]
  dsimp only
  rw [horder]

end Reload

/-! ### What has been loaded -/

/-- A section whose values have a property has a weaker one. -/
theorem SectionOf.mono {P Q : Bytes → Prop} {d : SectionData} (h : SectionOf P d)
    (himp : ∀ value, P value → Q value) : SectionOf Q d :=
  ⟨h.keys, fun key value hvalue => himp value (h.values key value hvalue)⟩

/-- Values that have a property have a weaker one. -/
theorem TextOf.mono {P Q : Bytes → Prop} {data : Finmap fun _ : Bytes => SectionData}
    (h : TextOf P data) (himp : ∀ value, P value → Q value) : TextOf Q data :=
  ⟨h.names, fun name d hd => (h.sections name d hd).mono himp⟩

/-- A section of values that come from a text is read again as it is. -/
theorem reread_eq {d : SectionData} (hd : d.Ordered) (h : SectionOf IsValue d) : reread d = d := by
  have hvalues : (reread d).values = d.values := Finmap.ext_lookup fun key => by
    rw [lookup_reread hd]
    cases hvalue : d.values.lookup key with
    | none => rfl
    | some value =>
        have hv := h.values key value hvalue
        exact congrArg some ((stripInlineComment_eq_self_iff hv.trimmed).mpr hv.commentFree)
  exact congrArg (SectionData.mk · d.keyOrder) hvalues

/-- What a text that is accepted leaves behind. -/
theorem loadFromString_ok (p : IniParser) {content : Bytes}
    (h : (p.loadFromString content).1 = true) :
    ∃ l : Loading, l.Read ∧ (p.loadFromString content).2 =
      { data := l.parsedData, sectionOrder := l.parsedSectionOrder } := by
  rw [loadFromString] at h ⊢
  split at h
  · cases h
  · rename_i l hl
    refine ⟨l, ?_, rfl⟩
    exact Loading.readLines_induction
      (fun _ _ _ _ hmem hread hline => Loading.read_readLine hread (notMem_getlines hmem) hline)
      hl Loading.read_empty

/-- **A parser that has been loaded is read again as it is**: the same sections and keys in the same
order, with the same values. Its text is written again. -/
theorem reload_loaded (p : IniParser) (content : Bytes)
    (h : (p.loadFromString content).1 = true) (fresh : IniParser) :
    let loaded := (p.loadFromString content).2
    fresh.loadFromString loaded.toString = (true, loaded) ∧
      (fresh.loadFromString loaded.toString).2.toString = loaded.toString := by
  obtain ⟨l, hread, heq⟩ := loadFromString_ok p h
  dsimp only
  rw [heq]
  obtain ⟨data, hload, hlookup⟩ :=
    loadFromString_toString (p := ⟨l.parsedData, l.parsedSectionOrder, [], ""⟩) hread.ordered
      (hread.text.mono fun value hvalue => hvalue.toIsText)
  have hsame : data = l.parsedData := Finmap.ext_lookup fun name => by
    rw [hlookup name]
    dsimp only
    cases hd : l.parsedData.lookup name with
    | none => rfl
    | some d =>
        have hkept : name ≠ [] ∨ d.keyOrder ≠ [] := by
          by_cases hname : name = []
          · exact Or.inr (hread.global d (hname ▸ hd))
          · exact Or.inl hname
        rw [Option.filter_some, if_pos (decide_eq_true hkept), Option.map_some,
          reread_eq (hread.ordered.sections name d hd) (hread.text.sections name d hd)]
  rw [hsame] at hload
  refine ⟨hload fresh, ?_⟩
  rw [hload fresh]

/-- A text with white space and comments in odd places. -/
theorem odd_text_reloaded :
    let loaded := (loadFromString {} (bytes " a ;b = c#d ; e\n[ [x]# ]\r\nk==[v]\n")).2
    loadFromString {} loaded.toString = (true, loaded) ∧
      (loadFromString {} loaded.toString).2.toString = loaded.toString :=
  reload_loaded {} _ (by decide) {}

/-! ### What has been set -/

/-- A name that a text can give to a section, or to what is in front of all sections. -/
def CanLoadName (name : Bytes) : Prop :=
  ∃ content, (loadFromString {} content).1 = true ∧ name ∈ (loadFromString {} content).2.data

/-- A key that a text can have. -/
def CanLoadKey (key : Bytes) : Prop :=
  ∃ content name d, (loadFromString {} content).1 = true ∧
    (loadFromString {} content).2.data.lookup name = some d ∧ key ∈ d.values

/-- A name that can be loaded is one. -/
theorem CanLoadName.isName {name : Bytes} (h : CanLoadName name) (hne : name ≠ []) :
    IsName name := by
  obtain ⟨content, hok, hmem⟩ := h
  obtain ⟨l, hread, heq⟩ := loadFromString_ok {} hok
  rw [heq] at hmem
  exact hread.text.names name hmem hne

/-- A key that can be loaded is one. -/
theorem CanLoadKey.isKey {key : Bytes} (h : CanLoadKey key) : IsKey key := by
  obtain ⟨content, name, d, hok, hd, hmem⟩ := h
  obtain ⟨l, hread, heq⟩ := loadFromString_ok {} hok
  rw [heq] at hd
  exact (hread.text.sections name d hd).keys key hmem

/-- The calls of `setValue`, with the name, the key and the value of each. -/
def setValues (sets : List (Bytes × Bytes × Bytes)) : IniParser :=
  sets.foldl (fun p set => p.setValue set.1 set.2.1 set.2.2) {}

/-- A parser is read again with all of its values. -/
def Survives (p : IniParser) : Prop :=
  (loadFromString {} p.toString).1 = true ∧
    ∀ name key, (loadFromString {} p.toString).2.lookup name key = p.lookup name key

/-- What `setValue` keeps, with values that meet `P`. -/
structure Settable (P : Bytes → Prop) (p : IniParser) : Prop where
  ordered : Ordered p.data p.sectionOrder
  text : TextOf P p.data

/-- The values meet `P`. -/
theorem Settable.lookup {P : Bytes → Prop} {p : IniParser} (h : p.Settable P)
    {name key value : Bytes} (hvalue : p.lookup name key = some value) : P value := by
  obtain ⟨d, hd, hkey⟩ := Option.bind_eq_some_iff.mp hvalue
  exact (h.text.sections name d hd).values key value hkey

/-- A value that is set keeps the condition. -/
theorem Settable.setValue {P : Bytes → Prop} {p : IniParser} (h : p.Settable P)
    {name key value : Bytes} (hname : CanLoadName name) (hkey : CanLoadKey key)
    (hvalue : P value) : (p.setValue name key value).Settable P where
  ordered := h.ordered.call (.setValue name key value)
  text := h.text.insert hname.isName ((h.text.current name).insert hkey.isKey hvalue _)

/-- The calls of `setValue` set values that meet `P`. -/
theorem settable_setValues {P : Bytes → Prop} {sets : List (Bytes × Bytes × Bytes)}
    (h : ∀ set ∈ sets, CanLoadName set.1 ∧ CanLoadKey set.2.1 ∧ P set.2.2) :
    (setValues sets).Settable P := by
  have hsets : ∀ p : IniParser, p.Settable P →
      (sets.foldl (fun p set => p.setValue set.1 set.2.1 set.2.2) p).Settable P := by
    induction sets with
    | nil => exact fun _ hp => hp
    | cons set sets ih =>
        obtain ⟨hname, hkey, hvalue⟩ := h set List.mem_cons_self
        exact fun p hp => ih (fun other hmem => h other (List.mem_cons_of_mem set hmem)) _
          (hp.setValue hname hkey hvalue)
  exact hsets {} ⟨ordered_empty, .empty⟩

/-- **What is read again of a value** that has been set. -/
theorem lookup_reload {p : IniParser} (h : p.Settable IsText) (name key : Bytes) :
    (loadFromString {} p.toString).1 = true ∧
      (loadFromString {} p.toString).2.lookup name key =
        (p.lookup name key).map stripInlineComment := by
  obtain ⟨data, hload, hlookup⟩ := loadFromString_toString h.ordered h.text
  rw [hload]
  refine ⟨rfl, ?_⟩
  rw [lookup, lookup, hlookup]
  cases hd : p.data.lookup name with
  | none => rfl
  | some d =>
      have hord := h.ordered.sections name d hd
      by_cases hkept : name ≠ [] ∨ d.keyOrder ≠ []
      · rw [Option.filter_some, if_pos (decide_eq_true hkept)]
        exact lookup_reread hord key
      · -- a section without keys has no values
        obtain ⟨-, hnil⟩ := not_or.mp hkept
        have hnone : d.values.lookup key = none := Finmap.lookup_eq_none.mpr fun hmem => by
          rw [← hord.mem_keyOrder, not_not.mp hnil] at hmem
          cases hmem
        rw [Option.filter_some, if_neg (by simpa using hkept), Option.bind_some, hnone]
        rfl

/-- **Values that have been set are read again** exactly if no comment begins in them. -/
theorem survives_iff (sets : List (Bytes × Bytes × Bytes))
    (h : ∀ set ∈ sets, CanLoadName set.1 ∧ CanLoadKey set.2.1 ∧ IsText set.2.2) :
    (setValues sets).Survives ↔
      ∀ name key value, (setValues sets).lookup name key = some value → CommentFree value := by
  have hset := settable_setValues h
  have htrimmed : ∀ name key value, (setValues sets).lookup name key = some value →
      Trimmed value := fun name key value hvalue => (hset.lookup hvalue).trimmed
  constructor
  · rintro ⟨-, hsame⟩ name key value hvalue
    have hread := (lookup_reload hset name key).2
    rw [hsame, hvalue, Option.map_some, Option.some.injEq] at hread
    exact (stripInlineComment_eq_self_iff (htrimmed name key value hvalue)).mp hread.symm
  · intro hfree
    refine ⟨(lookup_reload hset [] []).1, fun name key => ?_⟩
    rw [(lookup_reload hset name key).2]
    cases hvalue : (setValues sets).lookup name key with
    | none => rfl
    | some value =>
        exact congrArg some ((stripInlineComment_eq_self_iff
          (htrimmed name key value hvalue)).mpr (hfree name key value hvalue))

/-- Two values with the characters of comments where none begins, one of them set twice. -/
def paths : List (Bytes × Bytes × Bytes) :=
  [([], bytes "cache", bytes "/tmp/a;b"), (bytes "net", bytes "path", bytes "/tmp/c"),
    (bytes "net", bytes "path", bytes "/tmp/cache#1")]

/-- Values with the characters of comments that are read again. -/
theorem paths_survive : (setValues paths).Survives := by
  have hpaths : ∀ set ∈ paths, CanLoadName set.1 ∧ CanLoadKey set.2.1 ∧ IsText set.2.2 := by
    have hpath : CanLoadKey (bytes "path") := ⟨bytes "path=", [],
      ⟨Finmap.singleton (bytes "path") [], [bytes "path"]⟩, by decide, by decide, by decide⟩
    simp only [paths, List.forall_mem_cons]
    refine ⟨⟨⟨bytes "k=", by decide, by decide⟩, ⟨bytes "cache=", [],
      ⟨Finmap.singleton (bytes "cache") [], [bytes "cache"]⟩, by decide, by decide, by decide⟩,
      by decide, by decide⟩, ⟨⟨bytes "[net]", by decide, by decide⟩, hpath, by decide, by decide⟩,
      ⟨⟨bytes "[net]", by decide, by decide⟩, hpath, by decide, by decide⟩, List.forall_mem_nil _⟩
  have hfree : ∀ set ∈ paths, CommentFree set.2.2 := by
    intro set hset
    refine (stripInlineComment_eq_self_iff (hpaths set hset).2.2.trimmed).mp ?_
    simp only [paths, List.mem_cons, List.not_mem_nil, or_false] at hset
    rcases hset with rfl | rfl | rfl <;> decide
  have hset := settable_setValues fun set hset =>
    ⟨(hpaths set hset).1, (hpaths set hset).2.1, hfree set hset⟩
  exact (survives_iff paths hpaths).mpr fun name key value hvalue => hset.lookup hvalue

/-- A colour, and a text with the characters of comments behind blanks. -/
def commented : List (Bytes × Bytes × Bytes) :=
  [([], bytes "colour", bytes "#ff0000"), (bytes "net", bytes "note", bytes "a ; b # c")]

/-- **What begins a comment is lost.** -/
theorem comments_lost :
    (∀ set ∈ commented, CanLoadName set.1 ∧ CanLoadKey set.2.1 ∧ IsText set.2.2) ∧
      ¬(setValues commented).Survives ∧
      (loadFromString {} (setValues commented).toString).2.lookup [] (bytes "colour") = some [] ∧
      (loadFromString {} (setValues commented).toString).2.lookup (bytes "net") (bytes "note") =
        some (bytes "a") := by
  have hcolour : (loadFromString {} (setValues commented).toString).2.lookup [] (bytes "colour") =
      some [] := by decide
  refine ⟨?_, fun h => ?_, hcolour, by decide⟩
  · simp only [commented, List.forall_mem_cons]
    refine ⟨⟨⟨bytes "k=", by decide, by decide⟩, ⟨bytes "colour=", [],
      ⟨Finmap.singleton (bytes "colour") [], [bytes "colour"]⟩, by decide, by decide, by decide⟩,
      by decide, by decide⟩, ⟨⟨bytes "[net]", by decide, by decide⟩,
      ⟨bytes "note=", [], ⟨Finmap.singleton (bytes "note") [], [bytes "note"]⟩, by decide,
        by decide, by decide⟩, by decide, by decide⟩, List.forall_mem_nil _⟩
  · have hsame := h.2 [] (bytes "colour")
    rw [hcolour] at hsame
    exact absurd hsame (by decide)

end IniParser

end SimplyNode
