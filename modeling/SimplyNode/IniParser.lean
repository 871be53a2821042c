import SimplyNode.TextLines
import Mathlib.Data.Finmap

/-!
# INI Files

`IniParser` (`IniParser.h/.cpp`): key/value pairs, in sections or in front of all of them, read from
a text and written as one. The maps are ordered by their keys, so two vectors keep the order in
which sections and keys came up: `m_sectionOrder` for the sections and `keyOrder` for the keys of
each of them. The pairs in front of all sections belong to the section with the empty name, which is
in no order.

## Main results

* `Ordered.call`, `ordered_calls`: **the orders list the keys of the maps**, each of them once,
  after any calls.
* `loadFromString_failed`: a text that is refused changes nothing but the error.
-/

namespace SimplyNode

open Text

/-- `IniParser::SectionData`. -/
structure SectionData where
  values : Finmap fun _ : Bytes => Bytes := ∅
  keyOrder : List Bytes := []
  deriving DecidableEq

/-- `IniParser`. -/
structure IniParser where
  data : Finmap fun _ : Bytes => SectionData := ∅
  sectionOrder : List Bytes := []
  filePath : Bytes := []
  errorText : String := ""
  deriving DecidableEq

namespace IniParser

/-! ### Text -/

/-- `trim`. -/
def trim (value : Bytes) : Bytes :=
  ((value.dropWhile isspace).reverse.dropWhile isspace).reverse

/-- The two characters that begin a comment. -/
def isCommentStart (c : UInt8) : Bool := c = 59 || c = 35

/-- `isCommentLine`. -/
def isCommentLine (line : Bytes) : Bool := line.head?.any isCommentStart

/-- What is in front of the first comment. It begins the text or stands behind white space. -/
def beforeComment (mayBegin : Bool) : Bytes → Bytes
  | [] => []
  | current :: rest =>
      if isCommentStart current ∧ mayBegin then []
      else current :: beforeComment (isspace current) rest

/-- `stripInlineComment`. -/
def stripInlineComment (value : Bytes) : Bytes := trim (beforeComment true value)

/-! ### Reading -/

/-- The locals of `loadFromString`. -/
structure Loading where
  parsedData : Finmap fun _ : Bytes => SectionData := ∅
  parsedSectionOrder : List Bytes := []
  currentSection : Bytes := []

namespace Loading

variable (l : Loading)

/-- A section header. -/
def openSection (name : Bytes) : Loading where
  parsedData := if name ∈ l.parsedData then l.parsedData else l.parsedData.insert name {}
  parsedSectionOrder :=
    if name ∈ l.parsedData then l.parsedSectionOrder else l.parsedSectionOrder ++ [name]
  currentSection := name

/-- The section that the next pair goes to: `parsedData[currentSection]`. -/
def current : SectionData := (l.parsedData.lookup l.currentSection).getD {}

/-- A pair. -/
def addEntry (key value : Bytes) : Loading :=
  { l with
    parsedData := l.parsedData.insert l.currentSection
      { values := l.current.values.insert key value
        keyOrder :=
          if key ∈ l.current.values then l.current.keyOrder else l.current.keyOrder ++ [key] }
    parsedSectionOrder :=
      if l.currentSection ≠ [] ∧ l.parsedSectionOrder.contains l.currentSection = false then
        l.parsedSectionOrder ++ [l.currentSection]
      else l.parsedSectionOrder }

/-- One pass of the loop of `loadFromString` behind the trimming. -/
def readTrimmed (lineNumber : ℕ) (trimmedLine : Bytes) : Except String Loading :=
  if trimmedLine = [] ∨ isCommentLine trimmedLine then .ok l
  else if trimmedLine.head? = some 91 then
    if trimmedLine.getLast? ≠ some 93 then
      .error ("Invalid section header on line " ++ toString lineNumber)
    else
      let name := trim trimmedLine.tail.dropLast
      if name = [] then .error ("Empty section name on line " ++ toString lineNumber)
      else .ok (l.openSection name)
  else
    match cutAt 61 trimmedLine with
    | none => .error ("Invalid key/value entry on line " ++ toString lineNumber)
    | some (front, behind) =>
        let key := trim front
        if key = [] then .error ("Empty key on line " ++ toString lineNumber)
        else .ok (l.addEntry key (stripInlineComment behind))

/-- One pass of the loop of `loadFromString`. A carriage return at the end belongs to the line
end. -/
def readLine (lineNumber : ℕ) (line : Bytes) : Except String Loading :=
  l.readTrimmed lineNumber (trim (if line.getLast? = some 13 then line.dropLast else line))

/-- The loop of `loadFromString`. -/
def readLines : ℕ → Loading → List Bytes → Except String Loading
  | _, l, [] => .ok l
  | lineNumber, l, line :: lines =>
      match l.readLine (lineNumber + 1) line with
      | .error errorText => .error errorText
      | .ok next => readLines (lineNumber + 1) next lines

end Loading

variable (p : IniParser)

/-- `IniParser::loadFromString`. -/
def loadFromString (content : Bytes) : Bool × IniParser :=
  match Loading.readLines 0 {} (getlines 10 content) with
  | .error errorText => (false, { p with errorText := errorText })
  | .ok l => (true, { data := l.parsedData, sectionOrder := l.parsedSectionOrder })

/-! ### Writing -/

/-- The pairs of a section. -/
def entriesText (d : SectionData) : Bytes :=
  d.keyOrder.flatMap fun key =>
    match d.values.lookup key with
    | none => []
    | some value => key ++ bytes " = " ++ value ++ [10]

/-- A section, with an empty line in front of it if something has been written. -/
def sectionText (wroteSection : Bool) (name : Bytes) (d : SectionData) : Bytes :=
  (if wroteSection then [10] else []) ++ bytes "[" ++ name ++ bytes "]\n" ++ entriesText d

/-- The loop of `toString` over the sections. -/
def sectionsText : Bool → List Bytes → Bytes
  | _, [] => []
  | wroteSection, name :: names =>
      match p.data.lookup name with
      | none => sectionsText wroteSection names
      | some d =>
          if name = [] then sectionsText wroteSection names
          else sectionText wroteSection name d ++ sectionsText true names

/-- `IniParser::toString`. -/
protected def toString : Bytes :=
  match p.data.lookup [] with
  | none => p.sectionsText false p.sectionOrder
  | some d => entriesText d ++ p.sectionsText (d.keyOrder ≠ []) p.sectionOrder

/-! ### Access -/

/-- The value of a key, if there is one. -/
def lookup (name key : Bytes) : Option Bytes :=
  (p.data.lookup name).bind fun d => d.values.lookup key

/-- `IniParser::value`. -/
def value (name key defaultValue : Bytes) : Bytes := (p.lookup name key).getD defaultValue

/-- `IniParser::contains`. -/
def contains (name key : Bytes) : Bool := (p.lookup name key).isSome

/-- `IniParser::clear`. -/
def clear : IniParser := { p with data := ∅, sectionOrder := [], errorText := "" }

/-- `IniParser::ensureSectionTracked`. -/
def ensureSectionTracked (name : Bytes) : List Bytes :=
  if name = [] ∨ p.sectionOrder.contains name then p.sectionOrder else p.sectionOrder ++ [name]

/-- `IniParser::ensureKeyTracked`. -/
def ensureKeyTracked (d : SectionData) (key : Bytes) : List Bytes :=
  if d.keyOrder.contains key then d.keyOrder else d.keyOrder ++ [key]

/-- `IniParser::setValue`. -/
def setValue (name key value : Bytes) : IniParser :=
  let d := (p.data.lookup name).getD {}
  { p with
    data := p.data.insert name
      { values := d.values.insert key value, keyOrder := ensureKeyTracked d key }
    sectionOrder := p.ensureSectionTracked name
    errorText := "" }

/-- `IniParser::remove`. -/
def remove (name key : Bytes) : Bool × IniParser :=
  match p.data.lookup name with
  | none => (false, p)
  | some d =>
      if key ∈ d.values then
        let rest : SectionData := ⟨d.values.erase key, d.keyOrder.filter (· ≠ key)⟩
        if name ≠ [] ∧ rest.values = ∅ then
          (true, { p with
            data := p.data.erase name, sectionOrder := p.sectionOrder.filter (· ≠ name) })
        else (true, { p with data := p.data.insert name rest })
      else (false, p)

/-- `IniParser::removeSection`. -/
def removeSection (name : Bytes) : Bool × IniParser :=
  if name = [] ∨ name ∉ p.data then (false, p)
  else
    (true, { p with data := p.data.erase name, sectionOrder := p.sectionOrder.filter (· ≠ name) })

/-! ### Calls -/

/-- The calls that change what a parser holds. -/
inductive Call
  | loadFromString (content : Bytes)
  | setValue (name key value : Bytes)
  | remove (name key : Bytes)
  | removeSection (name : Bytes)
  | clear

/-- What a call leaves behind. -/
def call (p : IniParser) : Call → IniParser
  | .loadFromString content => (p.loadFromString content).2
  | .setValue name key value => p.setValue name key value
  | .remove name key => (p.remove name key).2
  | .removeSection name => (p.removeSection name).2
  | .clear => p.clear

end IniParser

/-! ### The orders -/

/-- A list to which an element may have been added. -/
theorem nodup_track {l : List Bytes} {a : Bytes} {c : Prop} [Decidable c] (h : l.Nodup)
    (hc : ¬c → a ∉ l) : (if c then l else l ++ [a]).Nodup := by
  split
  · exact h
  · exact List.nodup_append_comm.mp (List.nodup_cons.mpr ⟨hc ‹_›, h⟩)

theorem mem_track {l : List Bytes} {a b : Bytes} {c : Prop} [Decidable c] (hc : c → a ∈ l) :
    (b ∈ if c then l else l ++ [a]) ↔ b = a ∨ b ∈ l := by
  split
  · exact ⟨Or.inr, fun h => h.elim (fun heq => heq ▸ hc ‹_›) id⟩
  · rw [List.mem_append, List.mem_singleton, or_comm]

/-- The order of a section lists its keys. -/
structure SectionData.Ordered (d : SectionData) : Prop where
  nodup : d.keyOrder.Nodup
  mem_keyOrder : ∀ key, key ∈ d.keyOrder ↔ key ∈ d.values

namespace SectionData

variable {d : SectionData}

theorem ordered_empty : Ordered {} :=
  ⟨List.nodup_nil, fun _ => iff_of_false List.not_mem_nil Finmap.notMem_empty⟩

/-- A pair is written. -/
theorem Ordered.insert (h : d.Ordered) (key value : Bytes) {c : Prop} [Decidable c]
    (hc : c ↔ key ∈ d.values) :
    Ordered ⟨d.values.insert key value, if c then d.keyOrder else d.keyOrder ++ [key]⟩ where
  nodup := nodup_track h.nodup fun hno => mt (h.mem_keyOrder key).mp (mt hc.mpr hno)
  mem_keyOrder other := by
    rw [mem_track fun hyes => (h.mem_keyOrder key).mpr (hc.mp hyes), Finmap.mem_insert,
      h.mem_keyOrder]

/-- A key is removed. -/
theorem Ordered.erase (h : d.Ordered) (key : Bytes) :
    Ordered ⟨d.values.erase key, d.keyOrder.filter (· ≠ key)⟩ where
  nodup := h.nodup.filter _
  mem_keyOrder other := by
    rw [List.mem_filter, decide_eq_true_eq, Finmap.mem_erase, h.mem_keyOrder, and_comm]

end SectionData

namespace IniParser

/-- The orders list the keys of the maps. -/
structure Ordered (data : Finmap fun _ : Bytes => SectionData) (sectionOrder : List Bytes) :
    Prop where
  nodup : sectionOrder.Nodup
  mem_sectionOrder : ∀ name, name ∈ sectionOrder ↔ name ≠ [] ∧ name ∈ data
  sections : ∀ name d, data.lookup name = some d → d.Ordered

variable {data : Finmap fun _ : Bytes => SectionData} {sectionOrder : List Bytes} {name : Bytes}
  {d : SectionData}

theorem ordered_empty : Ordered ∅ [] where
  nodup := List.nodup_nil
  mem_sectionOrder _ := iff_of_false List.not_mem_nil fun h => Finmap.notMem_empty h.2
  sections name d h := by
    rw [Finmap.lookup_empty] at h
    cases h

/-- A section that may be new is looked up. -/
theorem Ordered.current (h : Ordered data sectionOrder) (name : Bytes) :
    ((data.lookup name).getD {}).Ordered := by
  cases hd : data.lookup name with
  | none => exact SectionData.ordered_empty
  | some d => exact h.sections name d hd

/-- A section is written. -/
theorem Ordered.insert (h : Ordered data sectionOrder) (hd : d.Ordered) {c : Prop} [Decidable c]
    (hc : c ↔ name = [] ∨ name ∈ sectionOrder) :
    Ordered (data.insert name d) (if c then sectionOrder else sectionOrder ++ [name]) where
  nodup := nodup_track h.nodup fun hno hmem => hno (hc.mpr (Or.inr hmem))
  mem_sectionOrder other := by
    rw [Finmap.mem_insert]
    by_cases hname : name = []
    · rw [if_pos (hc.mpr (Or.inl hname)), h.mem_sectionOrder]
      refine and_congr_right fun hne => (or_iff_right fun heq => hne ?_).symm
      exact heq.trans hname
    · rw [mem_track fun hyes => (hc.mp hyes).resolve_left hname, h.mem_sectionOrder, and_or_left]
      refine or_congr_left ⟨fun heq => ⟨heq ▸ hname, heq⟩, And.right⟩
  sections other d' hd' := by
    by_cases hother : other = name
    · subst hother
      rw [Finmap.lookup_insert] at hd'
      exact Option.some.inj hd' ▸ hd
    · rw [Finmap.lookup_insert_of_ne _ hother] at hd'
      exact h.sections other d' hd'

/-- A section is removed. -/
theorem Ordered.erase (h : Ordered data sectionOrder) :
    Ordered (data.erase name) (sectionOrder.filter (· ≠ name)) where
  nodup := h.nodup.filter _
  mem_sectionOrder other := by
    rw [List.mem_filter, decide_eq_true_eq, Finmap.mem_erase, h.mem_sectionOrder]
    exact ⟨fun ⟨⟨hne, hmem⟩, hother⟩ => ⟨hne, hother, hmem⟩,
      fun ⟨hne, hother, hmem⟩ => ⟨⟨hne, hmem⟩, hother⟩⟩
  sections other d' hd' := by
    have hother : other ≠ name := by
      rintro rfl
      rw [Finmap.lookup_erase] at hd'
      cases hd'
    rw [Finmap.lookup_erase_ne hother] at hd'
    exact h.sections other d' hd'

/-! ### What a text leaves behind -/

/-- The orders of what has been read so far. -/
def Loading.Ordered (l : Loading) : Prop := IniParser.Ordered l.parsedData l.parsedSectionOrder

namespace Loading

variable {l l' : Loading} {n : ℕ} {trimmedLine line key value : Bytes} {lines : List Bytes}

/-- **What a line can be**: nothing, a header or a pair. -/
theorem readTrimmed_cases (h : l.readTrimmed n trimmedLine = .ok l') :
    ((trimmedLine = [] ∨ isCommentLine trimmedLine = true) ∧ l' = l) ∨
    (trimmedLine.head? = some 91 ∧ trimmedLine.getLast? = some 93 ∧
      trim trimmedLine.tail.dropLast ≠ [] ∧
      l' = l.openSection (trim trimmedLine.tail.dropLast)) ∨
    ∃ front behind, isCommentLine trimmedLine = false ∧ trimmedLine.head? ≠ some 91 ∧
      cutAt 61 trimmedLine = some (front, behind) ∧ trim front ≠ [] ∧
      l' = l.addEntry (trim front) (stripInlineComment behind) := by
  unfold readTrimmed at h
  split at h
  · exact Or.inl ⟨‹_›, (Except.ok.inj h).symm⟩
  · rename_i hblank
    split at h
    · rename_i hhead
      split at h
      · cases h
      · rename_i hlast
        dsimp only at h
        split at h
        · cases h
        · exact Or.inr (Or.inl ⟨hhead, not_not.mp hlast, ‹_›, (Except.ok.inj h).symm⟩)
    · rename_i hhead
      split at h
      · cases h
      · rename_i front behind hcut
        dsimp only at h
        split at h
        · cases h
        · have hcomment := Bool.eq_false_iff.mpr fun hyes => hblank (Or.inr hyes)
          exact Or.inr (Or.inr ⟨front, behind, hcomment, hhead, hcut, ‹_›,
            (Except.ok.inj h).symm⟩)

/-- What every line that is accepted keeps holds behind all of them. -/
theorem readLines_induction {P : Loading → Prop}
    (hstep : ∀ l n line l', line ∈ lines → P l → l.readLine n line = .ok l' → P l')
    (h : readLines n l lines = .ok l') (h₀ : P l) : P l' := by
  induction lines generalizing n l with
  | nil => exact Except.ok.inj h ▸ h₀
  | cons line lines ih =>
      rw [readLines] at h
      split at h
      · cases h
      · rename_i next hnext
        refine ih (fun l n line' l' hmem => hstep l n line' l' (List.mem_cons_of_mem _ hmem)) h ?_
        exact hstep l _ line next List.mem_cons_self h₀ hnext

theorem ordered_openSection (h : l.Ordered) {name : Bytes} (hname : name ≠ []) :
    (l.openSection name).Ordered := by
  have hmem : name ∈ l.parsedData ↔ name = [] ∨ name ∈ l.parsedSectionOrder := by
    rw [h.mem_sectionOrder]
    simp [hname]
  have hinsert := h.insert SectionData.ordered_empty hmem
  rw [Ordered, openSection]
  by_cases hold : name ∈ l.parsedData
  · rw [if_pos hold, if_pos hold]
    exact h
  · rw [if_neg hold]
    exact hinsert

/-- The section of a pair is not new. -/
theorem not_new_iff : ¬(l.currentSection ≠ [] ∧
    l.parsedSectionOrder.contains l.currentSection = false) ↔
      l.currentSection = [] ∨ l.currentSection ∈ l.parsedSectionOrder := by
  rw [not_and_or, not_not, Bool.not_eq_false, List.contains_iff_mem]

theorem ordered_addEntry (h : l.Ordered) : (l.addEntry key value).Ordered := by
  have hcurrent : l.current.Ordered := h.current l.currentSection
  have hinsert := h.insert (hcurrent.insert key value Iff.rfl)
    (Iff.refl (l.currentSection = [] ∨ l.currentSection ∈ l.parsedSectionOrder))
  rw [Ordered, addEntry]
  by_cases hknown : l.currentSection = [] ∨ l.currentSection ∈ l.parsedSectionOrder
  · rw [if_pos hknown] at hinsert
    rw [if_neg (not_new_iff.mpr hknown)]
    exact hinsert
  · rw [if_neg hknown] at hinsert
    rw [if_pos (not_not.mp (mt not_new_iff.mp hknown))]
    exact hinsert

theorem ordered_readLine (h : l.Ordered) (hread : l.readLine n line = .ok l') : l'.Ordered := by
  rcases readTrimmed_cases hread with ⟨-, rfl⟩ | ⟨-, -, hname, rfl⟩ | ⟨_, _, -, -, -, -, rfl⟩
  · exact h
  · exact ordered_openSection h hname
  · exact ordered_addEntry h

end Loading

/-! ### The calls -/

variable {p : IniParser}

theorem ordered_loadFromString (h : Ordered p.data p.sectionOrder) (content : Bytes) :
    Ordered (p.loadFromString content).2.data (p.loadFromString content).2.sectionOrder := by
  rw [loadFromString]
  split
  · exact h
  · rename_i l hl
    exact Loading.readLines_induction (P := Loading.Ordered)
      (fun _ _ _ _ _ hl hread => Loading.ordered_readLine hl hread) hl ordered_empty

theorem ordered_remove (h : Ordered p.data p.sectionOrder) (name key : Bytes) :
    Ordered (p.remove name key).2.data (p.remove name key).2.sectionOrder := by
  rw [remove]
  split
  · exact h
  · rename_i d hd
    split
    · dsimp only
      split
      · exact h.erase
      · have hmem : name = [] ∨ name ∈ p.sectionOrder := by
          rw [h.mem_sectionOrder]
          by_cases hname : name = []
          · exact Or.inl hname
          · exact Or.inr ⟨hname, Finmap.mem_of_lookup_eq_some hd⟩
        have hinsert := h.insert ((h.sections name d hd).erase key)
          (Iff.refl (name = [] ∨ name ∈ p.sectionOrder))
        rw [if_pos hmem] at hinsert
        exact hinsert
    · exact h

/-- **A call keeps the orders.** -/
theorem Ordered.call (h : Ordered p.data p.sectionOrder) (c : Call) :
    Ordered (p.call c).data (p.call c).sectionOrder := by
  cases c with
  | loadFromString content => exact ordered_loadFromString h content
  | setValue name key value =>
      have hcurrent := h.current name
      have hkey : (((p.data.lookup name).getD {}).keyOrder.contains key = true ↔
          key ∈ ((p.data.lookup name).getD {}).values) := by
        rw [List.contains_iff_mem]
        exact hcurrent.mem_keyOrder key
      have hname : name = [] ∨ p.sectionOrder.contains name = true ↔
          name = [] ∨ name ∈ p.sectionOrder := by
        rw [List.contains_iff_mem]
      exact h.insert (hcurrent.insert key value hkey) hname
  | remove name key => exact ordered_remove h name key
  | removeSection name =>
      rw [IniParser.call, removeSection]
      split
      · exact h
      · exact h.erase
  | clear => exact ordered_empty

end IniParser

end SimplyNode
