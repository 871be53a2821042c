import Mathlib.Data.List.GetD
import SimplyNode.HttpRequest

/-!
# Host Names

The validation of a DNS host name in `HostAddress.cpp`: a loop over the positions at which labels
begin, up to the dot that may stand at the end. A host name is a list of labels with dots between
them; a label has 1 to 63 letters, digits and hyphens, with no hyphen at either end.

## Main results

* `labelsValid_iff`: what the loop accepts.
* `hostname_iff`: the validation accepts exactly the host names, but for those with a second dot at
  the end.
-/

namespace SimplyNode

namespace HostAddress

open Text

/-- `isAsciiAlphaNumeric`: `std::isalnum` in the C locale. -/
def isAsciiAlphaNumeric (ch : UInt8) : Bool :=
  (48 ≤ ch && ch ≤ 57) || (65 ≤ ch && ch ≤ 90) || (97 ≤ ch && ch ≤ 122)

/-- `std::isdigit`. -/
def isdigit (ch : UInt8) : Bool := 48 ≤ ch && ch ≤ 57

/-- `isValidHostnameLabel`, of the characters from `begin` on and before `stop`. -/
def isValidHostnameLabel (host : Bytes) (begin stop : ℕ) : Bool :=
  let length := stop - begin
  if length = 0 ∨ 63 < length then false
  else if !isAsciiAlphaNumeric (host.getD begin 0) ||
      !isAsciiAlphaNumeric (host.getD (stop - 1) 0) then false
  else (List.range' begin length).all fun i =>
    isAsciiAlphaNumeric (host.getD i 0) || host.getD i 0 = 45

/-- `host.find('.', pos)`. -/
def findDot (host : Bytes) (pos : ℕ) : Option ℕ :=
  ((host.drop pos).findIdx? (· = 46)).map (pos + ·)

/-- Where a label ends that begins at a position: at a dot, or at the end of the labels. -/
def labelStop (host : Bytes) (effectiveSize labelBegin : ℕ) : ℕ :=
  match findDot host labelBegin with
  | none => effectiveSize
  | some labelEnd => if effectiveSize < labelEnd then effectiveSize else labelEnd

/-- The loop of `isValidDnsHostname`, for at most so many labels. -/
def labelsValid (host : Bytes) (effectiveSize : ℕ) : ℕ → ℕ → Bool
  | 0, _ => true
  | n + 1, labelBegin =>
      if labelBegin < effectiveSize then
        let stop := labelStop host effectiveSize labelBegin
        if !isValidHostnameLabel host labelBegin stop then false
        else labelsValid host effectiveSize n (stop + 1)
      else true

/-- `isValidDnsHostname`. -/
def isValidDnsHostname (host : Bytes) : Bool :=
  if host = [] ∨ 253 < host.length then false
  else if host.contains 46 && host.all fun ch => isdigit ch || ch = 46 then false
  else if host.head?.any fun ch => ch = 46 || ch = 45 || ch = 91 || ch = 93 then false
  else
    let effectiveSize := if host.getLast? = some 46 then host.length - 1 else host.length
    if effectiveSize = 0 then false else labelsValid host effectiveSize host.length 0

/-! ### The grammar -/

/-- A letter, a digit or a hyphen. -/
def IsLabelChar (ch : UInt8) : Prop := isAsciiAlphaNumeric ch = true ∨ ch = 45

/-- A label. -/
structure IsLabel (label : Bytes) : Prop where
  length : 1 ≤ label.length ∧ label.length ≤ 63
  chars : ∀ ch ∈ label, IsLabelChar ch
  head : ∀ ch ∈ label.head?, isAsciiAlphaNumeric ch = true
  last : ∀ ch ∈ label.getLast?, isAsciiAlphaNumeric ch = true

/-- A dotted list of labels. -/
def IsLabels (s : Bytes) : Prop := ∀ label ∈ s.splitOn 46, IsLabel label

/-- A text without the dot at its end, if there is one. -/
def dropDot (s : Bytes) : Bytes := if s.getLast? = some 46 then s.dropLast else s

/-- A text of digits and dots, with a dot. -/
def IsNumeric (s : Bytes) : Prop := 46 ∈ s ∧ ∀ ch ∈ s, isdigit ch = true ∨ ch = 46

/-- **A host name.** -/
structure IsHostname (s : Bytes) : Prop where
  length : s ≠ [] ∧ s.length ≤ 253
  notNumeric : ¬IsNumeric s
  labels : IsLabels (dropDot s)

/-- What would be a host name but for a second dot at its end. -/
structure IsDoubleDotted (s : Bytes) : Prop where
  length : s.length ≤ 253
  notNumeric : ¬IsNumeric s
  labels : ∃ name, s = name ++ [46, 46] ∧ IsLabels name

/-! ### Labels -/

/-- The labels on both sides of a dot. -/
theorem isLabels_append (s t : Bytes) : IsLabels (s ++ 46 :: t) ↔ IsLabels s ∧ IsLabels t := by
  rw [IsLabels, List.splitOn_append_cons_self, List.forall_mem_append]
  rfl

/-- A text without a dot is one label. -/
theorem isLabels_of_notMem {s : Bytes} (h : 46 ∉ s) : IsLabels s ↔ IsLabel s := by
  rw [IsLabels, List.splitOn_eq_singleton h, List.forall_mem_singleton]

/-- No labels are no name. -/
theorem not_isLabels_nil : ¬IsLabels [] := fun h =>
  absurd ((isLabels_of_notMem List.not_mem_nil).mp h).length.1 (by decide)

/-- The positions of a text in the middle of another one. -/
theorem getD_middle (a label b : Bytes) (i : ℕ) (h : i < label.length) :
    (a ++ (label ++ b)).getD (a.length + i) 0 = label.getD i 0 := by
  rw [List.getD_append_right _ _ _ _ (Nat.le_add_right _ _), Nat.add_sub_cancel_left,
    List.getD_append _ _ _ _ h]

/-- The loop over a label looks at its characters. -/
theorem all_isLabelChar_iff (a label b : Bytes) :
    ((List.range' a.length label.length).all fun i =>
      isAsciiAlphaNumeric ((a ++ (label ++ b)).getD i 0) ||
        (a ++ (label ++ b)).getD i 0 = 45) = true ↔ ∀ ch ∈ label, IsLabelChar ch := by
  rw [List.all_eq_true]
  constructor
  · intro h ch hch
    obtain ⟨i, hi, rfl⟩ := List.mem_iff_getElem.mp hch
    have hi' := h (a.length + i) (List.mem_range'_1.mpr (by omega))
    rw [getD_middle a label b i hi, List.getD_eq_getElem _ _ hi, Bool.or_eq_true,
      decide_eq_true_eq] at hi'
    exact hi'
  · intro h i hi
    obtain ⟨hle, hlt⟩ := List.mem_range'_1.mp hi
    obtain ⟨k, rfl⟩ := Nat.exists_eq_add_of_le hle
    have hk : k < label.length := by omega
    rw [getD_middle a label b k hk, List.getD_eq_getElem _ _ hk, Bool.or_eq_true,
      decide_eq_true_eq]
    exact h _ (List.getElem_mem hk)

/-- **The check of a label** that stands in the middle of a text. -/
theorem isValidHostnameLabel_iff (a label b : Bytes) :
    isValidHostnameLabel (a ++ (label ++ b)) a.length (a.length + label.length) = true ↔
      IsLabel label := by
  rw [isValidHostnameLabel, Nat.add_sub_cancel_left]
  split
  · rename_i hlength
    refine iff_of_false Bool.false_ne_true fun h => ?_
    have hlabel := h.length
    omega
  rename_i hlength
  rw [not_or, Nat.not_lt] at hlength
  obtain ⟨hne, hle⟩ := hlength
  have hpos : 0 < label.length := Nat.pos_of_ne_zero hne
  have hnil : label ≠ [] := List.ne_nil_of_length_pos hpos
  have hfirst : (a ++ (label ++ b)).getD a.length 0 = label.head hnil := by
    rw [← Nat.add_zero a.length, getD_middle a label b 0 hpos, List.getD_eq_getElem _ _ hpos,
      List.head_eq_getElem]
  have hlast : (a ++ (label ++ b)).getD (a.length + label.length - 1) 0 =
      label.getLast hnil := by
    rw [Nat.add_sub_assoc hpos, getD_middle a label b _ (by omega),
      List.getD_eq_getElem _ _ (by omega), List.getLast_eq_getElem]
  rw [hfirst, hlast]
  split
  · rename_i hends
    refine iff_of_false Bool.false_ne_true fun h => ?_
    rw [h.head _ (List.head?_eq_some_head hnil), h.last _ (List.getLast?_eq_some_getLast hnil)]
      at hends
    exact Bool.false_ne_true hends
  · rename_i hends
    rw [Bool.not_eq_true, Bool.or_eq_false_iff, Bool.not_eq_false', Bool.not_eq_false'] at hends
    rw [all_isLabelChar_iff]
    refine ⟨fun h => ⟨⟨hpos, hle⟩, h, fun ch hch => ?_, fun ch hch => ?_⟩, fun h => h.chars⟩
    · rw [List.head?_eq_some_head hnil] at hch
      obtain rfl := Option.some.inj hch
      exact hends.1
    · rw [List.getLast?_eq_some_getLast hnil] at hch
      obtain rfl := Option.some.inj hch
      exact hends.2

/-! ### The loop -/

/-- A label without a dot has no dot to be found. -/
theorem findIdx?_of_notMem {label : Bytes} (h : 46 ∉ label) :
    label.findIdx? (fun ch => decide (ch = 46)) = none :=
  List.findIdx?_eq_none_iff.mpr fun _ hch => decide_eq_false fun heq => h (heq ▸ hch)

/-- The first dot behind a position ends the label. -/
theorem findDot_append (a label b : Bytes) (h : 46 ∉ label) :
    findDot (a ++ (label ++ 46 :: b)) a.length = some (a.length + label.length) := by
  have hindex : (label ++ 46 :: b).findIdx? (· = 46) = some label.length := by
    rw [List.findIdx?_append, findIdx?_of_notMem h, List.findIdx?_cons]
    simp
  rw [findDot, List.drop_left, hindex]
  rfl

/-- Where no dot is left none is found. -/
theorem findDot_of_notMem (a label : Bytes) (h : 46 ∉ label) :
    findDot (a ++ label) a.length = none := by
  rw [findDot, List.drop_left, findIdx?_of_notMem h]
  rfl

/-- What the loop accepts from a position on: nothing, or labels, behind which there may be a
dot. -/
def IsAccepted (t : Bytes) : Prop := t = [] ∨ IsLabels t ∨ ∃ name, t = name ++ [46] ∧ IsLabels name

/-- A label and a dot in front of what is accepted. -/
theorem isAccepted_append {label : Bytes} (hlabel : 46 ∉ label) (rest : Bytes) :
    IsAccepted (label ++ 46 :: rest) ↔ IsLabel label ∧ IsAccepted rest := by
  rw [IsAccepted, or_iff_right (by simp), isLabels_append, isLabels_of_notMem hlabel]
  constructor
  · rintro (⟨hvalid, hrest⟩ | ⟨name, heq, hname⟩)
    · exact ⟨hvalid, Or.inr (Or.inl hrest)⟩
    · rcases List.append_eq_append_iff.mp heq with ⟨x, rfl, hx⟩ | ⟨x, rfl, hx⟩
      · -- the dot behind the name is the one behind the label, or comes after it
        rcases x with - | ⟨c, x⟩
        · rw [List.append_nil] at hname
          obtain rfl : rest = [] := by simpa using hx
          exact ⟨(isLabels_of_notMem hlabel).mp hname, Or.inl rfl⟩
        · obtain ⟨rfl, rfl⟩ := List.cons.inj hx
          rw [isLabels_append, isLabels_of_notMem hlabel] at hname
          exact ⟨hname.1, Or.inr (Or.inr ⟨x, rfl, hname.2⟩)⟩
      · rcases x with - | ⟨c, x⟩
        · rw [List.append_nil] at hlabel
          obtain rfl : rest = [] := by simpa using hx.symm
          exact ⟨by simpa using (isLabels_of_notMem hlabel).mp hname, Or.inl rfl⟩
        · obtain ⟨rfl, -⟩ := List.cons.inj hx
          exact absurd (List.mem_append_right _ List.mem_cons_self) hlabel
  · rintro ⟨hvalid, rfl | hrest | ⟨name, rfl, hname⟩⟩
    · exact Or.inr ⟨label, rfl, (isLabels_of_notMem hlabel).mpr hvalid⟩
    · exact Or.inl ⟨hvalid, hrest⟩
    · refine Or.inr ⟨label ++ 46 :: name, by simp, ?_⟩
      rw [isLabels_append, isLabels_of_notMem hlabel]
      exact ⟨hvalid, hname⟩

/-- A text without dots is accepted exactly if it is a label. -/
theorem isAccepted_of_notMem {t : Bytes} (hne : t ≠ []) (h : 46 ∉ t) :
    IsAccepted t ↔ IsLabel t := by
  rw [IsAccepted, or_iff_right hne, isLabels_of_notMem h]
  refine or_iff_left ?_
  rintro ⟨name, rfl, -⟩
  exact h (List.mem_append_right _ List.mem_cons_self)

/-- Behind the last label nothing is left to be checked. -/
theorem labelsValid_of_le {host : Bytes} {effectiveSize labelBegin : ℕ}
    (h : effectiveSize ≤ labelBegin) (n : ℕ) :
    labelsValid host effectiveSize n labelBegin = true := by
  cases n with
  | zero => rfl
  | succ n => rw [labelsValid, if_neg (Nat.not_lt.mpr h)]

/-- A pass of the loop. -/
theorem labelsValid_succ {host : Bytes} {effectiveSize labelBegin stop : ℕ}
    (hlt : labelBegin < effectiveSize) (hstop : labelStop host effectiveSize labelBegin = stop)
    (n : ℕ) : labelsValid host effectiveSize (n + 1) labelBegin =
      (isValidHostnameLabel host labelBegin stop &&
        labelsValid host effectiveSize n (stop + 1)) := by
  simp only [labelsValid, if_pos hlt, hstop]
  cases isValidHostnameLabel host labelBegin stop with
  | false => rfl
  | true => rfl

/-- **The loop**, by the text that is still to come; behind it there is a dot, or nothing. -/
theorem labelsValid_iff {b : Bytes} (hb : b = [] ∨ b = [46]) {n : ℕ} :
    ∀ a t : Bytes, t.length ≤ n →
      (labelsValid (a ++ (t ++ b)) (a.length + t.length) n a.length = true ↔ IsAccepted t) := by
  induction n with
  | zero =>
      intro a t ht
      obtain rfl := List.length_eq_zero_iff.mp (Nat.le_zero.mp ht)
      exact iff_of_true rfl (Or.inl rfl)
  | succ n ih =>
      intro a t ht
      rcases eq_or_ne t [] with rfl | hne
      · exact iff_of_true (labelsValid_of_le (Nat.le_refl _) _) (Or.inl rfl)
      have hpos : 0 < t.length := List.length_pos_iff.mpr hne
      by_cases hdot : 46 ∈ t
      · obtain ⟨label, rest, rfl, hlabel⟩ := List.eq_append_cons_of_mem hdot
        rw [List.length_append, List.length_cons] at ht hpos
        have hhost : a ++ (label ++ 46 :: rest ++ b) = a ++ (label ++ 46 :: (rest ++ b)) := by
          rw [List.append_assoc, List.cons_append]
        have hnext : a ++ (label ++ 46 :: (rest ++ b)) = a ++ (label ++ [46]) ++ (rest ++ b) := by
          simp
        have hbegin : (a ++ (label ++ [46])).length = a.length + label.length + 1 := by
          simp only [List.length_append, List.length_cons, List.length_nil]
          omega
        have hsize : a.length + (label ++ 46 :: rest).length =
            (a ++ (label ++ [46])).length + rest.length := by
          rw [hbegin, List.length_append, List.length_cons]
          omega
        have hstop : labelStop (a ++ (label ++ 46 :: (rest ++ b)))
            (a.length + (label ++ 46 :: rest).length) a.length = a.length + label.length := by
          rw [labelStop, findDot_append a label _ hlabel]
          exact if_neg (by rw [List.length_append]; omega)
        have hrest := ih (a ++ (label ++ [46])) rest (by omega)
        rw [← hnext, ← hsize, hbegin] at hrest
        rw [hhost, labelsValid_succ (by rw [List.length_append, List.length_cons]; omega) hstop,
          Bool.and_eq_true, isValidHostnameLabel_iff, hrest, isAccepted_append hlabel]
      · have hstop : labelStop (a ++ (t ++ b)) (a.length + t.length) a.length =
            a.length + t.length := by
          rw [labelStop]
          rcases hb with rfl | rfl
          · rw [List.append_nil, findDot_of_notMem a t hdot]
          · rw [findDot_append a t [] hdot]
            exact if_neg (Nat.lt_irrefl _)
        rw [labelsValid_succ (Nat.lt_add_of_pos_right hpos) hstop,
          labelsValid_of_le (Nat.le_succ _), Bool.and_true, isValidHostnameLabel_iff,
          isAccepted_of_notMem hne hdot]

/-! ### The whole name -/

/-- A dot at the end is dropped. -/
theorem dropDot_append (t : Bytes) : dropDot (t ++ [46]) = t := by
  rw [dropDot, List.getLast?_concat, if_pos rfl, List.dropLast_concat]

/-- Without a dot at the end nothing is dropped. -/
theorem dropDot_of_ne {s : Bytes} (h : s.getLast? ≠ some 46) : dropDot s = s := if_neg h

/-- A text that ends with a dot. -/
theorem eq_append_of_getLast? {s : Bytes} (h : s.getLast? = some 46) : ∃ t, s = t ++ [46] := by
  obtain ⟨t, rfl⟩ := List.getLast?_eq_some_iff.mp h
  exact ⟨t, rfl⟩

/-- What is accepted begins with a letter or a digit. -/
theorem IsAccepted.head {t : Bytes} (h : IsAccepted t) {ch : UInt8} (hch : t.head? = some ch) :
    isAsciiAlphaNumeric ch = true := by
  have hne : t ≠ [] := by
    rintro rfl
    cases hch
  by_cases hdot : 46 ∈ t
  · obtain ⟨label, rest, rfl, hlabel⟩ := List.eq_append_cons_of_mem hdot
    have hvalid := ((isAccepted_append hlabel rest).mp h).1
    have hlabelNe : label ≠ [] := List.ne_nil_of_length_pos hvalid.length.1
    rw [List.head?_append_of_ne_nil _ hlabelNe] at hch
    exact hvalid.head ch hch
  · exact ((isAccepted_of_notMem hne hdot).mp h).head ch hch

/-- The first character needs no check of its own. -/
theorem IsAccepted.head_any {s : Bytes} (h : IsAccepted (dropDot s)) (hne : dropDot s ≠ []) :
    (s.head?.any fun ch => ch = 46 || ch = 45 || ch = 91 || ch = 93) = false := by
  have hhead : s.head? = (dropDot s).head? := by
    rcases eq_or_ne s.getLast? (some 46) with hlast | hlast
    · obtain ⟨t, rfl⟩ := eq_append_of_getLast? hlast
      rw [dropDot_append] at hne ⊢
      exact List.head?_append_of_ne_nil _ hne
    · rw [dropDot_of_ne hlast]
  obtain ⟨ch, hch⟩ := Option.ne_none_iff_exists'.mp (mt List.head?_eq_none_iff.mp hne)
  have halnum := h.head hch
  rw [hhead, hch, Option.any_some, Bool.eq_false_iff]
  intro hbad
  have hcases : ch = 46 ∨ ch = 45 ∨ ch = 91 ∨ ch = 93 := by
    simpa only [Bool.or_eq_true, decide_eq_true_eq, or_assoc] using hbad
  obtain rfl | rfl | rfl | rfl := hcases <;> exact absurd halnum (by decide)

/-- Whether a text is numeric is what the code tests. -/
theorem isNumeric_iff (s : Bytes) :
    (s.contains 46 && s.all fun ch => isdigit ch || ch = 46) = true ↔ IsNumeric s := by
  rw [Bool.and_eq_true, List.contains_iff_mem, List.all_eq_true, IsNumeric]
  simp only [Bool.or_eq_true, decide_eq_true_eq]

/-- The loop over the labels of a text, with the dot at its end left out. -/
theorem labelsValid_dropDot (s : Bytes) :
    labelsValid s (if s.getLast? = some 46 then s.length - 1 else s.length) s.length 0 = true ↔
      IsAccepted (dropDot s) := by
  rcases eq_or_ne s.getLast? (some 46) with hlast | hlast
  · obtain ⟨t, rfl⟩ := eq_append_of_getLast? hlast
    have h := labelsValid_iff (Or.inr rfl) [] t (Nat.le_succ t.length)
    rw [if_pos hlast, dropDot_append, List.length_append]
    simpa using h
  · have h := labelsValid_iff (Or.inl rfl) [] s (Nat.le_refl s.length)
    rw [if_neg hlast, dropDot_of_ne hlast]
    simpa using h

/-- The size without the dot at the end. -/
theorem length_dropDot (s : Bytes) :
    (dropDot s).length = if s.getLast? = some 46 then s.length - 1 else s.length := by
  rw [dropDot]
  split
  · exact List.length_dropLast
  · rfl

/-- What the validation accepts. -/
theorem isValidDnsHostname_iff (s : Bytes) :
    isValidDnsHostname s = true ↔
      s.length ≤ 253 ∧ ¬IsNumeric s ∧ dropDot s ≠ [] ∧ IsAccepted (dropDot s) := by
  rw [isValidDnsHostname]
  split
  · rename_i hlength
    refine iff_of_false Bool.false_ne_true ?_
    rintro ⟨hle, -, hne, -⟩
    rcases hlength with rfl | hlt
    · exact hne rfl
    · exact absurd hle (Nat.not_le.mpr hlt)
  rename_i hlength
  rw [not_or, Nat.not_lt] at hlength
  split
  · rename_i hnumeric
    exact iff_of_false Bool.false_ne_true fun h => h.2.1 ((isNumeric_iff s).mp hnumeric)
  rename_i hnumeric
  have hnumeric' := mt (isNumeric_iff s).mpr hnumeric
  split
  · rename_i hhead
    refine iff_of_false Bool.false_ne_true ?_
    rintro ⟨-, -, hne, haccepted⟩
    rw [haccepted.head_any hne] at hhead
    exact Bool.false_ne_true hhead
  dsimp only
  rw [← labelsValid_dropDot, ← length_dropDot]
  rcases eq_or_ne (dropDot s) [] with hnil | hne
  · rw [if_pos (List.length_eq_zero_iff.mpr hnil)]
    exact iff_of_false Bool.false_ne_true fun h => h.2.2.1 hnil
  · rw [if_neg (mt List.length_eq_zero_iff.mp hne)]
    exact ⟨fun h => ⟨hlength.2, hnumeric', hne, h⟩, fun h => h.2.2.2⟩

/-- A second dot at the end is one that is left when the first is taken away. -/
theorem dropDot_eq_append_iff (s name : Bytes) :
    dropDot s = name ++ [46] ↔ s = name ++ [46, 46] := by
  constructor
  · intro h
    rcases eq_or_ne s.getLast? (some 46) with hlast | hlast
    · obtain ⟨t, rfl⟩ := eq_append_of_getLast? hlast
      rw [dropDot_append] at h
      rw [h, List.append_assoc]
      rfl
    · rw [dropDot_of_ne hlast] at h
      exact absurd (h ▸ List.getLast?_concat) hlast
  · rintro rfl
    rw [List.append_cons]
    exact dropDot_append _

/-- A host name has no second dot at its end. -/
theorem IsHostname.not_isDoubleDotted {s : Bytes} (h : IsHostname s) : ¬IsDoubleDotted s := by
  intro hdots
  obtain ⟨name, heq, -⟩ := hdots.labels
  have hlabels := h.labels
  rw [(dropDot_eq_append_iff s name).mpr heq, isLabels_append] at hlabels
  exact not_isLabels_nil hlabels.2

/-- The validation accepts the host names and those with a second dot at the end. -/
theorem isValidDnsHostname_iff_or (s : Bytes) :
    isValidDnsHostname s = true ↔ IsHostname s ∨ IsDoubleDotted s := by
  rw [isValidDnsHostname_iff]
  constructor
  · rintro ⟨hlength, hnumeric, hne, hnil | hlabels | ⟨name, heq, hname⟩⟩
    · exact absurd hnil hne
    · refine Or.inl ⟨⟨?_, hlength⟩, hnumeric, hlabels⟩
      rintro rfl
      exact hne rfl
    · exact Or.inr ⟨hlength, hnumeric, name, (dropDot_eq_append_iff s name).mp heq, hname⟩
  · rintro (h | h)
    · refine ⟨h.length.2, h.notNumeric, fun hnil => ?_, Or.inr (Or.inl h.labels)⟩
      exact not_isLabels_nil (hnil ▸ h.labels)
    · obtain ⟨name, heq, hname⟩ := h.labels
      have hdrop := (dropDot_eq_append_iff s name).mpr heq
      refine ⟨h.length, h.notNumeric, fun hnil => ?_, Or.inr (Or.inr ⟨name, hdrop, hname⟩)⟩
      rw [hnil] at hdrop
      exact absurd hdrop.symm (List.append_ne_nil_of_right_ne_nil _ (List.cons_ne_nil _ _))

end HostAddress

open HostAddress Text

/-- **The validation accepts exactly the host names**, but for those with a second dot at the
end: the loop stops at the dot that may stand there, and the empty label before it is at no position
at which a label begins. -/
theorem hostname_iff (host : Bytes) :
    (isValidDnsHostname host = true ↔ IsHostname host) ↔ ¬IsDoubleDotted host := by
  rw [isValidDnsHostname_iff_or]
  constructor
  · intro h hdots
    exact (h.mp (Or.inr hdots)).not_isDoubleDotted hdots
  · intro hdots
    exact ⟨fun h => h.resolve_right hdots, Or.inl⟩

/-- `"a.."` is accepted, and is no host name. -/
theorem double_dot_accepted :
    isValidDnsHostname (bytes "a..") = true ∧ ¬IsHostname (bytes "a..") := by
  refine ⟨by decide, fun hname => ?_⟩
  refine hname.not_isDoubleDotted ⟨by decide, ?_, bytes "a", by decide, ?_⟩
  · rintro ⟨-, hall⟩
    exact absurd (hall 97 (by decide)) (by decide)
  · exact (isLabels_of_notMem (by decide)).mpr
      ⟨by decide, fun _ hch => Or.inl (by rw [List.mem_singleton.mp hch]; rfl),
        fun _ hch => by rw [← Option.some.inj hch]; rfl,
        fun _ hch => by rw [← Option.some.inj hch]; rfl⟩

end SimplyNode
