import Mathlib.Data.List.Nodup
import SimplyNode.Lib.JsonText
import SimplyNode.TextNumbers

/-!
# Trace Events as JSON

The text that `ProfilerNode` makes of an event (`ProfilerNode.cpp`, `TraceEvent.h`): category and
name are formatted between quotes as they are, into a buffer of 512 characters.

## Main results

* `length_format`: the length of the text before it is cut off.
* `readValue_format`: what is read of a text in which nothing had to be escaped.
* `plain_of_readable`: what must have been written where category and name come back.
* `trace_event_json`: the text is read as it was meant if and only if category and name have nothing
  to be escaped and the text fits into the buffer.
-/

namespace SimplyNode

open Text

namespace ProfilerNode

/-- `EventPhase`. -/
inductive EventPhase
  | begin
  | end
  | instant
  | alloc
  | free
  deriving DecidableEq

/-- A string that ends with the first zero. -/
abbrev CString := {s : Bytes // 0 ∉ s}

/-- `TraceEvent`; a string that is not there is a null pointer. -/
structure TraceEvent where
  timestampNs : UInt64
  threadId : UInt32
  phase : EventPhase
  category : Option CString
  name : Option CString

/-- `e.category ? e.category : ""`. -/
def TraceEvent.categoryText (e : TraceEvent) : Bytes := e.category.elim [] Subtype.val

/-- `e.name ? e.name : ""`. -/
def TraceEvent.nameText (e : TraceEvent) : Bytes := e.name.elim [] Subtype.val

/-- The character `ph` of a phase. -/
def phaseChar : EventPhase → UInt8
  | .begin => 66
  | .end => 69
  | .instant | .alloc | .free => 73

/-- A number in base 10. -/
def decimal (n : ℕ) : Bytes := bytes (toString n)

/-- `e.timestamp_ns / 1000`. -/
def TraceEvent.ts (e : TraceEvent) : UInt64 := e.timestampNs / 1000

/-- The text up to the category. -/
def opening (e : TraceEvent) : Bytes :=
  bytes "\x7b\"type\":\"span\",\"ph\":\"" ++ [phaseChar e.phase] ++ bytes "\",\"cat\":\""

/-- The text behind the name. -/
def closing (e : TraceEvent) : Bytes :=
  bytes "\",\"ts\":" ++ decimal e.ts.toNat ++ bytes ",\"pid\":0,\"tid\":" ++
    decimal e.threadId.toNat ++ bytes "\x7d"

/-- The formatted text. -/
def format (e : TraceEvent) : Bytes :=
  opening e ++ (e.categoryText ++ (bytes "\",\"name\":\"" ++ (e.nameText ++ closing e)))

/-- `ProfilerNode::serializeEvent`: `snprintf` into a buffer with room for 511 characters. -/
def serializeEvent (e : TraceEvent) : Bytes := (format e).take 511

/-- There are members of a name, and every one of them has the string. -/
def Names (members : List (Bytes × JsonText.Value)) (key text : Bytes) : Prop :=
  (∃ v, (key, v) ∈ members) ∧ ∀ v, (key, v) ∈ members → v = .string text

/-- **An event is readable**: its text is a JSON object whose category and name are those of the
event. -/
def Readable (e : TraceEvent) : Prop :=
  ∃ members, JsonText.IsJson (serializeEvent e) (.object members) ∧
    Names members (bytes "cat") e.categoryText ∧ Names members (bytes "name") e.nameText

/-- A text that stands in a JSON string as it is: UTF-8, without quotes, backslashes and control
characters. -/
structure IsPlain (s : Bytes) : Prop where
  utf8 : JsonText.IsUtf8 s
  clean : JsonText.Clean s

/-- The text of an event fits into the buffer. -/
def Fits (e : TraceEvent) : Prop :=
  64 + e.categoryText.length + e.nameText.length + (decimal e.ts.toNat).length +
    (decimal e.threadId.toNat).length ≤ 511

/-! ### The text -/

theorem length_format (e : TraceEvent) : (format e).length =
    64 + e.categoryText.length + e.nameText.length + (decimal e.ts.toNat).length +
      (decimal e.threadId.toNat).length := by
  have hlengths : (bytes "\x7b\"type\":\"span\",\"ph\":\"").length = 21 ∧
      (bytes "\",\"cat\":\"").length = 9 ∧ (bytes "\",\"name\":\"").length = 10 ∧
      (bytes "\",\"ts\":").length = 7 ∧ (bytes ",\"pid\":0,\"tid\":").length = 15 ∧
      (bytes "\x7d").length = 1 := by decide
  obtain ⟨htype, hcat, hname, hts, hpid, hclose⟩ := hlengths
  simp only [format, opening, closing, List.length_append, htype, hcat, hname, hts, hpid, hclose,
    List.length_cons, List.length_nil]
  omega

theorem fits_iff (e : TraceEvent) : Fits e ↔ (format e).length ≤ 511 := by
  rw [length_format]
  rfl

/-- The members in front of the category. -/
theorem opening_append (e : TraceEvent) (s : Bytes) : opening e ++ s =
    123 :: 34 :: (bytes "type" ++ 34 :: 58 :: 34 :: (bytes "span" ++ 34 :: 44 ::
      34 :: (bytes "ph" ++ 34 :: 58 :: 34 :: ([phaseChar e.phase] ++ 34 :: 44 ::
        34 :: (bytes "cat" ++ 34 :: 58 :: 34 :: s))))) := rfl

/-- The members behind the name. -/
theorem closing_eq (e : TraceEvent) : closing e =
    34 :: 44 :: 34 :: (bytes "ts" ++ 34 :: 58 :: (decimal e.ts.toNat ++ 44 ::
      34 :: (bytes "pid" ++ 34 :: 58 :: ([48] ++ 44 ::
        34 :: (bytes "tid" ++ 34 :: 58 :: (decimal e.threadId.toNat ++ [125])))))) := by
  have hts : bytes "\",\"ts\":" = 34 :: 44 :: 34 :: (bytes "ts" ++ [34, 58]) := rfl
  have hpid : bytes ",\"pid\":0,\"tid\":" = 44 :: 34 :: (bytes "pid" ++ 34 :: 58 :: ([48] ++ 44 ::
      34 :: (bytes "tid" ++ [34, 58]))) := rfl
  have hclose : bytes "\x7d" = [125] := rfl
  rw [closing, hts, hpid, hclose]
  simp only [List.cons_append, List.append_assoc, List.nil_append]

theorem name_append (s : Bytes) : bytes "\",\"name\":\"" ++ s =
    34 :: 44 :: 34 :: (bytes "name" ++ 34 :: 58 :: 34 :: s) := rfl

/-- What is cut off is behind the members in front of the category. -/
theorem serializeEvent_eq (e : TraceEvent) : ∃ u, serializeEvent e = opening e ++ u ∧
    u <+: e.categoryText ++ (bytes "\",\"name\":\"" ++ (e.nameText ++ closing e)) := by
  have hlength : (opening e).length = 31 := rfl
  refine ⟨_, ?_, List.take_prefix (511 - 31) _⟩
  rw [serializeEvent, format, List.take_append, hlength, List.take_of_length_le (by omega)]

theorem clean_phase (p : EventPhase) : JsonText.Clean [phaseChar p] := by
  cases p <;> decide +kernel

/-- The names of the members need no escapes. -/
theorem clean_names : JsonText.Clean (bytes "type") ∧ JsonText.Clean (bytes "span") ∧
    JsonText.Clean (bytes "ph") ∧ JsonText.Clean (bytes "cat") ∧ JsonText.Clean (bytes "name") ∧
    JsonText.Clean (bytes "ts") ∧ JsonText.Clean (bytes "pid") ∧ JsonText.Clean (bytes "tid") := by
  decide +kernel

/-- No zero stands in front of the digits of a positive number. -/
theorem decimal_of_pos {n : ℕ} (h : 0 < n) :
    ∃ c ds, decimal n = c :: ds ∧ c ≠ 48 ∧ ∀ d ∈ c :: ds, JsonText.isDigit d = true := by
  have hdigit : ∀ d < 10, JsonText.isDigit d.digitChar.val.toUInt8 = true ∧
      (0 < d → d.digitChar.val.toUInt8 ≠ 48) := by decide
  rw [decimal, toDigits_bytes]
  induction n using Nat.strong_induction_on with
  | _ n ih =>
      rcases Nat.lt_or_ge n 10 with hlt | hge
      · rw [Nat.toDigits_of_lt_base hlt, List.map_singleton]
        exact ⟨_, [], rfl, (hdigit n hlt).2 h,
          List.forall_mem_singleton.mpr (hdigit n hlt).1⟩
      · obtain ⟨c, ds, heq, hne, hall⟩ := ih (n / 10) (by omega) (by omega)
        rw [Nat.toDigits_of_base_le (by omega) hge, List.map_append, List.map_singleton, heq]
        have hlast := (hdigit _ (Nat.mod_lt n (by omega))).1
        exact ⟨c, _, rfl, hne, fun d hd => (List.mem_append.mp hd).elim (hall d) fun hd =>
          (List.mem_singleton.mp hd).symm ▸ hlast⟩

theorem isNatural_decimal (n : ℕ) : JsonText.IsNatural (decimal n) := by
  rcases Nat.eq_zero_or_pos n with rfl | h
  · exact Or.inl rfl
  · exact Or.inr (decimal_of_pos h)

/-! ### What must have been written -/

/-- The members from the category on. -/
theorem members_of_opening {e : TraceEvent} {n : ℕ} {u rest : Bytes}
    {members : List (Bytes × JsonText.Value)}
    (h : JsonText.readValue n (opening e ++ u) = some (.object members, rest)) :
    ∃ k m v t ms, JsonText.readChars k u = some (v, t) ∧
      (∃ front, members = front ++ (bytes "cat", .string v) :: ms) ∧
      JsonText.AfterMember m t ms rest := by
  obtain ⟨htype, hspan, hph, hcat, -⟩ := clean_names
  rw [opening_append] at h
  obtain ⟨n₁, ms₁, hobject, hmembers₁⟩ := JsonText.readValue_object h
  obtain rfl := JsonText.Value.object.inj hobject
  obtain ⟨n₂, ms₂, rfl, hmembers₂⟩ := JsonText.readMembers_clean htype hspan hmembers₁
  obtain ⟨n₃, ms₃, rfl, hmembers₃⟩ := JsonText.readMembers_clean hph (clean_phase _) hmembers₂
  obtain ⟨k, m, v, t, ms, hchars, rfl, hafter⟩ := JsonText.readMembers_string hcat hmembers₃
  exact ⟨k, m, v, t, ms, hchars, ⟨[_, _], rfl⟩, hafter⟩

/-- A part of what stands between the category and the name has no brace. -/
theorem notMem_of_prefix_name {t s : Bytes} (ht : t <+: 34 :: (bytes "name" ++ 34 :: 58 :: 34 :: s))
    (h : 125 ∈ t) : ∃ u, t = 34 :: (bytes "name" ++ 34 :: 58 :: 34 :: u) ∧ u <+: s := by
  have hname : 34 :: (bytes "name" ++ 34 :: 58 :: 34 :: s) =
      (34 :: (bytes "name" ++ [34, 58, 34])) ++ s := rfl
  rw [hname] at ht
  rcases List.prefix_or_prefix_of_prefix ht (List.prefix_append _ s) with hshort | ⟨u, rfl⟩
  · exact absurd (hshort.subset h) (by decide)
  · exact ⟨u, rfl, (List.prefix_append_right_inj _).mp ht⟩

/-- A part of what stands behind the name that has a brace is all of it. -/
theorem eq_of_prefix_closing {e : TraceEvent} {t : Bytes} (ht : 34 :: t <+: closing e)
    (h : 125 ∈ t) : 34 :: t = closing e := by
  have hdecimal : ∀ n, (125 : UInt8) ∉ decimal n := fun n hmem =>
    absurd ((isNatural_decimal n).isDigit 125 hmem) (by decide)
  have hconcat : closing e = (bytes "\",\"ts\":" ++ decimal e.ts.toNat ++
      bytes ",\"pid\":0,\"tid\":" ++ decimal e.threadId.toNat) ++ [125] := rfl
  rw [hconcat] at ht ⊢
  refine (List.prefix_concat_iff.mp ht).resolve_right fun hshort => ?_
  have hmem := hshort.subset (List.mem_cons_of_mem 34 h)
  simp only [List.mem_append, hdecimal, or_false] at hmem
  exact absurd hmem (by decide)

theorem isUtf8_closing (e : TraceEvent) : JsonText.IsUtf8 (closing e) := by
  have hdecimal (n : Nat) : (decimal n).all (· < 128) = true := by
    refine List.all_eq_true.mpr fun b hb => decide_eq_true ?_
    have hdigit := (isNatural_decimal n).isDigit b hb
    rw [JsonText.isDigit, Bool.and_eq_true, decide_eq_true_eq, decide_eq_true_eq] at hdigit
    exact UInt8.lt_of_le_of_lt hdigit.2 (by decide)
  rw [closing, List.append_assoc, List.append_assoc, List.append_assoc,
    JsonText.isUtf8_ascii_append rfl, JsonText.isUtf8_ascii_append (hdecimal _),
    JsonText.isUtf8_ascii_append rfl, JsonText.isUtf8_ascii_append (hdecimal _)]
  exact ⟨['}'], by decide⟩

/-- The text is UTF-8 where category and name are. -/
theorem isUtf8_format (e : TraceEvent) : JsonText.IsUtf8 (format e) ↔
    JsonText.IsUtf8 e.categoryText ∧ JsonText.IsUtf8 e.nameText := by
  have hopening : (opening e).all (· < 128) = true := by
    rw [opening]
    cases e.phase <;> rfl
  have hname : (44 :: 34 :: (bytes "name" ++ [34, 58, 34])).all (· < 128) = true := rfl
  have hbetween (s : Bytes) : bytes "\",\"name\":\"" ++ s =
      34 :: ((44 :: 34 :: (bytes "name" ++ [34, 58, 34])) ++ s) := rfl
  have hclosing := isUtf8_closing e
  rw [closing_eq, JsonText.isUtf8_cons (by decide)] at hclosing
  rw [format, JsonText.isUtf8_ascii_append hopening, hbetween,
    JsonText.isUtf8_append_cons (by decide), JsonText.isUtf8_ascii_append hname, closing_eq,
    JsonText.isUtf8_append_cons (by decide), and_iff_left hclosing]

/-- **What must have been written** where category and name come back. -/
theorem plain_of_readable {e : TraceEvent} (h : Readable e) :
    IsPlain e.categoryText ∧ IsPlain e.nameText ∧ Fits e := by
  obtain ⟨members, ⟨hutf8, n, rest, hread, -⟩, hcat, hname⟩ := h
  obtain ⟨u, htext, hu⟩ := serializeEvent_eq e
  have hskip : JsonText.skipSpace (opening e ++ u) = opening e ++ u :=
    JsonText.skipSpace_cons (by decide) _
  rw [htext, hskip] at hread
  obtain ⟨k, m, v, t, ms, hchars, ⟨front, rfl⟩, hafter⟩ := members_of_opening hread
  obtain rfl := JsonText.Value.string.inj (hcat.2 (.string v) (by simp))
  rw [name_append] at hu
  obtain ⟨hcleanCat, rfl⟩ := JsonText.readChars_quoted hu hchars
  have ht := (List.cons_prefix_cons.mp ((List.prefix_append_right_inj _).mp hu)).2
  -- the text goes on behind the category, as it was meant to
  rcases t with - | ⟨c, t⟩
  · exact absurd hafter.mem List.not_mem_nil
  obtain ⟨rfl, ht₁⟩ := List.cons_prefix_cons.mp ht
  have hmembers := hafter.of_comma
  obtain ⟨u, rfl, hu₁⟩ := notMem_of_prefix_name ht₁ ((JsonText.leavesEnd m).members hmembers).2
  obtain ⟨k', m', v, t, ms', hchars', rfl, hafter'⟩ :=
    JsonText.readMembers_string clean_names.2.2.2.2.1 hmembers
  obtain rfl := JsonText.Value.string.inj (hname.2 (.string v) (by simp))
  have hclosing := closing_eq e
  obtain ⟨hcleanName, rfl⟩ := JsonText.readChars_quoted (hclosing ▸ hu₁) hchars'
  -- and behind the name, up to the brace
  have hend := eq_of_prefix_closing ((List.prefix_append_right_inj _).mp hu₁) hafter'.mem
  rw [hend, ← name_append] at htext
  have hwhole : serializeEvent e = format e := htext
  rw [hwhole, isUtf8_format] at hutf8
  refine ⟨⟨hutf8.1, hcleanCat⟩, ⟨hutf8.2, hcleanName⟩, (fits_iff e).mpr ?_⟩
  rw [← hwhole]
  exact List.length_take_le 511 (format e)

/-! ### What is read -/

/-- The members that are read of a text with nothing to be escaped. -/
def membersOf (e : TraceEvent) : List (Bytes × JsonText.Value) :=
  [(bytes "type", .string (bytes "span")), (bytes "ph", .string [phaseChar e.phase]),
    (bytes "cat", .string e.categoryText), (bytes "name", .string e.nameText),
    (bytes "ts", .number (decimal e.ts.toNat)), (bytes "pid", .number [48]),
    (bytes "tid", .number (decimal e.threadId.toNat))]

/-- **The whole text is read**, if nothing in it had to be escaped. -/
theorem readValue_format {e : TraceEvent} (hcategory : JsonText.Clean e.categoryText)
    (hname : JsonText.Clean e.nameText) :
    ∃ n, JsonText.readValue n (format e) = some (.object (membersOf e), []) := by
  obtain ⟨htype, hspan, hph, hcat, hnam, hts, hpid, htid⟩ := clean_names
  obtain ⟨n, hn⟩ : ∃ n, n = e.categoryText.length + e.nameText.length + 10 := ⟨_, rfl⟩
  have hlengths : (bytes "type").length = 4 ∧ (bytes "span").length = 4 ∧
      (bytes "ph").length = 2 ∧ (bytes "cat").length = 3 ∧ (bytes "name").length = 4 ∧
      (bytes "ts").length = 2 ∧ (bytes "pid").length = 3 ∧ (bytes "tid").length = 3 := by decide
  refine ⟨n + 9, ?_⟩
  rw [format, opening_append, name_append, closing_eq]
  refine JsonText.readValue_of_members ?_
  rw [JsonText.readMembers_string_cons htype hspan (by omega) (by omega),
    JsonText.readMembers_string_cons hph (clean_phase _) (by omega) (by
      rw [List.length_singleton]
      omega),
    JsonText.readMembers_string_cons hcat hcategory (by omega) (by omega),
    JsonText.readMembers_string_cons hnam hname (by omega) (by omega),
    JsonText.readMembers_natural_cons hts (isNatural_decimal _) (by omega),
    JsonText.readMembers_natural_cons hpid (Or.inl rfl) (by omega),
    JsonText.readMembers_natural_last htid (isNatural_decimal _) (by omega)]
  rfl

/-- A member whose name occurs once. -/
theorem names_of_nodup {members : List (Bytes × JsonText.Value)} {key text : Bytes}
    (hkeys : (members.map Prod.fst).Nodup) (h : (key, JsonText.Value.string text) ∈ members) :
    Names members key text := by
  refine ⟨⟨_, h⟩, fun v hv => ?_⟩
  exact (Prod.mk.inj (List.inj_on_of_nodup_map hkeys hv h rfl)).2

theorem names_membersOf (e : TraceEvent) :
    Names (membersOf e) (bytes "cat") e.categoryText ∧
      Names (membersOf e) (bytes "name") e.nameText := by
  have hkeys : ((membersOf e).map Prod.fst).Nodup := by
    have hnodup : [bytes "type", bytes "ph", bytes "cat", bytes "name", bytes "ts", bytes "pid",
        bytes "tid"].Nodup := by decide
    exact hnodup
  exact ⟨names_of_nodup hkeys (by simp [membersOf]), names_of_nodup hkeys (by simp [membersOf])⟩

end ProfilerNode

open ProfilerNode

/-- **The text of an event is read as it was meant** if and only if category and name are UTF-8
without quotes, backslashes and control characters, and the text fits into the buffer. -/
theorem trace_event_json (e : TraceEvent) :
    Readable e ↔ IsPlain e.categoryText ∧ IsPlain e.nameText ∧ Fits e := by
  refine ⟨plain_of_readable, ?_⟩
  rintro ⟨hcategory, hname, hfits⟩
  obtain ⟨n, hread⟩ := readValue_format hcategory.clean hname.clean
  have hwhole : serializeEvent e = format e := List.take_of_length_le ((fits_iff e).mp hfits)
  have hskip : JsonText.skipSpace (format e) = format e :=
    JsonText.skipSpace_cons (by decide) _
  obtain ⟨hcat, hnam⟩ := names_membersOf e
  refine ⟨membersOf e, ⟨?_, n, [], ?_, rfl⟩, hcat, hnam⟩
  · rw [hwhole, isUtf8_format]
    exact ⟨hcategory.utf8, hname.utf8⟩
  · rw [hwhole, hskip, hread]

/-- The name `say "hi"`. -/
theorem quoted_name_unreadable : ¬∀ e, Readable e := by
  intro h
  have hplain := (plain_of_readable (h ⟨0, 0, .begin, some ⟨bytes "app", by decide⟩,
    some ⟨bytes "say \"hi\"", by decide⟩⟩)).2.1
  exact absurd (hplain.clean 34 (by decide)) (by decide)

end SimplyNode
