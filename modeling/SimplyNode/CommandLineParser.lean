import SimplyNode.TextLines

/-!
# Command Lines

`CommandLineParser` and `CommandLineOption` (`CommandLineParser.cpp`, `CommandLineOption.cpp`).
The loop of `parse` goes through the arguments behind the name of the program. An option that takes
a value has it inline, behind an equals sign, or takes the next argument.

A long option and a short one are read by two pieces of code. The first one keeps the inline value
in a string that is also empty when there is none, the second one does not.

## Main results

* `parseArgs_append`: what the arguments behind some others make of a parser.
* `inlineAgrees_iff`: **an inline value is read like a separate one** unless it is the empty value
  of a long option.
-/

namespace SimplyNode

open Text

/-- `CommandLineOption`. -/
structure CommandLineOption where
  names : List Bytes
  defaultValue : Bytes := []
  value : Bytes := []
  isFlag : Bool := true
  isSet : Bool := false
  deriving DecidableEq

namespace CommandLineOption

/-- The constructor of a flag. -/
def flag (names : List Bytes) : CommandLineOption := { names := names }

/-- The constructor of an option that takes a value. -/
def withValue (names : List Bytes) (defaultValue : Bytes) : CommandLineOption :=
  { names := names, defaultValue := defaultValue, value := defaultValue, isFlag := false }

variable (opt : CommandLineOption)

/-- `CommandLineOption::name`. -/
def name : Bytes := opt.names.headD []

/-- `CommandLineOption::setValue`. -/
def setValue (value : Bytes) : CommandLineOption := { opt with value := value, isSet := true }

/-- `CommandLineOption::setIsSet`. -/
def setIsSet (set : Bool) : CommandLineOption := { opt with isSet := set }

end CommandLineOption

/-- `CommandLineParser`. -/
structure CommandLineParser where
  options : List CommandLineOption := []
  version : Bytes := []
  errorText : Bytes := []
  deriving DecidableEq

/-- How `parse` ends: it returns, or it prints the help or the version and exits. -/
inductive ParseOutcome
  | returned (succeeded : Bool) (p : CommandLineParser)
  | printedHelp (p : CommandLineParser)
  | printedVersion (p : CommandLineParser)
  deriving DecidableEq

/-- What an argument does: it ends the loop, or the loop goes on behind it, or the argument behind
it is the value of an option. Without one, there is an error. -/
inductive ParsePass
  | ends (outcome : ParseOutcome)
  | goesOn (p : CommandLineParser)
  | takesNext (optName : Bytes) (errorText : Bytes)
  deriving DecidableEq

namespace CommandLineParser

variable (p : CommandLineParser)

/-- `CommandLineParser::addOption`. -/
def addOption (option : CommandLineOption) : CommandLineParser :=
  { p with
    options :=
      if p.options.any (·.name = option.name) then
        p.options.modify (p.options.findIdx (·.name = option.name)) fun _ => option
      else p.options ++ [option] }

/-- `CommandLineParser::findOption`. -/
def findOption (name : Bytes) : Option CommandLineOption :=
  p.options.find? fun opt => name ∈ opt.names

/-- The option that `findOption` has found is changed. -/
def modifyOption (name : Bytes) (f : CommandLineOption → CommandLineOption) : CommandLineParser :=
  { p with options := p.options.modify (p.options.findIdx fun opt => name ∈ opt.names) f }

/-- `CommandLineParser::value`. -/
def value (name : Bytes) : Bytes :=
  match p.findOption name with
  | none => []
  | some opt => if opt.isSet then opt.value else opt.defaultValue

/-- `CommandLineParser::isSet`. -/
def isSet (name : Bytes) : Bool := (p.findOption name).any (·.isSet)

/-- An error. -/
def failed (errorText : Bytes) : ParseOutcome := .returned false { p with errorText := errorText }

/-- A long option: `--name` or `--name=value`. -/
def longOption (arg : Bytes) : ParsePass :=
  let (optName, optValue) :=
    match cutAt 61 arg with
    | some (front, behind) => (front.drop 2, behind)
    | none => (arg.drop 2, [])
  match p.findOption optName with
  | none => .ends (p.failed (bytes "Unknown option: --" ++ optName))
  | some opt =>
      if opt.isFlag then
        if optValue ≠ [] then
          .ends (p.failed (bytes "Option --" ++ optName ++ bytes " does not take a value"))
        else .goesOn (p.modifyOption optName (·.setIsSet true))
      else if optValue = [] then
        .takesNext optName (bytes "Option --" ++ optName ++ bytes " requires a value")
      else .goesOn (p.modifyOption optName (·.setValue optValue))

/-- Short flags in one argument. -/
def shortFlags : CommandLineParser → Bytes → ParsePass
  | p, [] => .goesOn p
  | p, c :: shortNames =>
      match p.findOption [c] with
      | none => .ends (p.failed (bytes "Unknown option: -" ++ [c]))
      | some opt =>
          if opt.isFlag = false then
            .ends (p.failed
              (bytes "Option -" ++ [c] ++ bytes " requires a value and cannot be combined"))
          else shortFlags (p.modifyOption [c] (·.setIsSet true)) shortNames

/-- Short options: `-a`, `-abc`, `-o value`, `-o=value`. -/
def shortOptions (shortNames : Bytes) : ParsePass :=
  match cutAt 61 shortNames with
  | some (optName, optValue) =>
      match p.findOption optName with
      | none => .ends (p.failed (bytes "Unknown option: -" ++ optName))
      | some opt =>
          if opt.isFlag then
            .ends (p.failed (bytes "Option -" ++ optName ++ bytes " does not take a value"))
          else .goesOn (p.modifyOption optName (·.setValue optValue))
  | none =>
      if shortNames.length = 1 then
        match p.findOption shortNames with
        | none => .ends (p.failed (bytes "Unknown option: -" ++ shortNames))
        | some opt =>
            if opt.isFlag then .goesOn (p.modifyOption shortNames (·.setIsSet true))
            else .takesNext shortNames (bytes "Option -" ++ shortNames ++ bytes " requires a value")
      else shortFlags p shortNames

/-- One pass of the loop of `parse`. -/
def pass (arg : Bytes) : ParsePass :=
  if (arg = bytes "--help" ∨ arg = bytes "-h") ∧ p.findOption (bytes "help") = none then
    .ends (.printedHelp p)
  else if arg = bytes "--version" ∧ p.findOption (bytes "version") = none ∧ p.version ≠ [] then
    .ends (.printedVersion p)
  else if arg.take 2 = bytes "--" then p.longOption arg
  else if arg.take 1 = bytes "-" ∧ 1 < arg.length then p.shortOptions arg.tail
  else .ends (p.failed (bytes "Unknown argument: " ++ arg))

/-- The loop of `parse`. -/
def parseArgs : CommandLineParser → List Bytes → ParseOutcome
  | p, [] => .returned true p
  | p, [arg] =>
      match p.pass arg with
      | .ends outcome => outcome
      | .goesOn next => .returned true next
      | .takesNext _ errorText => p.failed errorText
  | p, arg :: value :: args =>
      match p.pass arg with
      | .ends outcome => outcome
      | .goesOn next => parseArgs next (value :: args)
      | .takesNext optName _ => parseArgs (p.modifyOption optName (·.setValue value)) args

/-- `CommandLineParser::parse`, with the arguments behind the name of the program. -/
def parse (args : List Bytes) : ParseOutcome := parseArgs { p with errorText := [] } args

/-! ### The arguments in front of another -/

/-- What has become of the loop when it is through with some arguments: it has ended, it looks at
the next argument, or it is about to take it as a value. -/
inductive Front
  | ended (outcome : ParseOutcome)
  | looking (p : CommandLineParser)
  | taking (p : CommandLineParser) (optName : Bytes) (errorText : Bytes)
  deriving DecidableEq

/-- The loop over the first arguments. -/
def front : CommandLineParser → List Bytes → Front
  | p, [] => .looking p
  | p, [arg] =>
      match p.pass arg with
      | .ends outcome => .ended outcome
      | .goesOn next => .looking next
      | .takesNext optName errorText => .taking p optName errorText
  | p, arg :: value :: args =>
      match p.pass arg with
      | .ends outcome => .ended outcome
      | .goesOn next => front next (value :: args)
      | .takesNext optName _ => front (p.modifyOption optName (·.setValue value)) args

/-- The loop goes on with more arguments. -/
def Front.goOn (more : List Bytes) : Front → ParseOutcome
  | .ended outcome => outcome
  | .looking p => parseArgs p more
  | .taking p optName errorText =>
      match more with
      | [] => p.failed errorText
      | value :: args => parseArgs (p.modifyOption optName (·.setValue value)) args

/-- **The arguments behind some others.** -/
theorem parseArgs_append (args more : List Bytes) :
    parseArgs p (args ++ more) = (front p args).goOn more := by
  induction p, args using front.induct with
  | case1 p => rfl
  | case2 p arg outcome h =>
      cases more <;> simp [parseArgs, front, h, Front.goOn]
  | case3 p arg next h =>
      cases more <;> simp [parseArgs, front, h, Front.goOn]
  | case4 p arg optName errorText h =>
      cases more <;> simp [parseArgs, front, h, Front.goOn]
  | case5 p arg value args outcome h => simp [parseArgs, front, h, Front.goOn]
  | case6 p arg value args next h ih =>
      rw [List.cons_append] at ih
      simp [parseArgs, front, h, ih]
  | case7 p arg value args optName errorText h ih => simp [parseArgs, front, h, ih]

/-! ### What the loop keeps -/

/-- The names of an option, and whether it is a flag. The loop changes neither. -/
def kind (opt : CommandLineOption) : List Bytes × Bool := (opt.names, opt.isFlag)

/-- Two parsers with the same options, set or not. -/
def Alike (p q : CommandLineParser) : Prop := q.options.map kind = p.options.map kind

variable {p}

theorem Alike.refl (p : CommandLineParser) : Alike p p := rfl

theorem Alike.trans {q r : CommandLineParser} (h : Alike p q) (h' : Alike q r) : Alike p r :=
  Eq.trans h' h

/-- An option that is found in a parser is found in a parser with the same options. -/
theorem Alike.findOption {q : CommandLineParser} (h : Alike p q) {name : Bytes}
    {opt : CommandLineOption} (hopt : p.findOption name = some opt) :
    ∃ opt', q.findOption name = some opt' ∧ opt'.isFlag = opt.isFlag := by
  have hfind : ∀ r : CommandLineParser,
      (r.options.map kind).find? (name ∈ ·.1) = (r.findOption name).map kind := fun r =>
    List.find?_map
  have hmap : (q.findOption name).map kind = some (kind opt) := by
    rw [← hfind, h, hfind, hopt, Option.map_some]
  obtain ⟨opt', hopt', hkind⟩ := Option.map_eq_some_iff.mp hmap
  exact ⟨opt', hopt', congrArg Prod.snd hkind⟩

theorem alike_modifyOption (name : Bytes) {f : CommandLineOption → CommandLineOption}
    (hf : ∀ opt, kind (f opt) = kind opt) : Alike p (p.modifyOption name f) := by
  unfold Alike modifyOption
  refine List.ext_getElem? fun i => ?_
  rw [List.getElem?_map, List.getElem?_map, List.getElem?_modify]
  cases p.options[i]? with
  | none => rfl
  | some opt =>
      by_cases heq : p.options.findIdx (fun opt => name ∈ opt.names) = i
      · simp [heq, hf]
      · simp [heq]

theorem alike_setValue (name value : Bytes) : Alike p (p.modifyOption name (·.setValue value)) :=
  alike_modifyOption name fun _ => rfl

theorem alike_setIsSet (name : Bytes) (set : Bool) :
    Alike p (p.modifyOption name (·.setIsSet set)) :=
  alike_modifyOption name fun _ => rfl

theorem alike_longOption {arg : Bytes} {next : CommandLineParser}
    (h : p.longOption arg = .goesOn next) : Alike p next := by
  unfold longOption at h
  dsimp only at h
  split at h
  · cases h
  · split_ifs at h <;> cases h
    · exact alike_setIsSet ..
    · exact alike_setValue ..

theorem alike_shortFlags {shortNames : Bytes} {next : CommandLineParser}
    (h : p.shortFlags shortNames = .goesOn next) : Alike p next := by
  induction shortNames generalizing p with
  | nil =>
      cases h
      exact Alike.refl _
  | cons c shortNames ih =>
      rw [shortFlags] at h
      split at h
      · cases h
      · split_ifs at h
        exact (alike_setIsSet [c] true).trans (ih h)

theorem alike_shortOptions {shortNames : Bytes} {next : CommandLineParser}
    (h : p.shortOptions shortNames = .goesOn next) : Alike p next := by
  unfold shortOptions at h
  split at h
  · split at h
    · cases h
    · split_ifs at h
      cases h
      exact alike_setValue ..
  · split_ifs at h
    · split at h
      · cases h
      · split_ifs at h
        cases h
        exact alike_setIsSet ..
    · exact alike_shortFlags h

/-- One pass of the loop keeps the options. -/
theorem alike_pass {arg : Bytes} {next : CommandLineParser} (h : p.pass arg = .goesOn next) :
    Alike p next := by
  unfold pass at h
  split_ifs at h
  · exact alike_longOption h
  · exact alike_shortOptions h

/-- The loop keeps the options. -/
theorem alike_front {args : List Bytes} {q : CommandLineParser} (h : front p args = .looking q) :
    Alike p q := by
  induction p, args using front.induct with
  | case1 p =>
      cases h
      exact Alike.refl _
  | case2 p arg outcome hpass => simp [front, hpass] at h
  | case3 p arg next hpass =>
      simp only [front, hpass, Front.looking.injEq] at h
      exact h ▸ alike_pass hpass
  | case4 p arg optName errorText hpass => simp [front, hpass] at h
  | case5 p arg value args outcome hpass => simp [front, hpass] at h
  | case6 p arg value args next hpass ih =>
      simp only [front, hpass] at h
      exact (alike_pass hpass).trans (ih h)
  | case7 p arg value args optName errorText hpass ih =>
      simp only [front, hpass] at h
      exact (alike_setValue optName value).trans (ih h)

/-! ### Inline values -/

/-- The two spellings of an option with an inline value. -/
inductive Spelling
  | long
  | short
  deriving DecidableEq

/-- `--name=value` or `-name=value`. -/
def Spelling.inlined (name value : Bytes) : Spelling → Bytes
  | .long => bytes "--" ++ name ++ 61 :: value
  | .short => bytes "-" ++ name ++ 61 :: value

/-- `--name`, with the value in the next argument. -/
def separate (name : Bytes) : Bytes := bytes "--" ++ name

/-- A name that can stand in front of an equals sign. -/
structure IsOptionName (name : Bytes) : Prop where
  nonempty : name ≠ []
  noSign : 61 ∉ name
  noDash : name.head? ≠ some 45

namespace IsOptionName

variable {name : Bytes}

theorem noSign_long (h : IsOptionName name) : 61 ∉ bytes "--" ++ name := by
  have hdash : (61 : UInt8) ∉ bytes "--" := by decide
  exact fun hmem => (List.mem_append.mp hmem).elim hdash h.noSign

/-- What the loop does with a long option in front of its value. -/
theorem pass_separate (h : IsOptionName name) {opt : CommandLineOption}
    (hopt : p.findOption name = some opt) (hflag : opt.isFlag = false) :
    p.pass (separate name) =
      .takesNext name (bytes "Option --" ++ name ++ bytes " requires a value") := by
  have htake : (separate name).take 2 = bytes "--" := rfl
  have hdrop : (separate name).drop 2 = name := rfl
  have hcut : cutAt 61 (separate name) = none := if_neg h.noSign_long
  have hhelp : ¬((separate name = bytes "--help" ∨ separate name = bytes "-h") ∧
      p.findOption (bytes "help") = none) := by
    rintro ⟨heq | heq, hnone⟩
    · obtain rfl : name = bytes "help" := congrArg (List.drop 2) heq
      rw [hopt] at hnone
      cases hnone
    · cases List.cons_eq_cons.mp (List.cons_eq_cons.mp heq).2 |>.1
  have hversion : ¬(separate name = bytes "--version" ∧
      p.findOption (bytes "version") = none ∧ p.version ≠ []) := by
    rintro ⟨heq, hnone, -⟩
    obtain rfl : name = bytes "version" := congrArg (List.drop 2) heq
    rw [hopt] at hnone
    cases hnone
  rw [pass, if_neg hhelp, if_neg hversion, if_pos htake, longOption]
  simp [hcut, hdrop, hopt, hflag]

end IsOptionName

/-- An argument with an equals sign is no built-in option. -/
theorem pass_inlined (p : CommandLineParser) (name value : Bytes) (spelling : Spelling) :
    p.pass (spelling.inlined name value) =
      if (spelling.inlined name value).take 2 = bytes "--" then
        p.longOption (spelling.inlined name value)
      else if (spelling.inlined name value).take 1 = bytes "-" ∧
          1 < (spelling.inlined name value).length then
        p.shortOptions (spelling.inlined name value).tail
      else .ends (p.failed (bytes "Unknown argument: " ++ spelling.inlined name value)) := by
  have hsign : (61 : UInt8) ∈ spelling.inlined name value := by
    cases spelling <;> simp [Spelling.inlined]
  have hne : ∀ arg : Bytes, 61 ∉ arg → spelling.inlined name value ≠ arg := fun arg h heq =>
    h (heq ▸ hsign)
  have hhelp := hne (bytes "--help") (by decide)
  have hh := hne (bytes "-h") (by decide)
  have hversion := hne (bytes "--version") (by decide)
  rw [pass, if_neg fun h => h.1.elim hhelp hh, if_neg fun h => hversion h.1]

/-- What the loop does with a long option and its inline value. -/
theorem IsOptionName.pass_long {name : Bytes} (h : IsOptionName name) {opt : CommandLineOption}
    (hopt : p.findOption name = some opt) (value : Bytes) :
    p.pass (Spelling.long.inlined name value) =
      if opt.isFlag then
        if value ≠ [] then
          .ends (p.failed (bytes "Option --" ++ name ++ bytes " does not take a value"))
        else .goesOn (p.modifyOption name (·.setIsSet true))
      else if value = [] then
        .takesNext name (bytes "Option --" ++ name ++ bytes " requires a value")
      else .goesOn (p.modifyOption name (·.setValue value)) := by
  have htake : (Spelling.long.inlined name value).take 2 = bytes "--" := rfl
  have hcut : cutAt 61 (Spelling.long.inlined name value) = some (bytes "--" ++ name, value) :=
    cutAt_append h.noSign_long value
  have hdrop : (bytes "--" ++ name).drop 2 = name := rfl
  rw [pass_inlined, if_pos htake, longOption, hcut]
  simp only [hdrop, hopt]

/-- What the loop does with a short option and its inline value. -/
theorem IsOptionName.pass_short {name : Bytes} (h : IsOptionName name) {opt : CommandLineOption}
    (hopt : p.findOption name = some opt) (value : Bytes) :
    p.pass (Spelling.short.inlined name value) =
      if opt.isFlag then
        .ends (p.failed (bytes "Option -" ++ name ++ bytes " does not take a value"))
      else .goesOn (p.modifyOption name (·.setValue value)) := by
  obtain ⟨c, name, rfl⟩ := List.exists_cons_of_ne_nil h.nonempty
  have hdash : c ≠ 45 := fun heq => h.noDash (congrArg some heq)
  have htake : ¬(Spelling.short.inlined (c :: name) value).take 2 = bytes "--" := fun heq =>
    hdash (List.cons_eq_cons.mp (List.cons_eq_cons.mp heq).2).1
  have hone : (Spelling.short.inlined (c :: name) value).take 1 = bytes "-" ∧
      1 < (Spelling.short.inlined (c :: name) value).length :=
    ⟨rfl, by simp [Spelling.inlined, bytes]⟩
  have hcut : cutAt 61 (Spelling.short.inlined (c :: name) value).tail = some (c :: name, value) :=
    cutAt_append h.noSign value
  rw [pass_inlined, if_neg htake, if_pos hone, shortOptions, hcut]
  simp only [hopt]

/-- The loop over the first arguments of `parse`. -/
def before (p : CommandLineParser) (args : List Bytes) : Front :=
  front { p with errorText := [] } args

/-- An option is read with its inline value, in front of any arguments.
With a value, it is read like the option and the value behind it, and the argument behind it is not
taken. A flag is refused. -/
structure InlineAgrees (p : CommandLineParser) (args : List Bytes) (spelling : Spelling)
    (name value : Bytes) (opt : CommandLineOption) : Prop where
  same : opt.isFlag = false → ∀ more,
    p.parse (args ++ spelling.inlined name value :: more) =
      p.parse (args ++ separate name :: value :: more)
  keepsNext : opt.isFlag = false → ∀ q, p.before args = .looking q →
    ∃ next, q.pass (spelling.inlined name value) = .goesOn next
  refused : opt.isFlag → ∀ q, p.before args = .looking q → ∀ more,
    ∃ r, p.parse (args ++ spelling.inlined name value :: more) = .returned false r

theorem parse_append (p : CommandLineParser) (args more : List Bytes) :
    p.parse (args ++ more) = (p.before args).goOn more :=
  parseArgs_append _ args more

theorem parseArgs_ends {arg : Bytes} {outcome : ParseOutcome} (h : p.pass arg = .ends outcome)
    (more : List Bytes) : parseArgs p (arg :: more) = outcome := by
  cases more <;> simp [parseArgs, h]

theorem parseArgs_goesOn {arg : Bytes} {next : CommandLineParser}
    (h : p.pass arg = .goesOn next) (more : List Bytes) :
    parseArgs p (arg :: more) = parseArgs next more := by
  cases more <;> simp [parseArgs, h]

theorem parseArgs_takesNext {arg optName errorText : Bytes}
    (h : p.pass arg = .takesNext optName errorText) (value : Bytes) (more : List Bytes) :
    parseArgs p (arg :: value :: more) =
      parseArgs (p.modifyOption optName (·.setValue value)) more := by
  simp [parseArgs, h]

/-- The option is still there when the loop comes to it. -/
theorem findOption_before {args : List Bytes} {q : CommandLineParser} {name : Bytes}
    {opt : CommandLineOption} (h : p.before args = .looking q)
    (hopt : p.findOption name = some opt) :
    ∃ opt', q.findOption name = some opt' ∧ opt'.isFlag = opt.isFlag :=
  (alike_front h).findOption hopt

section

variable {args : List Bytes} {spelling : Spelling} {name value : Bytes} {opt : CommandLineOption}

theorem inlineAgrees_of_ended {outcome : ParseOutcome} (h : p.before args = .ended outcome) :
    InlineAgrees p args spelling name value opt where
  same _ more := by rw [parse_append, parse_append, h, Front.goOn, Front.goOn]
  keepsNext _ q hq := by simp [h] at hq
  refused _ q hq := by simp [h] at hq

/-- Behind any arguments, the loop does the same with an option that takes a value and its inline
value, unless this is the empty value of a long option. -/
theorem pass_inlined_value (hname : IsOptionName name) (hopt : p.findOption name = some opt)
    (hflag : opt.isFlag = false) (h : spelling = .short ∨ value ≠ []) :
    p.pass (spelling.inlined name value) = .goesOn (p.modifyOption name (·.setValue value)) := by
  cases spelling with
  | long =>
      have hvalue : value ≠ [] := h.resolve_left Spelling.noConfusion
      rw [hname.pass_long hopt]
      simp [hflag, hvalue]
  | short =>
      rw [hname.pass_short hopt]
      simp [hflag]

/-- A flag is refused with an inline value, unless this is the empty value of a long option. -/
theorem pass_inlined_flag (hname : IsOptionName name) (hopt : p.findOption name = some opt)
    (hflag : opt.isFlag) (h : spelling = .short ∨ value ≠ []) :
    ∃ r, p.pass (spelling.inlined name value) = .ends (.returned false r) := by
  cases spelling with
  | long =>
      have hvalue : value ≠ [] := h.resolve_left Spelling.noConfusion
      rw [hname.pass_long hopt, if_pos hflag, if_pos hvalue]
      exact ⟨_, rfl⟩
  | short =>
      rw [hname.pass_short hopt, if_pos hflag]
      exact ⟨_, rfl⟩

theorem inlineAgrees_of_looking {q : CommandLineParser} (hname : IsOptionName name)
    (hopt : p.findOption name = some opt) (hq : p.before args = .looking q)
    (h : spelling = .short ∨ value ≠ []) : InlineAgrees p args spelling name value opt := by
  obtain ⟨opt', hopt', hkind⟩ := findOption_before hq hopt
  refine ⟨fun hflag more => ?_, fun hflag r hr => ?_, fun hflag r hr more => ?_⟩
  · have hpass := pass_inlined_value hname hopt' (hkind.trans hflag) h
    have htakes := hname.pass_separate hopt' (hkind.trans hflag)
    rw [parse_append, parse_append, hq, Front.goOn, Front.goOn, parseArgs_goesOn hpass,
      parseArgs_takesNext htakes]
  · obtain rfl : q = r := Front.looking.inj (hq.symm.trans hr)
    exact ⟨_, pass_inlined_value hname hopt' (hkind.trans hflag) h⟩
  · obtain ⟨r', hpass⟩ := pass_inlined_flag hname hopt' (hkind.trans hflag) h
    exact ⟨r', by rw [parse_append, hq, Front.goOn, parseArgs_ends hpass]⟩

/-- The empty value of a long option is read as none: the next argument is the value, and a flag is
set. -/
theorem not_inlineAgrees {q : CommandLineParser} (hname : IsOptionName name)
    (hopt : p.findOption name = some opt) (hq : p.before args = .looking q) :
    ¬InlineAgrees p args .long name [] opt := by
  intro h
  obtain ⟨opt', hopt', hkind⟩ := findOption_before hq hopt
  have hpass := hname.pass_long hopt' []
  cases hflag : opt.isFlag with
  | false =>
      obtain ⟨next, hnext⟩ := h.keepsNext hflag q hq
      rw [hkind, hflag, if_neg Bool.false_ne_true, if_pos rfl, hnext] at hpass
      cases hpass
  | true =>
      obtain ⟨r, hr⟩ := h.refused hflag q hq []
      rw [hkind, hflag, if_pos rfl, if_neg (not_not_intro rfl)] at hpass
      rw [parse_append, hq, Front.goOn, parseArgs_goesOn hpass, parseArgs] at hr
      cases hr

/-- **An inline value is read like a separate one**, behind any arguments that leave it an option
and do not end the loop, if and only if it is not the empty value of a long option. -/
theorem inlineAgrees_iff (hname : IsOptionName name) (hopt : p.findOption name = some opt)
    (hplace : ∀ q optName errorText, p.before args ≠ .taking q optName errorText) :
    InlineAgrees p args spelling name value opt ↔
      (∃ outcome, p.before args = .ended outcome) ∨ spelling = .short ∨ value ≠ [] := by
  cases hbefore : p.before args with
  | ended outcome => exact ⟨fun _ => .inl ⟨outcome, rfl⟩, fun _ => inlineAgrees_of_ended hbefore⟩
  | looking q =>
      constructor
      · intro h
        by_contra hnot
        obtain ⟨-, hlong⟩ := not_or.mp hnot
        obtain ⟨hshort, hvalue⟩ := not_or.mp hlong
        obtain rfl : value = [] := not_not.mp hvalue
        cases spelling with
        | long => exact not_inlineAgrees hname hopt hbefore h
        | short => exact hshort rfl
      · intro h
        refine inlineAgrees_of_looking hname hopt hbefore (h.resolve_left ?_)
        rintro ⟨outcome, houtcome⟩
        cases houtcome
  | taking q optName errorText => exact absurd hbefore (hplace q optName errorText)

end

/-- A level and a flag. -/
def exampleParser : CommandLineParser :=
  (addOption {} (.withValue [bytes "level", bytes "l"] (bytes "1"))).addOption
    (.flag [bytes "verbose"])

/-- The empty value of `-l=` is read, behind a flag. -/
theorem short_agrees :
    InlineAgrees exampleParser [bytes "--verbose"] .short (bytes "l") []
      (.withValue [bytes "level", bytes "l"] (bytes "1")) :=
  (inlineAgrees_iff ⟨by decide, by decide, by decide⟩ (by decide)
    (by
      have hbefore : exampleParser.before [bytes "--verbose"] =
          .looking (exampleParser.modifyOption (bytes "verbose") (·.setIsSet true)) := by decide
      intro q optName errorText heq
      rw [hbefore] at heq
      cases heq)).mpr (.inr (.inl rfl))

/-- `--level=` takes the argument behind it, where `--level` takes its own empty value, and
`--verbose=` is taken for `--verbose`. -/
theorem long_takes_next :
    exampleParser.parse [bytes "--level=", bytes "--verbose"] =
        .returned true
          (exampleParser.modifyOption (bytes "level") (·.setValue (bytes "--verbose"))) ∧
      exampleParser.parse [bytes "--level", [], bytes "--verbose"] =
        .returned true ((exampleParser.modifyOption (bytes "level") (·.setValue [])).modifyOption
          (bytes "verbose") (·.setIsSet true)) ∧
      exampleParser.parse [bytes "--verbose="] =
        .returned true (exampleParser.modifyOption (bytes "verbose") (·.setIsSet true)) ∧
      ¬InlineAgrees exampleParser [] .long (bytes "level") []
        (.withValue [bytes "level", bytes "l"] (bytes "1")) := by
  refine ⟨by decide, by decide, by decide, fun h => ?_⟩
  exact absurd (h.same rfl [bytes "--verbose"]) (by decide)

end CommandLineParser

end SimplyNode
