import LambdaCalculus.Proofs.Command.Choices
import LambdaCalculus.Proofs.Text.Numeral

/-!
# The command line is a sequence of groups

A group is a flag, an option with its value, or an input file, and it sets one
field of the options.  Arguments are accepted exactly if they are put together
from groups with one input file; every field then has what the last of its groups
sets.  So groups of different fields can stand in any order.
-/

namespace LambdaCalculus
namespace Options

/-! ## Groups -/

/-- The flags that stand alone, each with what it chooses. -/
def bareFlags : List (Text × Choice) :=
  [("-d", .style .debug), ("--debug", .style .debug),
    ("--indices", .style .indexed), ("--no-check", .typeCheck false),
    ("--trace", .trace true), ("--verbose", .verbose true),
    ("--dump-tokens", .dumpTokens true)]

/-- The text consists of decimal digits and stands for a number of 64 bits. -/
structure IsNumeral
    (numeral : Text)
    (number : Nat) : Prop where
  /-- There is a digit. -/
  nonempty : numeral ≠ []
  /-- There is nothing else. -/
  digits : ∀ byte ∈ numeral, Text.isDigit byte = true
  /-- The digits stand for this number. -/
  value : numeral.decimalValue = number
  /-- The number fits in a word. -/
  small : number < Word.modulus

/-- The arguments are a group that makes the choice. -/
inductive Says : List Text -> Choice -> Prop
  | flag
      (listed : (flag, choice) ∈ bareFlags) :
      Says [flag] choice
  | argument
      (isFlag : flag = "-a" ∨ flag = "--arg")
      (path : Text) :
      Says [flag, path] (.argumentPath path)
  | weakHead : Says ["--strategy", "whnf"] (.strategy .weakHead)
  | full : Says ["--strategy", "full"] (.strategy .full)
  | maxSteps
      (numeral : IsNumeral digits number) :
      Says ["--max-steps", digits] (.maxSteps number)
  | maxNodes
      (numeral : IsNumeral digits number) :
      Says ["--max-nodes", digits] (.maxNodes number)
  | context
      (numeral : IsNumeral digits number) :
      Says ["--context", digits] (.contextLines (min number 64))
  | input
      (positional : path.length ≤ 1 ∨ path.head? ≠ some 0x2D) :
      Says [path] (.termPath path)

/-- Some arguments that belong together. -/
structure Group where
  /-- The arguments. -/
  words : List Text
  /-- What they choose. -/
  choice : Choice
  /-- They are a group that makes this choice. -/
  stated : Says words choice

/-- The arguments of all groups. -/
def spell (groups : List Group) : List Text :=
  groups.flatMap Group.words

/-- The choices of all groups. -/
def choices (groups : List Group) : List Choice :=
  groups.map Group.choice

/-- There is one input file that has a name.  Nameless ones may stand in front of
it and count for nothing. -/
def HasOneInput (choices : List Choice) : Prop :=
  ∃ before path, choices.filterMap Choice.input? = before ++ [path] ∧
    path ≠ [] ∧ ∀ other ∈ before, other = []

/-! ## What flags and options choose -/

/-- What a flag chooses. -/
def Flag.choice : Flag -> Choice
  | .debug => .style .debug
  | .indices => .style .indexed
  | .noCheck => .typeCheck false
  | .trace => .trace true
  | .verbose => .verbose true
  | .dumpTokens => .dumpTokens true

/-- What an option chooses with a value, if the value can be accepted. -/
def Setting.choice?
    (setting : Setting)
    (value : Text) : Option Choice :=
  match setting with
  | .argument => some (.argumentPath value)
  | .strategy => (Strategy.ofName? value).map .strategy
  | .maxSteps =>
      if value.isNumber then some (.maxSteps value.decimalValue) else none
  | .maxNodes =>
      if value.isNumber then some (.maxNodes value.decimalValue) else none
  | .context =>
      if value.isNumber then some (.contextLines (min value.decimalValue 64))
      else none

theorem Flag.set_eq
    (flag : Flag)
    (options : Options) :
    flag.set options = flag.choice.applyTo options := by
  cases flag <;> rfl

/-- A number is stored, or the value is not accepted. -/
theorem storeNumber_spec
    (ofNumber : Nat -> Choice)
    (options : Options)
    (flag value : Text) :
    match if value.isNumber then some (ofNumber value.decimalValue) else none with
    | some choice =>
        storeNumber (fun number => (ofNumber number).applyTo options) options
            flag value =
          ⟨choice.applyTo options, none⟩
    | none =>
        (storeNumber (fun number => (ofNumber number).applyTo options) options
          flag value).error ≠ none := by
  unfold storeNumber
  cases isNumber : value.isNumber with
  | true =>
      rw [Text.leadingNumber?_of_isNumber isNumber]
      rfl
  | false => nofun

/-- An option makes its choice, or its value is not accepted. -/
theorem Setting.set_spec
    (setting : Setting)
    (options : Options)
    (flag value : Text) :
    match setting.choice? value with
    | some choice =>
        setting.set options flag value = ⟨choice.applyTo options, none⟩
    | none => (setting.set options flag value).error ≠ none := by
  cases setting with
  | argument => rfl
  | strategy =>
      simp only [choice?, set]
      cases Strategy.ofName? value with
      | none => exact Option.some_ne_none _
      | some strategy => rfl
  | maxSteps => exact storeNumber_spec .maxSteps options flag value
  | maxNodes => exact storeNumber_spec .maxNodes options flag value
  | context =>
      simp only [choice?, set]
      cases value.isNumber with
      | true => rfl
      | false => exact Option.some_ne_none _

theorem Setting.set_of_choice?
    {setting : Setting}
    (options : Options)
    (flag : Text)
    (chooses : setting.choice? value = some choice) :
    setting.set options flag value = ⟨choice.applyTo options, none⟩ := by
  have spec := setting.set_spec options flag value
  rwa [chooses] at spec

theorem Setting.exists_choice?
    {setting : Setting}
    (accepted : setting.set options flag value = ⟨later, none⟩) :
    ∃ choice, setting.choice? value = some choice ∧
      later = choice.applyTo options := by
  have spec := setting.set_spec options flag value
  cases chooses : setting.choice? value with
  | none =>
      rw [chooses, accepted] at spec
      exact (spec rfl).elim
  | some choice =>
      rw [chooses, accepted] at spec
      cases spec
      exact ⟨choice, rfl, rfl⟩

theorem isNumeral_iff
    (numeral : Text)
    (number : Nat) :
    IsNumeral numeral number ↔
      numeral.isNumber = true ∧ numeral.decimalValue = number := by
  rw [Text.isNumber_iff]
  constructor
  · rintro ⟨nonempty, digits, rfl, small⟩
    exact ⟨⟨nonempty, digits, small⟩, rfl⟩
  · rintro ⟨⟨nonempty, digits, small⟩, rfl⟩
    exact ⟨nonempty, digits, rfl, small⟩

/-! ## Names -/

theorem flag_of_bareFlags :
    ∀ entry ∈ bareFlags,
      (flagNames.lookup entry.1).map Flag.choice = some entry.2 := by
  decide

theorem bareFlags_of_flag :
    ∀ entry ∈ flagNames, (entry.1, entry.2.choice) ∈ bareFlags := by
  decide

theorem isDashed_of_listed :
    (∀ entry ∈ flagNames, isDashed entry.1 = true) ∧
      ∀ entry ∈ settingNames, isDashed entry.1 = true := by
  decide

theorem mem_of_lookup
    {entries : List (Text × Value)}
    (found : entries.lookup name = some value) :
    (name, value) ∈ entries := by
  obtain ⟨before, behind, rfl, _⟩ := List.lookup_eq_some_iff.mp found
  simp

/-- All names of flags and options start with a dash. -/
theorem lookup_of_not_isDashed
    {entries : List (Text × Value)}
    (dashed : ∀ entry ∈ entries, isDashed entry.1 = true)
    (positional : isDashed name = false) :
    entries.lookup name = none := by
  rw [List.lookup_eq_none_iff]
  rintro ⟨other, value⟩ member
  rw [bne_iff_ne]
  rintro rfl
  have isDashed := dashed _ member
  rw [positional] at isDashed
  cases isDashed

theorem isDashed_eq_false_iff
    (argument : Text) :
    isDashed argument = false ↔
      argument.length ≤ 1 ∨ argument.head? ≠ some 0x2D := by
  cases argument with
  | nil => simp [isDashed]
  | cons first rest =>
      cases rest with
      | nil => simp [isDashed]
      | cons second rest =>
          by_cases dash : first = 0x2D
          · subst dash
            simp [isDashed]
          · simp [isDashed, dash]

/-! ## Reading one group -/

/-- A choice can be made unless it is a second input file. -/
def Fits
    (options : Options)
    (choice : Choice) : Prop :=
  choice.input?.isSome = true -> options.termPath = []

/-- The arguments are read by making a choice, if it can be made, and are not
accepted otherwise. -/
structure Chooses
    (words : List Text)
    (choice : Choice) : Prop where
  /-- If the choice can be made, it is made. -/
  read_append : ∀ options rest, Fits options choice ->
    read (words ++ rest) options = read rest (choice.applyTo options)
  /-- Otherwise there is an error. -/
  error : ∀ options rest, ¬ Fits options choice ->
    (read (words ++ rest) options).error ≠ none

/-- Only a second input file is refused. -/
theorem Chooses.of_noInput
    (noInput : choice.input? = none)
    (reads : ∀ options rest,
      read (words ++ rest) options = read rest (choice.applyTo options)) :
    Chooses words choice where
  read_append options rest _ := reads options rest
  error options rest misfit := by
    refine (misfit fun isInput => ?_).elim
    rw [noInput] at isInput
    cases isInput

theorem chooses_flag
    (found : flagNames.lookup word = some flag) :
    Chooses [word] flag.choice := by
  apply Chooses.of_noInput
  · cases flag <;> rfl
  · intro options rest
    rw [List.singleton_append, read, found, ← flag.set_eq]

theorem chooses_setting
    {setting : Setting}
    (noFlag : flagNames.lookup word = none)
    (found : settingNames.lookup word = some setting)
    (accepts : setting.choice? value = some choice)
    (noInput : choice.input? = none) :
    Chooses [word, value] choice := by
  apply Chooses.of_noInput noInput
  intro options rest
  rw [List.cons_append, List.singleton_append, read, noFlag, found]
  simp only [Setting.set_of_choice? options word accepts]

theorem chooses_input
    (positional : isDashed path = false) :
    Chooses [path] (.termPath path) := by
  have noFlag := lookup_of_not_isDashed isDashed_of_listed.1 positional
  have noSetting := lookup_of_not_isDashed isDashed_of_listed.2 positional
  constructor
  case read_append =>
    intro options rest fits
    rw [List.singleton_append, read, noFlag, noSetting]
    simp only [positional, Bool.false_eq_true, ↓reduceIte]
    rw [if_pos (List.isEmpty_iff.mpr (fits rfl))]
    rfl
  case error =>
    intro options rest misfit
    have given : options.termPath ≠ [] := fun blank => misfit fun _ => blank
    rw [List.singleton_append, read, noFlag, noSetting]
    simp only [positional, Bool.false_eq_true, ↓reduceIte]
    rw [if_neg (by simpa using given)]
    nofun

/-- Every group is read by making its choice. -/
theorem Says.chooses
    (stated : Says words choice) :
    Chooses words choice := by
  cases stated with
  | flag listed =>
      obtain ⟨flag, found, rfl⟩ :=
        Option.map_eq_some_iff.mp (flag_of_bareFlags _ listed)
      exact chooses_flag found
  | argument isFlag path =>
      rcases isFlag with rfl | rfl
      · exact chooses_setting (by decide) (by decide)
          (show Setting.argument.choice? path = _ from rfl) rfl
      · exact chooses_setting (by decide) (by decide)
          (show Setting.argument.choice? path = _ from rfl) rfl
  | weakHead =>
      exact chooses_setting (by decide) (by decide)
        (show Setting.strategy.choice? _ = _ by decide) rfl
  | full =>
      exact chooses_setting (by decide) (by decide)
        (show Setting.strategy.choice? _ = _ by decide) rfl
  | maxSteps numeral =>
      obtain ⟨isNumber, rfl⟩ := (isNumeral_iff _ _).mp numeral
      exact chooses_setting (by decide) (by decide)
        (show Setting.maxSteps.choice? _ = _ from if_pos isNumber) rfl
  | maxNodes numeral =>
      obtain ⟨isNumber, rfl⟩ := (isNumeral_iff _ _).mp numeral
      exact chooses_setting (by decide) (by decide)
        (show Setting.maxNodes.choice? _ = _ from if_pos isNumber) rfl
  | context numeral =>
      obtain ⟨isNumber, rfl⟩ := (isNumeral_iff _ _).mp numeral
      exact chooses_setting (by decide) (by decide)
        (show Setting.context.choice? _ = _ from if_pos isNumber) rfl
  | input positional =>
      exact chooses_input ((isDashed_eq_false_iff _).mpr positional)

/-! ## Reading all groups -/

/-- What is made of a number is made of a numeral. -/
theorem isNumeral_of_choice
    (ofNumber : Nat -> Choice)
    (accepts : (if Text.isNumber value then some (ofNumber value.decimalValue)
      else none) = some choice) :
    choice = ofNumber value.decimalValue ∧
      IsNumeral value value.decimalValue := by
  split at accepts
  next isNumber =>
      exact ⟨(Option.some.inj accepts).symm,
        (isNumeral_iff _ _).mpr ⟨isNumber, rfl⟩⟩
  next => cases accepts

/-- An option with a value that is accepted is a group. -/
theorem says_setting
    {setting : Setting}
    (listed : (flag, setting) ∈ settingNames)
    (accepts : setting.choice? value = some choice) :
    Says [flag, value] choice := by
  simp only [settingNames, List.mem_cons, List.not_mem_nil, or_false,
    Prod.mk.injEq] at listed
  rcases listed with ⟨rfl, rfl⟩ | ⟨rfl, rfl⟩ | ⟨rfl, rfl⟩ | ⟨rfl, rfl⟩ |
    ⟨rfl, rfl⟩ | ⟨rfl, rfl⟩
  · cases accepts
    exact .argument (.inl rfl) value
  · cases accepts
    exact .argument (.inr rfl) value
  · obtain ⟨strategy, named, rfl⟩ := Option.map_eq_some_iff.mp accepts
    unfold Strategy.ofName? at named
    have isName := List.find?_some named
    rw [beq_iff_eq] at isName
    rw [← isName]
    cases strategy with
    | weakHead => exact .weakHead
    | full => exact .full
  · obtain ⟨rfl, numeral⟩ := isNumeral_of_choice .maxSteps accepts
    exact .maxSteps numeral
  · obtain ⟨rfl, numeral⟩ := isNumeral_of_choice .maxNodes accepts
    exact .maxNodes numeral
  · obtain ⟨rfl, numeral⟩ :=
      isNumeral_of_choice (fun number => .contextLines (min number 64)) accepts
    exact .context numeral

/-- Arguments that are accepted are put together from groups. -/
theorem exists_groups_of_read
    (accepted : (read arguments options).error = none) :
    ∃ groups, arguments = spell groups := by
  induction arguments, options using read.induct with
  | case1 options blank => exact ⟨[], rfl⟩
  | case2 options given => exact ⟨[], rfl⟩
  | case3 argument rest options flag found inductionHypothesis =>
      rw [read, found] at accepted
      obtain ⟨groups, rfl⟩ := inductionHypothesis accepted
      exact ⟨⟨[argument], flag.choice,
        .flag (bareFlags_of_flag _ (mem_of_lookup found))⟩ :: groups, rfl⟩
  | case4 argument options noFlag setting found =>
      rw [read, noFlag, found] at accepted
      cases accepted
  | case5 argument options noFlag setting found value rest later isSet
      inductionHypothesis =>
      obtain ⟨choice, accepts, rfl⟩ := Setting.exists_choice? isSet
      rw [read, noFlag, found] at accepted
      simp only [isSet] at accepted
      obtain ⟨groups, rfl⟩ := inductionHypothesis accepted
      exact ⟨⟨[argument, value], choice,
        says_setting (mem_of_lookup found) accepts⟩ :: groups, rfl⟩
  | case6 argument options noFlag setting found value rest later error isSet =>
      rw [read, noFlag, found] at accepted
      simp only [isSet] at accepted
      cases accepted
  | case7 argument rest options noFlag noSetting dashed =>
      rw [read, noFlag, noSetting] at accepted
      simp only [if_pos dashed] at accepted
      cases accepted
  | case8 argument rest options noFlag noSetting positional blank
      inductionHypothesis =>
      rw [read, noFlag, noSetting] at accepted
      simp only [if_neg positional, if_pos blank] at accepted
      obtain ⟨groups, rfl⟩ := inductionHypothesis accepted
      exact ⟨⟨[argument], .termPath argument, .input
        ((isDashed_eq_false_iff _).mp (Bool.not_eq_true _ ▸ positional))⟩ ::
          groups, rfl⟩
  | case9 argument rest options noFlag noSetting positional given =>
      rw [read, noFlag, noSetting] at accepted
      simp only [if_neg positional, if_neg given] at accepted
      cases accepted

/-- All choices can be made one after another, and then there is an input
file. -/
def Accepts : Options -> List Choice -> Prop
  | options, [] => options.termPath ≠ []
  | options, choice :: choices =>
      Fits options choice ∧ Accepts (choice.applyTo options) choices

theorem read_spell
    {options : Options}
    {groups : List Group}
    (accepts : Accepts options (choices groups)) :
    read (spell groups) options =
      ⟨{ options.choose (choices groups) with mode := .run }, none⟩ := by
  induction groups generalizing options with
  | nil =>
      change options.termPath ≠ [] at accepts
      change read [] options = ⟨{ options with mode := .run }, none⟩
      rw [read, if_neg (by simpa using accepts)]
  | cons group groups inductionHypothesis =>
      obtain ⟨fits, othersAccepts⟩ := accepts
      change read (group.words ++ spell groups) options = _
      rw [group.stated.chooses.read_append options _ fits]
      exact inductionHypothesis othersAccepts

theorem accepts_of_read
    {options : Options}
    {groups : List Group}
    (accepted : (read (spell groups) options).error = none) :
    Accepts options (choices groups) := by
  induction groups generalizing options with
  | nil =>
      intro blank
      change (read [] options).error = none at accepted
      rw [read, if_pos (List.isEmpty_iff.mpr blank)] at accepted
      cases accepted
  | cons group groups inductionHypothesis =>
      change (read (group.words ++ spell groups) options).error = none
        at accepted
      have chooses := group.stated.chooses
      have fits : Fits options group.choice := by
        by_contra misfit
        exact chooses.error options _ misfit accepted
      rw [chooses.read_append options _ fits] at accepted
      exact ⟨fits, inductionHypothesis accepted⟩

/-- With an input file no other one is accepted. -/
theorem accepts_of_given
    {options : Options}
    {choices : List Choice}
    (given : options.termPath ≠ []) :
    Accepts options choices ↔ choices.filterMap Choice.input? = [] := by
  induction choices generalizing options with
  | nil => exact ⟨fun _ => rfl, fun _ => given⟩
  | cons choice choices inductionHypothesis =>
      rw [Accepts]
      cases isInput : choice.input? with
      | none =>
          have kept := choice.termPath_applyTo options isInput
          rw [List.filterMap_cons_none isInput,
            inductionHypothesis (kept ▸ given), and_iff_right]
          rw [Fits, isInput]
          nofun
      | some path =>
          rw [List.filterMap_cons_some isInput]
          constructor
          · rintro ⟨fits, _⟩
            exact (given (fits (by rw [isInput]; rfl))).elim
          · nofun

/-- Without an input file exactly one is accepted; one without a name counts for
nothing. -/
theorem accepts_of_blank
    {options : Options}
    {choices : List Choice}
    (blank : options.termPath = []) :
    Accepts options choices ↔ HasOneInput choices := by
  induction choices generalizing options with
  | nil =>
      constructor
      · intro given
        exact (given blank).elim
      · rintro ⟨before, path, isInput, _⟩
        simp at isInput
  | cons choice choices inductionHypothesis =>
      have fits : Fits options choice := fun _ => blank
      rw [Accepts, and_iff_right fits, HasOneInput]
      cases isInput : choice.input? with
      | none =>
          have kept := choice.termPath_applyTo options isInput
          rw [List.filterMap_cons_none isInput]
          exact inductionHypothesis (kept.trans blank)
      | some path =>
          obtain rfl := (choice.input?_eq_some_iff).mp isInput
          rw [List.filterMap_cons_some isInput]
          by_cases named : path = []
          · subst named
            rw [inductionHypothesis rfl, HasOneInput]
            constructor
            · rintro ⟨before, path, inputs, named, nameless⟩
              exact ⟨[] :: before, path, by rw [inputs]; rfl, named,
                List.forall_mem_cons.mpr ⟨rfl, nameless⟩⟩
            · rintro ⟨before, path, inputs, named, nameless⟩
              cases before with
              | nil => exact (named (List.cons.inj inputs).1.symm).elim
              | cons other before =>
                  exact ⟨before, path, (List.cons.inj inputs).2, named,
                    (List.forall_mem_cons.mp nameless).2⟩
          · rw [accepts_of_given named]
            constructor
            · intro noOther
              exact ⟨[], path, by rw [noOther]; rfl, named,
                List.forall_mem_nil _⟩
            · rintro ⟨before, last, inputs, _, nameless⟩
              cases before with
              | nil => exact (List.cons.inj inputs).2
              | cons other before =>
                  have same := (List.cons.inj inputs).1
                  exact (named (same.trans
                    (nameless other List.mem_cons_self))).elim

/-! ## The command line -/

/-- For each field the groups that set it are the same, in the same order. -/
def Rearranges (earlier later : List Group) : Prop :=
  ∀ field : Field,
    later.filter (fun group => group.choice.field = field) =
      earlier.filter (fun group => group.choice.field = field)

namespace Rearranges

theorem choices_filter
    (rearranges : Rearranges earlier later)
    (field : Field) :
    (choices later).filter (fun choice => choice.field = field) =
      (choices earlier).filter (fun choice => choice.field = field) := by
  rw [choices, choices, List.filter_map, List.filter_map]
  exact congrArg (List.map Group.choice) (rearranges field)

/-- The input files are the choices for one of the fields. -/
theorem filterMap_input?
    (rearranges : Rearranges earlier later) :
    (choices later).filterMap Choice.input? =
      (choices earlier).filterMap Choice.input? := by
  have ofField : ∀ choices : List Choice,
      choices.filterMap Choice.input? =
        (choices.filter fun choice => choice.field = .termPath).filterMap
          Choice.input? := by
    intro choices
    rw [List.filterMap_filter]
    congr 1
    funext choice
    cases choice <;> rfl
  rw [ofField, rearranges.choices_filter, ← ofField]

theorem accepts
    (rearranges : Rearranges earlier later) :
    Accepts initial (choices later) ↔ Accepts initial (choices earlier) := by
  rw [accepts_of_blank rfl, accepts_of_blank rfl, HasOneInput,
    rearranges.filterMap_input?, HasOneInput]

theorem choose
    (rearranges : Rearranges earlier later)
    (options : Options) :
    options.choose (choices later) = options.choose (choices earlier) := by
  apply ext_of_chosen
  · rw [mode_choose, mode_choose]
  · intro field
    rw [chosen_choose, chosen_choose, lastAbout?, lastAbout?,
      rearranges.choices_filter]

end Rearranges

/-- No argument asks for something else than a run. -/
theorem findSome?_overridingMode?_eq_none_iff
    (arguments : List Text) :
    arguments.findSome? overridingMode? = none ↔
      Text.ofString "--help" ∉ arguments ∧ Text.ofString "-h" ∉ arguments ∧
        Text.ofString "--version" ∉ arguments := by
  rw [List.findSome?_eq_none_iff]
  constructor
  · intro noMode
    refine ⟨?_, ?_, ?_⟩ <;>
    · intro member
      cases noMode _ member
  · rintro ⟨noHelp, noShortHelp, noVersion⟩ argument member
    have different : ∀ {name : Text}, name ∉ arguments -> argument ≠ name := by
      rintro name absent rfl
      exact absent member
    simp [overridingMode?, different noHelp, different noShortHelp,
      different noVersion]

/-- What asks for something else does not ask for a run. -/
theorem ne_run_of_overridingMode?
    {mode : Mode}
    (asks : overridingMode? argument = some mode) :
    mode ≠ .run := by
  unfold overridingMode? at asks
  split at asks
  next => cases asks; nofun
  next =>
      split at asks
      next => cases asks; nofun
      next => cases asks

/-- A command line that is a sequence of groups is accepted if its choices are. -/
theorem parse_of_groups
    {arguments : List Text}
    (runs : (arguments.map Text.beforeNul).findSome? overridingMode? = none)
    (grouped : arguments.map Text.beforeNul = spell groups)
    (accepts : Accepts initial (choices groups)) :
    parse arguments =
      ⟨{ initial.choose (choices groups) with mode := .run }, none⟩ := by
  rw [grouped] at runs
  simp only [parse, grouped, runs, read_spell accepts]

/-- A command line that is accepted for a run is a sequence of groups. -/
theorem exists_groups_of_parse
    {arguments : List Text}
    (accepted : (parse arguments).error = none)
    (isRun : (parse arguments).options.mode = .run) :
    (arguments.map Text.beforeNul).findSome? overridingMode? = none ∧
      ∃ groups, arguments.map Text.beforeNul = spell groups ∧
        Accepts initial (choices groups) := by
  cases asks : (arguments.map Text.beforeNul).findSome? overridingMode? with
  | some mode =>
      obtain ⟨argument, _, argumentAsks⟩ := List.exists_of_findSome?_eq_some asks
      simp only [parse, asks] at isRun
      exact (ne_run_of_overridingMode? argumentAsks isRun).elim
  | none =>
      simp only [parse, asks] at accepted
      obtain ⟨groups, grouped⟩ := exists_groups_of_read accepted
      rw [grouped] at accepted
      exact ⟨rfl, groups, grouped, accepts_of_read accepted⟩

/-- Groups are accepted in every order that keeps those of each field in order. -/
theorem Rearranges.parse_eq
    (rearranges : Rearranges earlier later)
    {arguments others : List Text}
    (grouped : arguments.map Text.beforeNul = spell earlier)
    (othersGrouped : others.map Text.beforeNul = spell later)
    (runs : (arguments.map Text.beforeNul).findSome? overridingMode? = none)
    (accepts : Accepts initial (choices earlier)) :
    parse others = parse arguments := by
  have othersRun :
      (others.map Text.beforeNul).findSome? overridingMode? = none := by
    rw [List.findSome?_eq_none_iff] at runs ⊢
    intro word member
    rw [othersGrouped] at member
    obtain ⟨group, groupMember, inGroup⟩ := List.mem_flatMap.mp member
    apply runs
    rw [grouped]
    refine List.mem_flatMap.mpr ⟨group, ?_, inGroup⟩
    have kept : group ∈ later.filter fun other =>
        other.choice.field = group.choice.field :=
      List.mem_filter.mpr ⟨groupMember, by simp⟩
    rw [rearranges] at kept
    exact (List.mem_filter.mp kept).1
  rw [parse_of_groups othersRun othersGrouped (rearranges.accepts.mpr accepts),
    parse_of_groups runs grouped accepts, rearranges.choose]

end Options

/-- A command line is accepted for a run exactly if it asks neither for help nor
for the version and is a sequence of groups with one input file.  Every field then
has what the last of its groups sets, or what it has from the start; and another
command line whose groups are the same but for the order of groups of different
fields is accepted with the same options. -/
theorem parse_options_by_groups
    (arguments : List Text) :
    let heard := arguments.map Text.beforeNul
    let parsed := Options.parse arguments
    ((parsed.error = none ∧ parsed.options.mode = .run) ↔
      (Text.ofString "--help" ∉ heard ∧ Text.ofString "-h" ∉ heard ∧
        Text.ofString "--version" ∉ heard) ∧
      ∃ groups, heard = Options.spell groups ∧
        Options.HasOneInput (Options.choices groups)) ∧
    ∀ groups, heard = Options.spell groups ->
      parsed.error = none -> parsed.options.mode = .run ->
      (∀ field, parsed.options.chosen field =
        (Options.lastAbout? field (Options.choices groups)).getD
          (Options.initial.chosen field)) ∧
      ∀ (others : List Text) (otherGroups : List Options.Group),
        others.map Text.beforeNul = Options.spell otherGroups ->
        Options.Rearranges groups otherGroups ->
          Options.parse others = parsed := by
  intro heard parsed
  constructor
  · rw [← Options.findSome?_overridingMode?_eq_none_iff]
    constructor
    · rintro ⟨accepted, isRun⟩
      obtain ⟨runs, groups, grouped, accepts⟩ :=
        Options.exists_groups_of_parse accepted isRun
      exact ⟨runs, groups, grouped, (Options.accepts_of_blank rfl).mp accepts⟩
    · rintro ⟨runs, groups, grouped, oneInput⟩
      have read := Options.parse_of_groups runs grouped
        ((Options.accepts_of_blank rfl).mpr oneInput)
      change parsed = _ at read
      rw [read]
      exact ⟨rfl, rfl⟩
  · intro groups grouped accepted isRun
    obtain ⟨runs, _⟩ := Options.exists_groups_of_parse accepted isRun
    have accepts : Options.Accepts .initial (Options.choices groups) := by
      apply Options.accepts_of_read
      rw [← grouped]
      simpa only [parsed, Options.parse, heard, runs] using accepted
    refine ⟨?_, fun others otherGroups othersGrouped rearranges =>
      rearranges.parse_eq grouped othersGrouped runs accepts⟩
    intro field
    rw [← Options.chosen_choose]
    have read : parsed = _ := Options.parse_of_groups runs grouped accepts
    rw [read]
    cases field <;> rfl

/-- In `-a --indices --context 99 f -d --indices` the first `--indices` is a value
and the second one overrides `-d`; the context is capped.  The flags may as well
stand in front. -/
theorem parse_options_by_groups_overridden :
    let arguments : List Text :=
      ["-a", "--indices", "--context", "99", "f", "-d", "--indices"]
    let others : List Text :=
      ["-d", "--indices", "--context", "99", "f", "-a", "--indices"]
    (Options.parse arguments).error = none ∧
      (Options.parse arguments).options.mode = .run ∧
      (∀ field, (Options.parse arguments).options.chosen field =
        (Options.lastAbout? field
          [.argumentPath "--indices", .contextLines 64, .termPath "f",
            .style .debug, .style .indexed]).getD
          (Options.initial.chosen field)) ∧
      Options.parse others = Options.parse arguments := by
  intro arguments others
  have numeral : Options.IsNumeral "99" 99 :=
    (Options.isNumeral_iff _ _).mpr (by decide)
  let argument : Options.Group :=
    ⟨["-a", "--indices"], .argumentPath "--indices", .argument (.inl rfl) _⟩
  let context : Options.Group :=
    ⟨["--context", "99"], .contextLines 64, .context numeral⟩
  let input : Options.Group := ⟨["f"], .termPath "f", .input (by decide)⟩
  let debug : Options.Group := ⟨["-d"], .style .debug, .flag (by decide)⟩
  let indices : Options.Group :=
    ⟨["--indices"], .style .indexed, .flag (by decide)⟩
  let groups := [argument, context, input, debug, indices]
  let otherGroups := [debug, indices, context, input, argument]
  have noNul : arguments.map Text.beforeNul = arguments ∧
      others.map Text.beforeNul = others := by
    decide
  have heard : arguments.map Text.beforeNul = Options.spell groups := noNul.1
  have othersHeard : others.map Text.beforeNul = Options.spell otherGroups :=
    noNul.2
  have oneInput : Options.HasOneInput (Options.choices groups) :=
    ⟨[], "f", rfl, by decide, List.forall_mem_nil _⟩
  obtain ⟨⟨_, accepts⟩, chosen⟩ := parse_options_by_groups arguments
  obtain ⟨accepted, isRun⟩ := accepts ⟨by decide, groups, heard, oneInput⟩
  obtain ⟨lastWins, rearranged⟩ := chosen groups heard accepted isRun
  refine ⟨accepted, isRun, lastWins, rearranged others otherGroups othersHeard ?_⟩
  intro field
  cases field <;>
    simp [groups, otherGroups, argument, context, input, debug, indices,
      Options.Choice.field]

end LambdaCalculus
