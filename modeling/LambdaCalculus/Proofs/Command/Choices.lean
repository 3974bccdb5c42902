import LambdaCalculus.Command.Options

/-!
# Choices

A choice gives a value to one field of the options.  Of several choices about a
field the last one counts, and choices about different fields do not disturb each
other.
-/

namespace LambdaCalculus
namespace Options

/-- What can be chosen on the command line. -/
inductive Field
  | termPath
  | argumentPath
  | style
  | strategy
  | maxSteps
  | maxNodes
  | typeCheck
  | trace
  | verbose
  | dumpTokens
  | contextLines
deriving DecidableEq

/-- A field with a value for it. -/
inductive Choice
  | termPath (path : Text)
  | argumentPath (path : Text)
  | style (style : Style)
  | strategy (strategy : Strategy)
  | maxSteps (number : Nat)
  | maxNodes (number : Nat)
  | typeCheck (enabled : Bool)
  | trace (enabled : Bool)
  | verbose (enabled : Bool)
  | dumpTokens (enabled : Bool)
  | contextLines (number : Nat)
deriving DecidableEq

namespace Choice

/-- The field that a choice is about. -/
def field : Choice -> Field
  | termPath _ => .termPath
  | argumentPath _ => .argumentPath
  | style _ => .style
  | strategy _ => .strategy
  | maxSteps _ => .maxSteps
  | maxNodes _ => .maxNodes
  | typeCheck _ => .typeCheck
  | trace _ => .trace
  | verbose _ => .verbose
  | dumpTokens _ => .dumpTokens
  | contextLines _ => .contextLines

/-- Options with the choice made. -/
def applyTo
    (options : Options) : Choice -> Options
  | termPath path => { options with termPath := path }
  | argumentPath path => { options with argumentPath := path }
  | style shown => { options with style := shown }
  | strategy used => { options with strategy := used }
  | maxSteps number => { options with maxSteps := number }
  | maxNodes number => { options with maxNodes := number }
  | typeCheck enabled => { options with typeCheck := enabled }
  | trace enabled => { options with trace := enabled }
  | verbose enabled => { options with verbose := enabled }
  | dumpTokens enabled => { options with dumpTokens := enabled }
  | contextLines number => { options with contextLines := number }

/-- The input file that is chosen. -/
def input? : Choice -> Option Text
  | termPath path => some path
  | _ => none

end Choice

/-- What the options have chosen for a field. -/
def chosen
    (options : Options) : Field -> Choice
  | .termPath => .termPath options.termPath
  | .argumentPath => .argumentPath options.argumentPath
  | .style => .style options.style
  | .strategy => .strategy options.strategy
  | .maxSteps => .maxSteps options.maxSteps
  | .maxNodes => .maxNodes options.maxNodes
  | .typeCheck => .typeCheck options.typeCheck
  | .trace => .trace options.trace
  | .verbose => .verbose options.verbose
  | .dumpTokens => .dumpTokens options.dumpTokens
  | .contextLines => .contextLines options.contextLines

/-- Options are known by what they have chosen for each field. -/
theorem ext_of_chosen
    {left right : Options}
    (sameMode : left.mode = right.mode)
    (same : ∀ field, left.chosen field = right.chosen field) :
    left = right := by
  obtain ⟨mode, termPath, argumentPath, style, strategy, maxSteps, maxNodes,
    typeCheck, trace, verbose, dumpTokens, contextLines⟩ := left
  have termPathSame := same .termPath
  have argumentPathSame := same .argumentPath
  have styleSame := same .style
  have strategySame := same .strategy
  have maxStepsSame := same .maxSteps
  have maxNodesSame := same .maxNodes
  have typeCheckSame := same .typeCheck
  have traceSame := same .trace
  have verboseSame := same .verbose
  have dumpTokensSame := same .dumpTokens
  have contextLinesSame := same .contextLines
  simp_all [chosen]

namespace Choice

@[simp] theorem chosen_applyTo_same
    (choice : Choice)
    (options : Options) :
    (choice.applyTo options).chosen choice.field = choice := by
  cases choice <;> rfl

theorem chosen_applyTo_other
    {choice : Choice}
    {other : Field}
    (options : Options)
    (different : choice.field ≠ other) :
    (choice.applyTo options).chosen other = options.chosen other := by
  cases choice <;> cases other <;> first | rfl | exact (different rfl).elim

@[simp] theorem mode_applyTo
    (choice : Choice)
    (options : Options) :
    (choice.applyTo options).mode = options.mode := by
  cases choice <;> rfl

theorem input?_eq_some_iff
    (choice : Choice) :
    choice.input? = some path ↔ choice = .termPath path := by
  cases choice <;> simp [input?]

/-- Only an input file changes the input file. -/
theorem termPath_applyTo
    {choice : Choice}
    (options : Options)
    (noInput : choice.input? = none) :
    (choice.applyTo options).termPath = options.termPath := by
  cases choice <;> first | rfl | cases noInput

end Choice

/-- Choices made one after another. -/
def choose
    (options : Options)
    (choices : List Choice) : Options :=
  choices.foldl (fun options choice => choice.applyTo options) options

@[simp] theorem mode_choose
    (options : Options)
    (choices : List Choice) :
    (options.choose choices).mode = options.mode := by
  induction choices generalizing options with
  | nil => rfl
  | cons choice choices inductionHypothesis =>
      exact (inductionHypothesis _).trans (choice.mode_applyTo options)

/-- The last of the choices about a field, if there is one. -/
def lastAbout?
    (field : Field)
    (choices : List Choice) : Option Choice :=
  (choices.filter fun choice => choice.field = field).getLast?

/-- The last choice about a field is the one that counts. -/
theorem chosen_choose
    (options : Options)
    (choices : List Choice)
    (field : Field) :
    (options.choose choices).chosen field =
      (lastAbout? field choices).getD (options.chosen field) := by
  induction choices generalizing options with
  | nil => rfl
  | cons choice choices inductionHypothesis =>
      have behind := inductionHypothesis (choice.applyTo options)
      change ((choice.applyTo options).choose choices).chosen field = _
      rw [behind, lastAbout?, lastAbout?]
      by_cases about : choice.field = field
      · subst about
        rw [List.filter_cons_of_pos (by simp), choice.chosen_applyTo_same,
          List.getLast?_cons, Option.getD_some]
      · rw [List.filter_cons_of_neg (by simpa using about),
          choice.chosen_applyTo_other options about]

end Options
end LambdaCalculus
