import LambdaCalculus.Command.Execute
import LambdaCalculus.Proofs.Parser.Translation
import LambdaCalculus.Proofs.Reduction.Closedness
import LambdaCalculus.Proofs.Reduction.WordContraction

/-!
# Closed programs

A term that is parsed is closed, because each of its names has been found among
the binders around it.  The program reduces nothing but parsed terms and
applications of them, so all that it reduces is closed and it never gets stuck.
-/

namespace LambdaCalculus

/-! ## Parsing -/

/-- A translation has no free index besides those of its scope. -/
theorem Translates.closedUnder
    (translated : Translates types scope named term) :
    term.closedUnder scope.length = true := by
  induction translated with
  | var span innermost =>
      obtain ⟨bound, _⟩ := List.getElem?_eq_some_iff.mp innermost.1
      exact decide_eq_true bound
  | abs span declares translated inductionHypothesis =>
      exact inductionHypothesis
  | app span functionTranslated argumentTranslated functionHypothesis
      argumentHypothesis =>
      rw [Term.closedUnder_app, functionHypothesis, argumentHypothesis]
      rfl

theorem closed_of_parse
    (parsed : (parse file source types known).term = some term) :
    term.closed = true := by
  obtain ⟨_, _, _, translated⟩ := parse_translates parsed
  exact translated.closedUnder

theorem Term.closed_app
    {function argument : Term}
    (span : Span)
    (functionClosed : function.closed = true)
    (argumentClosed : argument.closed = true) :
    (app span function argument).closed = true := by
  rw [closed, closedUnder_app, Bool.and_eq_true]
  exact ⟨functionClosed, argumentClosed⟩

/-! ## Diagnostics before the reduction -/

/-- No diagnostic is about a stuck reduction. -/
def Diagnostics.Unstuck (diagnostics : Diagnostics) : Prop :=
  ∀ diagnostic ∈ diagnostics, diagnostic.code ≠ .reduceStuck

namespace Diagnostics.Unstuck

theorem nil : Diagnostics.Unstuck [] :=
  List.forall_mem_nil _

theorem append
    {earlier later : Diagnostics}
    (earlierUnstuck : earlier.Unstuck)
    (laterUnstuck : later.Unstuck) :
    (earlier ++ later).Unstuck :=
  List.forall_mem_append.mpr ⟨earlierUnstuck, laterUnstuck⟩

theorem lex
    (file : Nat)
    (source : Text) :
    (LambdaCalculus.lex file source).diagnostics.Unstuck := by
  intro diagnostic member
  unfold LambdaCalculus.lex at member
  split at member
  next =>
      rw [List.mem_singleton] at member
      rw [member]
      nofun
  next =>
      obtain ⟨token, _, rfl⟩ := List.mem_map.mp member
      nofun

theorem stop
    (reason : Stop) :
    reason.diagnostics.Unstuck := by
  intro diagnostic member
  cases reason with
  | lexical => cases member
  | outOfFuel => cases member
  | fault error =>
      rw [Stop.diagnostics, List.mem_singleton] at member
      rw [member]
      cases error <;> nofun

theorem parse
    (file : Nat)
    (source : Text)
    (types : TypePool)
    (known : Diagnostics) :
    (LambdaCalculus.parse file source types known).diagnostics.Unstuck := by
  unfold LambdaCalculus.parse Lexed.parse
  split
  next => exact lex file source
  next =>
      split
      next => exact lex file source
      next => exact (lex file source).append (stop _)

theorem check
    (term : Term)
    (types : TypePool) :
    (term.check types).diagnostics.Unstuck := by
  intro diagnostic member
  obtain ⟨error, _, rfl⟩ := List.mem_map.mp member
  change error.code ≠ .reduceStuck
  unfold TypeError.code
  split <;> nofun

end Diagnostics.Unstuck

/-! ## The program up to the reduction -/

namespace Session

@[simp] theorem log_diagnostics
    (session : Session)
    (options : Options)
    (phase message : Text) :
    (session.log options phase message).diagnostics = session.diagnostics := by
  unfold log
  split <;> rfl

/-- A term is loaded by parsing the text of its file.  Showing the tokens before
changes neither the types nor the diagnostics. -/
theorem exists_parse_of_load
    {session later : Session}
    (loaded : session.load files options path = .ok (term, later)) :
    ∃ file text,
      (parse file text session.types session.diagnostics).term = some term ∧
      later.diagnostics = session.diagnostics ++
        (parse file text session.types session.diagnostics).diagnostics := by
  unfold load at loaded
  split at loaded
  next => cases loaded
  next text read =>
      refine ⟨(session.sources.add ⟨path, text⟩).1, text, ?_⟩
      simp only at loaded
      have sameTypes : ∀ shown : Text,
          (if options.dumpTokens then session.write shown
            else session).types = session.types := by
        intro shown
        split <;> rfl
      have sameDiagnostics : ∀ shown : Text,
          (if options.dumpTokens then session.write shown
            else session).diagnostics = session.diagnostics := by
        intro shown
        split <;> rfl
      rw [sameTypes, sameDiagnostics] at loaded
      split at loaded
      next => cases loaded
      next parsed =>
          cases loaded
          exact ⟨parsed, log_diagnostics _ _ _ _⟩

/-- What is loaded from a file is closed. -/
theorem load_spec
    {session later : Session}
    (unstuck : session.diagnostics.Unstuck)
    (loaded : session.load files options path = .ok (term, later)) :
    term.closed = true ∧ later.diagnostics.Unstuck := by
  obtain ⟨file, text, parsed, added⟩ := exists_parse_of_load loaded
  refine ⟨closed_of_parse parsed, ?_⟩
  rw [added]
  exact unstuck.append (.parse file text _ _)

theorem applyArgument_spec
    {session later : Session}
    {program applied : Term}
    (closed : program.closed = true)
    (unstuck : session.diagnostics.Unstuck)
    (made : session.applyArgument files options program =
      .ok (applied, later)) :
    applied.closed = true ∧ later.diagnostics.Unstuck := by
  unfold applyArgument at made
  split at made
  next =>
      cases made
      exact ⟨closed, unstuck⟩
  next =>
      split at made
      next => cases made
      next argument loaded argumentLoaded =>
          cases made
          obtain ⟨argumentClosed, loadedUnstuck⟩ :=
            load_spec unstuck argumentLoaded
          rw [log_diagnostics]
          exact ⟨Term.closed_app program.span closed argumentClosed,
            loadedUnstuck⟩

theorem checkType_spec
    {session later : Session}
    (unstuck : session.diagnostics.Unstuck)
    (checked : session.checkType options program = .ok (type, later)) :
    later.diagnostics.Unstuck := by
  unfold checkType at checked
  simp only at checked
  split at checked
  next =>
      split at checked
      next => cases checked
      next =>
          cases checked
          rw [log_diagnostics, log_diagnostics]
          exact unstuck.append (.check program _)
  next =>
      cases checked
      rw [log_diagnostics]
      exact unstuck

theorem statusDiagnostics_unstuck
    (options : Options)
    (types : TypePool)
    (notStuck : outcome.status ≠ .stuck) :
    (statusDiagnostics options types outcome).Unstuck := by
  intro diagnostic member
  unfold statusDiagnostics at member
  split at member
  next => cases member
  next =>
      rw [List.mem_singleton] at member
      rw [member]
      nofun
  next =>
      rw [List.mem_singleton] at member
      rw [member]
      nofun
  next stuck => exact absurd stuck notStuck

end Session

/-- A sequence of phases succeeds if each phase does. -/
theorem exists_of_bind_ok
    {first : Except Problem Value}
    {next : Value -> Except Problem Other}
    {outcome : Other}
    (succeeded : (first >>= next) = .ok outcome) :
    ∃ value, first = .ok value ∧ next value = .ok outcome := by
  cases first with
  | error problem => cases succeeded
  | ok value => exact ⟨value, rfl, succeeded⟩

/-- The program that is reduced is closed. -/
theorem prepare_spec
    (prepared : prepare files options = .ok (program, type, session)) :
    program.closed = true ∧ session.diagnostics.Unstuck := by
  unfold prepare at prepared
  obtain ⟨⟨loaded, afterLoad⟩, isLoaded, rest⟩ := exists_of_bind_ok prepared
  obtain ⟨⟨applied, afterApply⟩, isApplied, rest⟩ := exists_of_bind_ok rest
  obtain ⟨⟨checked, afterCheck⟩, isChecked, done⟩ := exists_of_bind_ok rest
  cases done
  obtain ⟨loadedClosed, loadUnstuck⟩ := Session.load_spec .nil isLoaded
  obtain ⟨closed, applyUnstuck⟩ :=
    Session.applyArgument_spec loadedClosed loadUnstuck isApplied
  exact ⟨closed, Session.checkType_spec applyUnstuck isChecked⟩

/-! ## The whole program -/

/-- Parsed terms are closed, and so are applications of closed terms.  A run on
a closed term, with either strategy and any budget, gives a closed term and is
not stuck; with the head strategy it shows closed terms only and ends normally
only with an abstraction.  Where the indices fit, contraction in words is
defined and is the contraction of the run.  So no phase of the program ever
reports a stuck reduction. -/
theorem closed_throughout :
    (∀ file source types known term,
      (parse file source types known).term = some term ->
        term.closed = true) ∧
    (∀ span (function argument : Term),
      function.closed = true -> argument.closed = true ->
        (Term.app span function argument).closed = true) ∧
    (∀ (plan : Plan) term outcome,
      term.closed = true -> plan.EndsWith term outcome ->
        outcome.term.closed = true ∧ outcome.status ≠ .stuck ∧
        (plan.strategy = .weakHead ->
          (∀ observation ∈ outcome.trace, observation.focus.closed = true) ∧
          (outcome.status = .normal ->
            outcome.term.isAbstraction = true))) ∧
    (∀ (strategy : Strategy) body argument,
      Term.ContractionFits body argument ->
        strategy.contractInWords body argument =
          some (strategy.contract body argument)) ∧
    (∀ file source types known,
      (parse file source types known).diagnostics.Unstuck) ∧
    (∀ (term : Term) types, (term.check types).diagnostics.Unstuck) ∧
    (∀ files options program type session outcome,
      prepare files options = .ok (program, type, session) ->
      options.plan.EndsWith program outcome ->
        outcome.status ≠ .stuck ∧
        (session.diagnostics ++ Session.statusDiagnostics options
          session.types outcome).Unstuck) := by
  refine ⟨fun _ _ _ _ _ => closed_of_parse, fun span _ _ => Term.closed_app span,
    fun plan _ _ => plan.outcome_of_closed,
    fun strategy _ _ => strategy.contractInWords_eq,
    Diagnostics.Unstuck.parse, Diagnostics.Unstuck.check, ?_⟩
  intro files options program type session outcome prepared ended
  obtain ⟨closed, unstuck⟩ := prepare_spec prepared
  have notStuck := (options.plan.outcome_of_closed closed ended).2.1
  exact ⟨notStuck, unstuck.append
    (Session.statusDiagnostics_unstuck options session.types notStuck)⟩

/-- The program `(λx.(λy.(y x)))` applied to a copy of itself is closed, its
contraction fits and is shown, and the run ends with an abstraction. -/
theorem closed_throughout_applied :
    let files : Files := ⟨fun _ => .ok "(λx.(λy.(y x)))", id⟩
    let options : Options :=
      { Options.initial with
        termPath := "f", argumentPath := "a", trace := true }
    let pair : Term := .abs .nowhere none
      (.app .nowhere (.var .nowhere 0) (.var .nowhere 1))
    Term.ContractionFits pair (.abs .nowhere none pair) ∧
    Strategy.full.contractInWords pair (.abs .nowhere none pair) =
      some (pair.instantiate (.abs .nowhere none pair)) ∧
    ∃ program type session outcome,
      prepare files options = .ok (program, type, session) ∧
      options.plan.EndsWith program outcome ∧
      outcome.trace.length = 1 ∧
      (∀ observation ∈ outcome.trace, observation.focus.closed = true) ∧
      outcome.status = .normal ∧ outcome.term.isAbstraction = true ∧
      (session.diagnostics ++ Session.statusDiagnostics options
        session.types outcome).Unstuck := by
  intro files options pair
  obtain ⟨_, _, runs, words, _, _, reports⟩ := closed_throughout
  have fits : Term.ContractionFits pair (.abs .nowhere none pair) :=
    ⟨by decide, by decide, by decide⟩
  refine ⟨fits, words .full pair _ fits, ?_⟩
  have ready : (match prepare files options with
      | .ok (program, _, _) => (options.plan.run 3 program).any fun outcome =>
          program.closed && decide (outcome.trace.length = 1) &&
            decide (outcome.status = .normal)
      | .error _ => false) = true := by
    decide +kernel
  split at ready
  next program type session prepared =>
      obtain ⟨outcome, ran, holds⟩ := (Option.any_eq_true _ _).mp ready
      simp only [Bool.and_eq_true, decide_eq_true_eq] at holds
      obtain ⟨⟨closed, shown⟩, normal⟩ := holds
      have ended : options.plan.EndsWith program outcome := ⟨3, ran⟩
      obtain ⟨_, _, weakHead⟩ := runs options.plan program outcome closed ended
      obtain ⟨shownClosed, final⟩ := weakHead rfl
      exact ⟨program, type, session, outcome, prepared, ended, shown,
        shownClosed, normal, final normal,
        (reports files options program type session outcome prepared ended).2⟩
  next => cases ready

end LambdaCalculus
