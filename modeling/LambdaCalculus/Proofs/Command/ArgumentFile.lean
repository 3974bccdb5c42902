import LambdaCalculus.Proofs.Command.Verdict
import LambdaCalculus.Proofs.Parser.Juxtaposition
import LambdaCalculus.Proofs.Reduction.Relabel
import LambdaCalculus.Proofs.Typing.Relabel

/-!
# Argument files

Applying the term in one file to the term in another one shows the same as a
file with both terms behind each other in parentheses.  The two programs have
the same types and differ only in where their nodes stand, which neither the
check nor the reduction nor the printer looks at.
-/

namespace LambdaCalculus

/-- A file with two texts in parentheses has the texts of their files in
parentheses. -/
theorem fileText_juxtaposed
    (functionUnmarked : byteOrderMark.isPrefixOf function = false)
    (argumentUnmarked : byteOrderMark.isPrefixOf argument = false) :
    fileText (juxtaposed function argument) =
      juxtaposed (fileText function) (fileText argument) := by
  have wholeUnmarked :
      byteOrderMark.isPrefixOf (juxtaposed function argument) = false := by
    rw [juxtaposed_eq]
    rfl
  rw [fileText_of_unmarked wholeUnmarked,
    fileText_of_unmarked functionUnmarked,
    fileText_of_unmarked argumentUnmarked, juxtaposed_eq, juxtaposed_eq]
  simp [carriageReturn]

/-! ## Programs that differ in spans -/

/-- A term with other spans is accepted with the same type in the same pool. -/
theorem Options.check_relabel
    (options : Options)
    (spans : Span -> Span)
    (program : Term)
    (types : TypePool) :
    options.check (program.relabel spans id) types =
      (options.check program types).mapError (TypeError.relabel spans) := by
  unfold Options.check
  rw [Term.annotated_relabel, Term.check_relabel]
  split
  next =>
      simp only [Checked.relabel]
      cases (program.check types).result <;> rfl
  next => rfl

/-- Terms that differ in their spans at most are accepted alike. -/
theorem Options.check_of_alike
    (options : Options)
    (same : left.withoutSpans = right.withoutSpans)
    (accepted : options.check left types = .ok checked) :
    options.check right types = .ok checked := by
  have relabeled :=
    options.check_relabel (fun _ => .nowhere) left types
  rw [← Term.withoutSpans_eq_relabel, same, Term.withoutSpans_eq_relabel,
    options.check_relabel, accepted] at relabeled
  cases rightChecked : options.check right types with
  | error error =>
      rw [rightChecked] at relabeled
      cases relabeled
  | ok other =>
      rw [rightChecked] at relabeled
      cases relabeled
      rfl

/-- Both options ask for the same work on programs that differ in their spans at
most. -/
structure Options.WorkAlike
    (files : Files)
    (left right : Options) : Prop where
  /-- Results are shown in the same style. -/
  style : left.style = right.style
  /-- Programs are reduced by the same plan. -/
  plan : left.plan = right.plan
  /-- Either both check types or none does. -/
  typeCheck : left.typeCheck = right.typeCheck
  /-- There are two programs with the same pool of types. -/
  programs : ∃ leftProgram rightProgram types,
    left.program? files = some (leftProgram, types) ∧
    right.program? files = some (rightProgram, types) ∧
    leftProgram.withoutSpans = rightProgram.withoutSpans

namespace Options.WorkAlike

variable {left right : Options}

theorem symm
    (alike : left.WorkAlike files right) :
    right.WorkAlike files left := by
  obtain ⟨leftProgram, rightProgram, types, hasLeft, hasRight, same⟩ :=
    alike.programs
  exact ⟨alike.style.symm, alike.plan.symm, alike.typeCheck.symm,
    rightProgram, leftProgram, types, hasRight, hasLeft, same.symm⟩

/-- What is accepted and reduced to an end on one side is so on the other. -/
theorem transfer
    (alike : left.WorkAlike files right)
    (present : left.program? files = some (program, types))
    (accepted : left.check program types = .ok checked) :
    ∃ other, right.program? files = some (other, types) ∧
      right.check other types = .ok checked ∧
      ∀ outcome, left.plan.EndsWith program outcome ->
        ∃ otherOutcome, right.plan.EndsWith other otherOutcome ∧
          otherOutcome.status = outcome.status ∧
          otherOutcome.term.withoutSpans = outcome.term.withoutSpans := by
  obtain ⟨_, other, _, hasLeft, hasRight, same⟩ := alike.programs
  rw [present] at hasLeft
  cases hasLeft
  refine ⟨other, hasRight, ?_, ?_⟩
  · have sameCheck : left.check other types = right.check other types := by
      rw [Options.check, Options.check, alike.typeCheck]
    rw [← sameCheck]
    exact left.check_of_alike same accepted
  · intro outcome ended
    rw [← alike.plan]
    exact ended.of_alike same

/-- A run ends if the other one does. -/
theorem exists_executesTo
    (alike : left.WorkAlike files right)
    (leftAsked : left.AskedBy leftArguments)
    (rightAsked : right.AskedBy rightArguments)
    (ends : ∃ exit, ExecutesTo files leftArguments exit) :
    ∃ exit, ExecutesTo files rightArguments exit := by
  rw [exists_executesTo_iff leftAsked] at ends
  rw [exists_executesTo_iff rightAsked]
  intro program types type later present accepted
  obtain ⟨other, otherPresent, otherAccepted, _⟩ :=
    alike.symm.transfer present accepted
  obtain ⟨outcome, ended⟩ :=
    ends other types type later otherPresent otherAccepted
  obtain ⟨same, samePresent, _, transfers⟩ :=
    alike.transfer otherPresent otherAccepted
  rw [present] at samePresent
  cases samePresent
  obtain ⟨otherOutcome, otherEnded, _⟩ := transfers outcome ended
  exact ⟨otherOutcome, otherEnded⟩

/-- A run that shows a result shows the one that the other run shows. -/
theorem shows
    (alike : left.WorkAlike files right)
    (leftVerdict : left.Verdict files leftExit)
    (rightVerdict : right.Verdict files rightExit)
    (succeeded : leftExit.code = 0) :
    rightExit.code = 0 ∧
      ∃ line, leftExit.stdout = left.listings files ++ line ∧
        rightExit.stdout = right.listings files ++ line := by
  obtain ⟨program, types, type, later, outcome, present, accepted, ended,
    normal, leftShown⟩ := leftVerdict.of_code_eq_zero succeeded
  obtain ⟨other, otherPresent, otherAccepted, transfers⟩ :=
    alike.transfer present accepted
  obtain ⟨otherOutcome, otherEnded, sameStatus, sameTerm⟩ :=
    transfers outcome ended
  obtain ⟨otherSucceeded, rightShown, _⟩ := rightVerdict.shows_result
    otherPresent otherAccepted otherEnded (sameStatus.trans normal)
  have sameText : otherOutcome.term.render later right.style 0 =
      outcome.term.render later left.style 0 := by
    rw [alike.style, ← Term.render_relabel (fun _ => .nowhere),
      ← Term.withoutSpans_eq_relabel, sameTerm, Term.withoutSpans_eq_relabel,
      Term.render_relabel]
  refine ⟨otherSucceeded, _, leftShown, ?_⟩
  rw [rightShown]
  simp only [Session.resultLine, sameText, alike.style]

/-- Without the tokens of the files, both runs show the same. -/
theorem same_exit
    (alike : left.WorkAlike files right)
    (leftHidden : left.dumpTokens = false)
    (rightHidden : right.dumpTokens = false)
    (leftVerdict : left.Verdict files leftExit)
    (rightVerdict : right.Verdict files rightExit) :
    leftExit.code = rightExit.code ∧ leftExit.stdout = rightExit.stdout := by
  have leftNothing := Options.listings_of_not_dumpTokens leftHidden files
  have rightNothing := Options.listings_of_not_dumpTokens rightHidden files
  by_cases succeeded : leftExit.code = 0
  · obtain ⟨otherSucceeded, line, leftShown, rightShown⟩ :=
      alike.shows leftVerdict rightVerdict succeeded
    rw [succeeded, otherSucceeded, leftShown, rightShown, leftNothing,
      rightNothing]
    exact ⟨rfl, rfl⟩
  · have otherFailed : rightExit.code ≠ 0 := by
      intro otherSucceeded
      exact succeeded
        (alike.symm.shows rightVerdict leftVerdict otherSucceeded).1
    have leftFails := leftVerdict.fails_of_code succeeded
    have rightFails := rightVerdict.fails_of_code otherFailed
    rw [leftFails.code, rightFails.code, leftFails.stdout, rightFails.stdout,
      leftNothing, rightNothing]
    exact ⟨rfl, rfl⟩

end Options.WorkAlike

/-! ## Two files and one -/

/-- Two files with a term each, and one file with both, give programs that
differ in their spans at most. -/
theorem workAlike_juxtaposed
    {files : Files}
    (options : Options)
    (functionUnmarked : byteOrderMark.isPrefixOf function = false)
    (argumentUnmarked : byteOrderMark.isPrefixOf argument = false)
    (functionParsed : (parse 0 (fileText function) .empty []).term.isSome =
      true)
    (argumentParsed : (parse 0 (fileText argument) .empty []).term.isSome =
      true)
    (functionRead : files.read functionPath = .ok function)
    (argumentRead : files.read argumentPath = .ok argument)
    (wholeRead : files.read wholePath = .ok (juxtaposed function argument))
    (given : argumentPath ≠ []) :
    Options.WorkAlike files
      { options with termPath := functionPath, argumentPath := argumentPath }
      { options with termPath := wholePath, argumentPath := [] } := by
  obtain ⟨first, second, between, later, application, firstParsed,
    secondParsed, wholeParsed, same⟩ :=
    parse_juxtaposed functionParsed argumentParsed 0 1 0
  rw [← fileText_juxtaposed functionUnmarked argumentUnmarked] at wholeParsed
  have hasFunction := Files.term?_of_parse functionRead firstParsed
  have hasArgument := Files.term?_of_parse argumentRead secondParsed
  have hasWhole := Files.term?_of_parse wholeRead wholeParsed
  refine ⟨rfl, rfl, rfl, .app first.span first second, application, later, ?_,
    ?_, same.symm⟩
  · simp [Options.program?, hasFunction, hasArgument, given]
  · simp [Options.program?, hasWhole]

/-- A run on two files shows the same on standard output, with the same exit
code, as a run on one file with both texts behind each other in parentheses; and
if one of the runs ends, the other one does. -/
theorem argument_file_juxtaposes
    (files : Files)
    (functionPath argumentPath wholePath function argument : Text)
    (functionUnmarked : byteOrderMark.isPrefixOf function = false)
    (argumentUnmarked : byteOrderMark.isPrefixOf argument = false)
    (functionParsed : (parse 0 (fileText function) .empty []).term.isSome =
      true)
    (argumentParsed : (parse 0 (fileText argument) .empty []).term.isSome =
      true)
    (functionRead : files.read functionPath = .ok function)
    (argumentRead : files.read argumentPath = .ok argument)
    (wholeRead : files.read wholePath =
      .ok ("(" ++ function ++ " " ++ argument ++ ")"))
    (given : argumentPath ≠ [])
    (options : Options)
    (hidden : options.dumpTokens = false)
    (twoFiles oneFile : List Text)
    (twoAsked : Options.AskedBy
      { options with termPath := functionPath, argumentPath := argumentPath }
      twoFiles)
    (oneAsked : Options.AskedBy
      { options with termPath := wholePath, argumentPath := [] } oneFile) :
    ((∃ exit, ExecutesTo files twoFiles exit) ↔
      ∃ exit, ExecutesTo files oneFile exit) ∧
    ∀ twoExit oneExit,
      ExecutesTo files twoFiles twoExit -> ExecutesTo files oneFile oneExit ->
        twoExit.stdout = oneExit.stdout ∧ twoExit.code = oneExit.code := by
  have alike := workAlike_juxtaposed options functionUnmarked argumentUnmarked
    functionParsed argumentParsed functionRead argumentRead wholeRead given
  refine ⟨⟨alike.exists_executesTo twoAsked oneAsked,
    alike.symm.exists_executesTo oneAsked twoAsked⟩, ?_⟩
  intro twoExit oneExit twoExecutes oneExecutes
  obtain ⟨sameCode, sameStdout⟩ := alike.same_exit hidden hidden
    (twoExecutes.verdict twoAsked) (oneExecutes.verdict oneAsked)
  exact ⟨sameStdout, sameCode⟩

/-- The identity on functions applied to another identity, from two files and
from one. -/
theorem argument_file_juxtaposes_identity :
    let files : Files :=
      ⟨fun path =>
        if path = "f" then .ok "(λx:A→A.x)"
        else if path = "a" then .ok "(λy:A.y)\n"
        else .ok "((λx:A→A.x) (λy:A.y)\n)", id⟩
    let twoFiles : List Text := ["f", "--arg", "a", "--strategy", "full"]
    let oneFile : List Text := ["g", "--strategy", "full"]
    ∃ twoExit oneExit,
      ExecutesTo files twoFiles twoExit ∧ ExecutesTo files oneFile oneExit ∧
      twoExit.code = 0 ∧ oneExit.code = 0 ∧
      twoExit.stdout = oneExit.stdout := by
  intro files twoFiles oneFile
  have ready : (execute 5 files twoFiles).any (fun exit =>
      decide (exit.code = 0)) = true := by
    decide +kernel
  obtain ⟨twoExit, executed, succeeded⟩ := (Option.any_eq_true _ _).mp ready
  have twoExecutes : ExecutesTo files twoFiles twoExit := ⟨5, executed⟩
  let options : Options :=
    { Options.initial with mode := .run, strategy := .full }
  obtain ⟨ends, same⟩ := argument_file_juxtaposes files "f" "a" "g"
    "(λx:A→A.x)" "(λy:A.y)\n" (by decide) (by decide) (by decide +kernel)
    (by decide +kernel) (by decide +kernel) (by decide +kernel)
    (by decide +kernel) (by decide) options rfl twoFiles oneFile
    ⟨by decide +kernel, rfl⟩ ⟨by decide +kernel, rfl⟩
  obtain ⟨oneExit, oneExecutes⟩ := ends.mp ⟨twoExit, twoExecutes⟩
  obtain ⟨sameStdout, sameCode⟩ := same twoExit oneExit twoExecutes oneExecutes
  have isZero := of_decide_eq_true succeeded
  exact ⟨twoExit, oneExit, twoExecutes, oneExecutes, isZero,
    sameCode.symm.trans isZero, sameStdout⟩

end LambdaCalculus
