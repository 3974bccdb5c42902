import LambdaCalculus.Proofs.Command.Verdict
import LambdaCalculus.Proofs.Reduction.Relabel
import LambdaCalculus.Proofs.Term.Reread

/-!
# Results of results

A result that is shown without a type is a program.  Running that program with
the same options takes no step and shows the same line again: the line is read
as the result, with other spans and perhaps other numbers for its types, and the
strategy has finished with it.
-/

namespace LambdaCalculus

/-! ## Lines as programs -/

theorem Term.annotated_eq_false_iff
    (term : Term) :
    term.annotated = false ↔ term.declaresOnly (fun _ => false) = true := by
  induction term with
  | var span index => simp [annotated, declaresOnly]
  | abs span declared body bodyHypothesis =>
      rw [annotated, declaresOnly, Bool.or_eq_false_iff, Bool.and_eq_true,
        bodyHypothesis]
      cases declared <;> simp
  | app span function argument functionHypothesis argumentHypothesis =>
      rw [annotated, declaresOnly, Bool.or_eq_false_iff, Bool.and_eq_true,
        functionHypothesis, argumentHypothesis]

/-- A closed term is printed in parentheses. -/
theorem Term.exists_named_eq
    {term : Term}
    (types : TypePool)
    (closed : term.closed = true) :
    ∃ rest, term.named types false 0 = 0x28 :: rest := by
  cases term with
  | var span index => cases closed
  | abs span declared body =>
      have small : 0 + 1 < Word.modulus := by decide
      exact ⟨_, named_abs types false 0 span declared body small⟩
  | app span function argument =>
      exact ⟨_, named_app types 0 span function argument⟩

/-- The line with a closed term is the text of the file that holds it. -/
theorem fileText_named_line
    {term : Term}
    (named : TypePool.NamedBy Text.Printable types)
    (closed : term.closed = true) :
    fileText (term.named types false 0 ++ [lineFeed]) =
      term.named types false 0 ++ [lineFeed] := by
  obtain ⟨rest, startsWith⟩ := Term.exists_named_eq types closed
  have unmarked : byteOrderMark.isPrefixOf
      (term.named types false 0 ++ [lineFeed]) = false := by
    rw [startsWith]
    rfl
  have printable := Term.printable_named named term false 0
  rw [fileText_of_unmarked unmarked, List.filter_eq_self]
  intro byte member
  rw [bne_iff_ne]
  rintro rfl
  rcases List.mem_append.mp member with inside | atEnd
  · exact printable.not_mem (by decide) inside
  · revert atEnd
    decide

/-! ## Finished results -/

/-- A strategy that has finished with a term has finished with it in another
pool. -/
theorem Plan.Finished.of_corresponds
    {plan : Plan}
    (finished : plan.Finished term)
    (corresponds : Term.Corresponds types later term other) :
    plan.Finished other := by
  unfold Finished at finished ⊢
  split at finished
  next => rw [corresponds.isAbstraction_eq, finished]
  next => rw [corresponds.hasRedex_eq, finished]

/-- The program is not checked, so its type is not shown. -/
def Options.LeavesBare
    (options : Options)
    (program : Term) : Prop :=
  program.annotated = false ∨ options.typeCheck = false

theorem Options.LeavesBare.check_eq
    {options : Options}
    (bare : options.LeavesBare program)
    (types : TypePool) :
    options.check program types = .ok (none, types) := by
  rw [check, if_neg]
  rcases bare with plain | unchecked
  · simp [plain]
  · simp [unchecked]

/-- A result is left bare if the program is. -/
theorem Options.LeavesBare.of_endsWith
    {options : Options}
    {plan : Plan}
    (bare : options.LeavesBare program)
    (ended : plan.EndsWith program outcome) :
    options.LeavesBare outcome.term := by
  rcases bare with plain | unchecked
  · rw [Term.annotated_eq_false_iff] at plain
    exact Or.inl
      ((Term.annotated_eq_false_iff _).mpr (ended.declaresOnly plain))
  · exact Or.inr unchecked

theorem Options.resultLine_of_named
    {options : Options}
    (style : options.style = .named)
    (types : TypePool)
    (term : Term) :
    Session.resultLine options types none term =
      term.named types false 0 ++ [lineFeed] := by
  simp only [Session.resultLine, style, Term.render, Text.ofString_lineFeed]

/-- The line of a bare result is read as a program that the strategy has
finished with, and that is shown as the same line. -/
theorem Options.exists_reread
    {options : Options}
    (present : options.program? files = some (program, types))
    (bare : options.LeavesBare program)
    (ended : options.plan.EndsWith program outcome)
    (normal : outcome.status = .normal)
    (fits : (outcome.term.named types false 0).length < Word.modulus)
    (stored : Files.read later path =
      .ok (outcome.term.named types false 0 ++ [lineFeed])) :
    ∃ again pool,
      later.term? 0 path .empty = some (again, pool) ∧
      options.LeavesBare again ∧
      options.plan.Finished again ∧
      again.named pool false 0 = outcome.term.named types false 0 := by
  obtain ⟨closed, built, declares⟩ := program?_spec present
  have wellFormed := built.wellFormed
  have resultClosed := (options.plan.outcome_of_closed closed ended).1
  have printable := printable_of_check present (bare.check_eq types)
  obtain ⟨again, pool, parsed, corresponds⟩ := Term.exists_parse_line 0
    wellFormed resultClosed (ended.declaresOnly declares) fits .empty
  rw [← fileText_named_line printable resultClosed] at parsed
  refine ⟨again, pool, Files.term?_of_parse stored parsed, ?_,
    (Plan.finished_of_endsWith closed ended normal).of_corresponds corresponds,
    corresponds.named_eq false 0⟩
  rw [LeavesBare, corresponds.annotated_eq]
  exact bare.of_endsWith ended

/-! ## Running a result -/

/-- A run that shows a bare term in the named style can be repeated on what it
shows: with the same options, a file that holds the shown text leads to the same
text, and the reduction takes no step.  The text has to fit in the memory of a
machine with 64-bit addresses, so that the names of binders do not repeat. -/
theorem result_shows_itself
    (files : Files)
    (options : Options)
    (arguments : List Text)
    (exit : Exit)
    (asked : options.AskedBy arguments)
    (style : options.style = .named)
    (hidden : options.dumpTokens = false)
    (executes : ExecutesTo files arguments exit)
    (succeeded : exit.code = 0)
    (program : Term)
    (types : TypePool)
    (present : options.program? files = some (program, types))
    (bare : program.annotated = false ∨ options.typeCheck = false)
    (fits : exit.stdout.length < Word.modulus)
    (later : Files)
    (path : Text)
    (stored : later.read path = .ok exit.stdout)
    (others : List Text)
    (askedAgain : Options.AskedBy
      { options with termPath := path, argumentPath := [] } others) :
    ∃ repeated again pool,
      (∀ other, ExecutesTo later others other ↔ other = repeated) ∧
      repeated.code = 0 ∧
      repeated.stdout = exit.stdout ∧
      Options.program? { options with termPath := path, argumentPath := [] }
        later = some (again, pool) ∧
      options.plan.EndsWith again ⟨again, .normal, 0, []⟩ ∧
      (options.verbose = true ->
        options.reduceLine ⟨again, .normal, 0, []⟩ <:+ repeated.stderr) := by
  let repeating := { options with termPath := path, argumentPath := [] }
  obtain ⟨_, _, type, _, outcome, loaded, accepted, ended, normal, stdout⟩ :=
    (executes.verdict asked).of_code_eq_zero succeeded
  rw [present] at loaded
  cases loaded
  have isBare : options.LeavesBare program := bare
  rw [isBare.check_eq] at accepted
  cases accepted
  rw [Options.listings_of_not_dumpTokens hidden, List.nil_append,
    Options.resultLine_of_named style] at stdout
  rw [stdout] at stored fits ⊢
  rw [List.length_append] at fits
  obtain ⟨again, pool, read, againBare, finished, shown⟩ :=
    Options.exists_reread present isBare ended normal (by omega) stored
  have againPresent : repeating.program? later = some (again, pool) := by
    simp [repeating, Options.program?, read]
  have againAccepted : repeating.check again pool = .ok (none, pool) :=
    againBare.check_eq pool
  have againEnded := finished.endsWith
  have ends : ∃ repeated, ExecutesTo later others repeated := by
    rw [exists_executesTo_iff askedAgain]
    intro other otherTypes otherType otherLater otherPresent otherAccepted
    rw [againPresent] at otherPresent
    cases otherPresent
    exact ⟨_, againEnded⟩
  obtain ⟨repeated, executesAgain⟩ := ends
  obtain ⟨code, stdoutAgain, logged⟩ :=
    (executesAgain.verdict askedAgain).shows_result againPresent againAccepted
      againEnded rfl
  refine ⟨repeated, again, pool, ?_, code, ?_, againPresent, againEnded,
    logged⟩
  · intro other
    exact ⟨fun executesOther => executesOther.unique askedAgain executesAgain,
      fun same => same ▸ executesAgain⟩
  · have hiddenAgain : repeating.dumpTokens = false := hidden
    have styleAgain : repeating.style = .named := style
    rw [stdoutAgain, Options.listings_of_not_dumpTokens hiddenAgain,
      List.nil_append, Options.resultLine_of_named styleAgain, shown]

/-- The normal form of an unchecked program, shown and run again.  The line about
the reduction does not mention the term. -/
theorem result_shows_itself_unchecked :
    let shown : Text := "(λa.(a (λb:A.b)))\n"
    let files : Files :=
      ⟨fun path =>
        if path = "f" then .ok "((λx.(λy.(y x))) (λz:A.z))" else .ok shown, id⟩
    let flags : List Text := ["--no-check", "--strategy", "full", "--verbose"]
    ∃ exit repeated,
      ExecutesTo files ("f" :: flags) exit ∧
      exit.stdout = shown ∧
      ExecutesTo files ("g" :: flags) repeated ∧
      repeated.code = 0 ∧
      repeated.stdout = exit.stdout ∧
      Text.ofString "[lcalc] reduce: strategy=full status=normal steps=0\n" <:+
        repeated.stderr := by
  intro shown files flags
  let options : Options :=
    { Options.initial with
      mode := .run, termPath := "f", typeCheck := false, strategy := .full
      verbose := true }
  have ready : (execute 9 files ("f" :: flags)).any (fun exit =>
      decide (exit.code = 0 ∧ exit.stdout = shown)) = true := by
    decide +kernel
  obtain ⟨exit, executed, expected⟩ := (Option.any_eq_true _ _).mp ready
  obtain ⟨succeeded, stdout⟩ := of_decide_eq_true expected
  have loads : (options.program? files).isSome = true := by
    decide +kernel
  obtain ⟨⟨program, types⟩, present⟩ := Option.isSome_iff_exists.mp loads
  have executes : ExecutesTo files ("f" :: flags) exit := ⟨9, executed⟩
  have fits : exit.stdout.length < Word.modulus := by
    rw [stdout]
    decide
  have stored : files.read "g" = .ok exit.stdout := by
    rw [stdout]
    decide +kernel
  obtain ⟨repeated, again, pool, runs, code, same, _, _, logged⟩ :=
    result_shows_itself files options ("f" :: flags) exit
      ⟨by decide +kernel, rfl⟩ rfl rfl executes succeeded program types present
      (Or.inr rfl) fits files "g" stored ("g" :: flags)
      ⟨by decide +kernel, rfl⟩
  have line : options.reduceLine ⟨default, .normal, 0, []⟩ =
      "[lcalc] reduce: strategy=full status=normal steps=0\n" := by
    decide +kernel
  refine ⟨exit, repeated, executes, stdout, (runs repeated).mpr rfl, code, same,
    ?_⟩
  rw [← line]
  exact logged rfl

end LambdaCalculus
