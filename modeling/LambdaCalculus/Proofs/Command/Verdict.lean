import LambdaCalculus.Proofs.Command.Phases
import LambdaCalculus.Proofs.Parser.SourceTypes
import LambdaCalculus.Proofs.Reduction.Quiet
import LambdaCalculus.Proofs.Term.Printable

/-!
# How a run of the program ends

There are three ways to end.  The program is unfit, because it cannot be loaded
or its type is faulty; the reduction stops early; or the result is shown.  The
exit code and the two streams tell which: a run that shows a result has the code
zero and nothing to report, and every other run has the code one and a message.
-/

namespace LambdaCalculus

/-! ## Programs -/

/-- What is loaded from a file is closed, and it declares proper types whose
names are identifiers. -/
theorem Files.term?_spec
    (built : types.Built fun name => Text.isIdentifier name = true)
    (present : Files.term? files file path types = some (term, later)) :
    term.closed = true ∧
      types.GrowsTo later ∧
      later.Built (fun name => Text.isIdentifier name = true) ∧
      term.declaresOnly (fun type => (later.tree type).isProper) = true := by
  unfold Files.term? at present
  split at present
  next => cases present
  next text read =>
      obtain ⟨_, parsed, same⟩ := Option.map_eq_some_iff.mp present
      cases same
      obtain ⟨_, _, grows, _⟩ := parse_translates parsed
      obtain ⟨laterBuilt, declares⟩ := parse_built built parsed
      exact ⟨closed_of_parse parsed, grows, laterBuilt, declares⟩

theorem Options.program?_spec
    {options : Options}
    (present : options.program? files = some (program, types)) :
    program.closed = true ∧
      types.Built (fun name => Text.isIdentifier name = true) ∧
      program.declaresOnly (fun type => (types.tree type).isProper) = true := by
  unfold Options.program? at present
  split at present
  next => cases present
  next function between hasTerm =>
      obtain ⟨functionClosed, _, betweenBuilt, functionDeclares⟩ :=
        Files.term?_spec .empty hasTerm
      split at present
      next =>
          cases present
          exact ⟨functionClosed, betweenBuilt, functionDeclares⟩
      next =>
          obtain ⟨⟨argument, _⟩, hasArgument, same⟩ :=
            Option.map_eq_some_iff.mp present
          cases same
          obtain ⟨argumentClosed, grows, built, argumentDeclares⟩ :=
            Files.term?_spec betweenBuilt hasArgument
          refine ⟨Term.closed_app _ functionClosed argumentClosed, built, ?_⟩
          rw [Term.declaresOnly, argumentDeclares, Bool.and_true]
          exact Term.declaresOnly_mono
            (fun type proper => TypePool.isProper_grow proper grows)
            functionDeclares

/-- Checking a type numbers function types only. -/
theorem Term.namedBy_of_checkIn
    {term : Term}
    (checked : term.checkIn context types = ⟨.ok type, later⟩)
    (named : types.NamedBy permitted) :
    later.NamedBy permitted := by
  induction term generalizing context types later type with
  | var span index =>
      rw [checkIn] at checked
      split at checked
      next => cases checked; exact named
      next => cases checked
  | abs span declared body inductionHypothesis =>
      cases declared with
      | none => cases checked
      | some declared =>
          rw [checkIn] at checked
          split at checked
          next => cases checked
          next bodyType between bodyChecked =>
              cases checked
              exact (inductionHypothesis bodyChecked named).function
                declared bodyType
  | app span function argument functionHypothesis argumentHypothesis =>
      rw [checkIn] at checked
      split at checked
      next => cases checked
      next functionType between functionChecked =>
          split at checked
          next => cases checked
          next argumentType after argumentChecked =>
              have afterNamed := argumentHypothesis argumentChecked
                (functionHypothesis functionChecked named)
              simp only at checked
              split at checked
              next =>
                  split at checked
                  next => cases checked; exact afterNamed
                  next => cases checked
              next => cases checked

theorem Text.ofString_lineFeed : Text.ofString "\n" = [lineFeed] := by
  decide

namespace Options

variable {options : Options}

/-- A program is accepted unless it is checked and its type is faulty. -/
theorem check_ok_iff
    (options : Options)
    (program : Term)
    (types : TypePool) :
    (∃ type later, options.check program types = .ok (type, later)) ↔
      program.annotated = false ∨ options.typeCheck = false ∨
        ∃ type, (program.check types).result = .ok type := by
  unfold check
  cases annotated : program.annotated with
  | false => simp
  | true =>
      cases checks : options.typeCheck with
      | false => simp
      | true =>
          cases result : (program.check types).result with
          | error error => simp
          | ok type => simp

/-- The names in the types of an accepted program have no control byte. -/
theorem printable_of_check
    (present : options.program? files = some (program, types))
    (accepted : options.check program types = .ok (type, later)) :
    later.NamedBy Text.Printable := by
  obtain ⟨_, built, _⟩ := program?_spec present
  have named := built.wellFormed.namedBy.mono
    fun _ => Text.printable_of_isIdentifier
  unfold check at accepted
  split at accepted
  next =>
      split at accepted
      next => cases accepted
      next found typed =>
          cases accepted
          have whole : program.check types =
              ⟨.ok found, (program.check types).types⟩ := by
            rw [← typed]
          exact Term.namedBy_of_checkIn whole named
  next =>
      cases accepted
      exact named

/-- The line that shows a result, without its end, has no control byte. -/
theorem exists_line
    (options : Options)
    (named : TypePool.NamedBy Text.Printable types)
    (type : Option TypeId)
    (term : Term) :
    ∃ line : Text, line.Printable ∧
      Session.resultLine options types type term = line ++ [lineFeed] ∧
      line =
        match type with
        | some type =>
            "(" ++ term.render types options.style 0 ++ "):" ++
              types.render options.style type
        | none => term.render types options.style 0 := by
  have shown := Term.printable_render named term options.style 0
  unfold Session.resultLine
  cases type with
  | none => exact ⟨_, shown, by rw [Text.ofString_lineFeed], rfl⟩
  | some type =>
      refine ⟨_, ?_, by rw [Text.ofString_lineFeed], rfl⟩
      simp only [Text.printable_append]
      exact ⟨⟨⟨by decide, shown⟩, by decide⟩,
        named.printable_render options.style type⟩

end Options

/-! ## Verdicts -/

/-- The program ends so on a command line. -/
def ExecutesTo
    (files : Files)
    (arguments : List Text)
    (exit : Exit) : Prop :=
  ∃ fuel, execute fuel files arguments = some exit

/-- The command line asks for a run with these options. -/
structure Options.AskedBy
    (options : Options)
    (arguments : List Text) : Prop where
  /-- The options are accepted. -/
  parsed : Options.parse arguments = ⟨options, none⟩
  /-- Neither help nor the version is asked for. -/
  mode : options.mode = .run

/-- How a run with some options ends. -/
inductive Options.Verdict
    (options : Options)
    (files : Files) : Exit -> Prop
  /-- There is no program, or its type is faulty. -/
  | unfit
      {exit : Exit}
      (unfit : options.Unfit files)
      (fails : exit.Fails (options.listings files)) :
      Verdict options files exit
  /-- The reduction stops early. -/
  | stopped
      {exit : Exit}
      (present : options.program? files = some (program, types))
      (accepted : options.check program types = .ok (type, later))
      (ended : options.plan.EndsWith program outcome)
      (stopped : outcome.status ≠ .normal)
      (fails : exit.Fails (options.listings files)) :
      Verdict options files exit
  /-- The result is shown. -/
  | finished
      {stderr : Text}
      (present : options.program? files = some (program, types))
      (accepted : options.check program types = .ok (type, later))
      (ended : options.plan.EndsWith program outcome)
      (normal : outcome.status = .normal)
      (quiet : options.trace = false -> options.verbose = false ->
        stderr = [])
      (logged : options.verbose = true ->
        options.reduceLine outcome <:+ stderr) :
      Verdict options files
        ⟨0, options.listings files ++
          Session.resultLine options later type outcome.term, stderr⟩

namespace Options

variable {options : Options}

theorem AskedBy.execute_eq
    (asked : options.AskedBy arguments)
    (fuel : Nat)
    (files : Files) :
    execute fuel files arguments = runProgram fuel files options := by
  cases arguments with
  | nil => cases asked.parsed
  | cons first rest =>
      rw [execute, asked.parsed]
      simp [asked.mode]

/-- A program is unfit, or it is accepted. -/
theorem unfit_or_accepted
    (options : Options)
    (files : Files) :
    options.Unfit files ∨
      ∃ program types type later,
        options.program? files = some (program, types) ∧
        options.check program types = .ok (type, later) := by
  cases present : options.program? files with
  | none => exact Or.inl (Or.inl present)
  | some loaded =>
      obtain ⟨program, types⟩ := loaded
      cases checked : options.check program types with
      | error error =>
          exact Or.inl (Or.inr ⟨program, types, error, present, checked⟩)
      | ok accepted =>
          exact Or.inr
            ⟨program, types, accepted.1, accepted.2, rfl, checked⟩

/-- An unfit program ends in one way whatever the fuel. -/
theorem Unfit.exists_runProgram
    (unfit : options.Unfit files) :
    ∃ exit : Exit, exit.Fails (options.listings files) ∧
      ∀ fuel, runProgram fuel files options = some exit := by
  obtain ⟨exit, prepared, fails⟩ := prepare_of_unfit unfit
  refine ⟨exit, fails, ?_⟩
  intro fuel
  rw [runProgram, prepared]

/-- An accepted program ends with its reduction. -/
theorem exists_runProgram
    (present : options.program? files = some (program, types))
    (accepted : options.check program types = .ok (type, later)) :
    ∃ session : Session,
      session.Calm options (options.listings files) later ∧
      ∀ fuel, runProgram fuel files options =
        (options.plan.run fuel program).map (session.conclude options type) := by
  obtain ⟨session, prepared, calm⟩ := prepare_of_accepted present accepted
  refine ⟨session, calm, ?_⟩
  intro fuel
  rw [runProgram, prepared]

end Options

/-- What a run ends with is one of the verdicts. -/
theorem ExecutesTo.verdict
    {options : Options}
    (asked : options.AskedBy arguments)
    (executes : ExecutesTo files arguments exit) :
    options.Verdict files exit := by
  obtain ⟨fuel, executed⟩ := executes
  rw [asked.execute_eq] at executed
  rcases options.unfit_or_accepted files with
    unfit | ⟨program, types, type, later, present, accepted⟩
  · obtain ⟨_, fails, runs⟩ := unfit.exists_runProgram
    rw [runs] at executed
    cases executed
    exact .unfit unfit fails
  · obtain ⟨session, calm, runs⟩ := Options.exists_runProgram present accepted
    rw [runs, Option.map_eq_some_iff] at executed
    obtain ⟨outcome, ran, rfl⟩ := executed
    have ended : options.plan.EndsWith program outcome := ⟨fuel, ran⟩
    by_cases normal : outcome.status = .normal
    · rw [calm.conclude_of_normal type normal]
      refine .finished present accepted ended normal ?_ ?_
      · intro untraced quiet
        exact calm.afterReducing_stderr quiet (ended.trace_eq_nil untraced)
      · intro verbose
        exact Session.reduceLine_suffix verbose session outcome
    · exact .stopped present accepted ended normal
        (calm.conclude_of_stopped type normal)

/-- A run ends exactly if the reduction does, in case it comes to that. -/
theorem exists_executesTo_iff
    {options : Options}
    (asked : options.AskedBy arguments)
    (files : Files) :
    (∃ exit, ExecutesTo files arguments exit) ↔
      ∀ program types type later,
        options.program? files = some (program, types) ->
        options.check program types = .ok (type, later) ->
          ∃ outcome, options.plan.EndsWith program outcome := by
  unfold ExecutesTo
  simp only [asked.execute_eq]
  constructor
  · rintro ⟨exit, fuel, executed⟩ program types type later present accepted
    obtain ⟨session, _, runs⟩ := Options.exists_runProgram present accepted
    rw [runs, Option.map_eq_some_iff] at executed
    obtain ⟨outcome, ran, _⟩ := executed
    exact ⟨outcome, fuel, ran⟩
  · intro ends
    rcases options.unfit_or_accepted files with
      unfit | ⟨program, types, type, later, present, accepted⟩
    · obtain ⟨exit, _, runs⟩ := unfit.exists_runProgram
      exact ⟨exit, 0, runs 0⟩
    · obtain ⟨session, _, runs⟩ := Options.exists_runProgram present accepted
      obtain ⟨outcome, fuel, ran⟩ :=
        ends program types type later present accepted
      refine ⟨session.conclude options type outcome, fuel, ?_⟩
      rw [runs, ran, Option.map_some]

/-- A run has one end at most. -/
theorem ExecutesTo.unique
    {options : Options}
    (asked : options.AskedBy arguments)
    (left : ExecutesTo files arguments leftExit)
    (right : ExecutesTo files arguments rightExit) :
    leftExit = rightExit := by
  obtain ⟨leftFuel, left⟩ := left
  obtain ⟨rightFuel, right⟩ := right
  rw [asked.execute_eq] at left right
  rcases options.unfit_or_accepted files with
    unfit | ⟨program, types, type, later, present, accepted⟩
  · obtain ⟨exit, _, runs⟩ := unfit.exists_runProgram
    rw [runs] at left right
    rw [← Option.some.inj left, ← Option.some.inj right]
  · obtain ⟨session, _, runs⟩ := Options.exists_runProgram present accepted
    rw [runs, Option.map_eq_some_iff] at left right
    obtain ⟨leftOutcome, leftRan, rfl⟩ := left
    obtain ⟨rightOutcome, rightRan, rfl⟩ := right
    rw [Plan.EndsWith.unique ⟨leftFuel, leftRan⟩ ⟨rightFuel, rightRan⟩]

/-! ## What the exit tells -/

/-- The program is loaded, it is accepted or need not be checked, and its
reduction ends normally. -/
def Options.Succeeds
    (options : Options)
    (files : Files) : Prop :=
  ∃ program types,
    options.program? files = some (program, types) ∧
    (program.annotated = false ∨ options.typeCheck = false ∨
      ∃ type, (program.check types).result = .ok type) ∧
    ∃ outcome, options.plan.EndsWith program outcome ∧
      outcome.status = .normal

/-- The one line of a run that succeeds: the result, and behind it its type if
that was checked. -/
def Options.IsResult
    (options : Options)
    (files : Files)
    (line : Text) : Prop :=
  ∃ program types outcome,
    options.program? files = some (program, types) ∧
    options.plan.EndsWith program outcome ∧ outcome.status = .normal ∧
    if program.annotated && options.typeCheck then
      ∃ type, (program.check types).result = .ok type ∧
        line = "(" ++
          outcome.term.render (program.check types).types options.style 0 ++
          "):" ++ (program.check types).types.render options.style type
    else
      line = outcome.term.render types options.style 0

namespace Options.Verdict

variable {options : Options} {exit : Exit}

/-- A program that is accepted and that is reduced to the end is shown. -/
theorem shows_result
    (verdict : options.Verdict files exit)
    (present : options.program? files = some (program, types))
    (accepted : options.check program types = .ok (type, later))
    (ended : options.plan.EndsWith program outcome)
    (normal : outcome.status = .normal) :
    exit.code = 0 ∧
      exit.stdout = options.listings files ++
        Session.resultLine options later type outcome.term ∧
      (options.verbose = true -> options.reduceLine outcome <:+ exit.stderr) := by
  cases verdict with
  | unfit unfit fails =>
      rcases unfit with absent | ⟨_, _, error, loaded, faulty⟩
      · rw [present] at absent
        cases absent
      · rw [present] at loaded
        cases loaded
        rw [accepted] at faulty
        cases faulty
  | stopped loaded passed otherEnded stopped fails =>
      rw [present] at loaded
      cases loaded
      rw [ended.unique otherEnded] at normal
      exact absurd normal stopped
  | finished loaded passed otherEnded _ quiet logged =>
      rw [present] at loaded
      cases loaded
      rw [accepted] at passed
      cases passed
      rw [ended.unique otherEnded]
      exact ⟨rfl, rfl, logged⟩

/-- Only what is accepted and reduced to the end has the code zero. -/
theorem of_code_eq_zero
    (verdict : options.Verdict files exit)
    (succeeded : exit.code = 0) :
    ∃ program types type later outcome,
      options.program? files = some (program, types) ∧
      options.check program types = .ok (type, later) ∧
      options.plan.EndsWith program outcome ∧
      outcome.status = .normal ∧
      exit.stdout = options.listings files ++
        Session.resultLine options later type outcome.term := by
  cases verdict with
  | unfit unfit fails => exact absurd succeeded fails.code_ne_zero
  | stopped present accepted ended stopped fails =>
      exact absurd succeeded fails.code_ne_zero
  | finished present accepted ended normal quiet logged =>
      exact ⟨_, _, _, _, _, present, accepted, ended, normal, rfl⟩

theorem code_eq_zero_iff
    (verdict : options.Verdict files exit) :
    exit.code = 0 ↔ options.Succeeds files := by
  constructor
  · intro succeeded
    obtain ⟨program, types, type, later, outcome, present, accepted, ended,
      normal, _⟩ := verdict.of_code_eq_zero succeeded
    exact ⟨program, types, present,
      (options.check_ok_iff program types).mp ⟨type, later, accepted⟩,
      outcome, ended, normal⟩
  · rintro ⟨program, types, present, passes, outcome, ended, normal⟩
    obtain ⟨type, later, accepted⟩ :=
      (options.check_ok_iff program types).mpr passes
    exact (verdict.shows_result present accepted ended normal).1

theorem fails_of_code
    (verdict : options.Verdict files exit)
    (failed : exit.code ≠ 0) :
    exit.Fails (options.listings files) := by
  cases verdict with
  | unfit unfit fails => exact fails
  | stopped present accepted ended stopped fails => exact fails
  | finished present accepted ended normal quiet logged =>
      exact absurd rfl failed

theorem exists_result
    (verdict : options.Verdict files exit)
    (succeeded : exit.code = 0) :
    ∃ line, options.IsResult files line ∧ lineFeed ∉ line ∧
      exit.stdout = options.listings files ++ line ++ [lineFeed] := by
  obtain ⟨program, types, type, later, outcome, present, accepted, ended,
    normal, stdout⟩ := verdict.of_code_eq_zero succeeded
  obtain ⟨line, printable, isLine, shown⟩ := options.exists_line
    (printable_of_check present accepted) type outcome.term
  refine ⟨line, ⟨program, types, outcome, present, ended, normal, ?_⟩,
    printable.not_mem (by decide), ?_⟩
  · unfold check at accepted
    split at accepted
    next checks =>
        rw [if_pos checks]
        split at accepted
        next => cases accepted
        next found typed =>
            cases accepted
            exact ⟨found, typed, shown⟩
    next unchecked =>
        rw [if_neg unchecked]
        cases accepted
        exact shown
  · rw [stdout, isLine, List.append_assoc]

theorem stderr_eq_nil
    (verdict : options.Verdict files exit)
    (succeeded : exit.code = 0)
    (untraced : options.trace = false)
    (quiet : options.verbose = false) :
    exit.stderr = [] := by
  cases verdict with
  | unfit unfit fails =>
      exact absurd succeeded fails.code_ne_zero
  | stopped present accepted ended stopped fails =>
      exact absurd succeeded fails.code_ne_zero
  | finished present accepted ended normal silent logged =>
      exact silent untraced quiet

end Options.Verdict

/-- A command line that does not ask for a run is answered at once. -/
theorem ExecutesTo.answer
    (executes : ExecutesTo files arguments exit)
    (unasked : ∀ options : Options, ¬options.AskedBy arguments) :
    exit.code = 0 ∨ exit.Fails [] := by
  obtain ⟨fuel, executed⟩ := executes
  unfold execute at executed
  split at executed
  next =>
      cases executed
      exact Or.inr ⟨rfl, rfl, by decide⟩
  next =>
  split at executed
  next options error parsed =>
      cases executed
      refine Or.inr ⟨rfl, rfl, ?_⟩
      simp [Text.ofString]
  next options parsed =>
  split at executed
  next =>
      cases executed
      exact Or.inl rfl
  next =>
      cases executed
      exact Or.inl rfl
  next isRun => exact absurd ⟨parsed, isRun⟩ (unasked options)

/-- The exit code is zero or one.  A run has the code zero exactly if it
succeeds; then it shows one line with the result, behind the tokens if these are
asked for, and nothing else.  With the code one there is always a message, and
nothing is shown but the tokens. -/
theorem exit_tells_success
    (files : Files)
    (arguments : List Text)
    (exit : Exit)
    (executes : ExecutesTo files arguments exit) :
    (exit.code = 0 ∨ exit.code = 1) ∧
    (∀ options : Options, options.AskedBy arguments ->
      (exit.code = 0 ↔ options.Succeeds files) ∧
      (exit.code = 0 ->
        (∃ line, options.IsResult files line ∧ lineFeed ∉ line ∧
          exit.stdout = options.listings files ++ line ++ [lineFeed]) ∧
        (options.trace = false -> options.verbose = false ->
          exit.stderr = [])) ∧
      (exit.code = 1 -> exit.stdout = options.listings files) ∧
      (options.dumpTokens = false -> options.listings files = [])) ∧
    (exit.code = 1 ->
      exit.stderr ≠ [] ∧
      ((∀ options : Options, ¬options.AskedBy arguments) ->
        exit.stdout = [])) := by
  by_cases isRun : ∃ options : Options, options.AskedBy arguments
  · obtain ⟨options, asked⟩ := isRun
    have verdict := executes.verdict asked
    refine ⟨?_, ?_, ?_⟩
    · by_cases succeeded : exit.code = 0
      · exact Or.inl succeeded
      · exact Or.inr (verdict.fails_of_code succeeded).code
    · intro others othersAsked
      have verdict := executes.verdict othersAsked
      refine ⟨verdict.code_eq_zero_iff, ?_, ?_, ?_⟩
      · intro succeeded
        exact ⟨verdict.exists_result succeeded,
          verdict.stderr_eq_nil succeeded⟩
      · intro failed
        exact (verdict.fails_of_code (by rw [failed]; nofun)).stdout
      · intro hidden
        exact Options.listings_of_not_dumpTokens hidden files
    · intro failed
      refine ⟨(verdict.fails_of_code (by rw [failed]; nofun)).stderr, ?_⟩
      intro unasked
      exact absurd asked (unasked options)
  · have unasked := not_exists.mp isRun
    refine ⟨?_, ?_, ?_⟩
    · rcases executes.answer unasked with succeeded | fails
      · exact Or.inl succeeded
      · exact Or.inr fails.code
    · intro options asked
      exact absurd asked (unasked options)
    · intro failed
      rcases executes.answer unasked with succeeded | fails
      · rw [failed] at succeeded
        cases succeeded
      · exact ⟨fails.stderr, fun _ => fails.stdout⟩

/-- The identity on a base type is shown with its type; applied to itself it is
faulty, which is reported. -/
theorem exit_tells_success_identity :
    let files : Files := ⟨fun _ => .ok "(λx:A.x)", id⟩
    let options : Options :=
      { Options.initial with mode := .run, termPath := "f" }
    (∃ exit, ExecutesTo files ["f"] exit ∧ exit.code = 0 ∧
      options.Succeeds files ∧ exit.stderr = [] ∧
      ∃ line, options.IsResult files line ∧
        exit.stdout = line ++ [lineFeed]) ∧
    (∃ exit, ExecutesTo files ["f", "-a", "f"] exit ∧ exit.code = 1 ∧
      exit.stdout = [] ∧ exit.stderr ≠ []) := by
  intro files options
  constructor
  · have ready : (execute 2 files ["f"]).any (fun exit =>
        decide (exit.code = 0)) = true := by
      decide +kernel
    obtain ⟨exit, executed, succeeded⟩ := (Option.any_eq_true _ _).mp ready
    have succeeded := of_decide_eq_true succeeded
    have asked : options.AskedBy ["f"] := ⟨by decide +kernel, rfl⟩
    have executes : ExecutesTo files ["f"] exit := ⟨2, executed⟩
    obtain ⟨_, runs, _⟩ := exit_tells_success files ["f"] exit executes
    obtain ⟨succeeds, shows, _, hidden⟩ := runs options asked
    obtain ⟨⟨line, isResult, _, stdout⟩, quiet⟩ := shows succeeded
    rw [hidden rfl, List.nil_append] at stdout
    exact ⟨exit, executes, succeeded, succeeds.mp succeeded, quiet rfl rfl,
      line, isResult, stdout⟩
  · have ready : (execute 2 files ["f", "-a", "f"]).any (fun exit =>
        decide (exit.code = 1)) = true := by
      decide +kernel
    obtain ⟨exit, executed, failed⟩ := (Option.any_eq_true _ _).mp ready
    have failed := of_decide_eq_true failed
    have asked : Options.AskedBy { options with argumentPath := "f" }
        ["f", "-a", "f"] :=
      ⟨by decide +kernel, rfl⟩
    have executes : ExecutesTo files ["f", "-a", "f"] exit := ⟨2, executed⟩
    obtain ⟨_, runs, message⟩ :=
      exit_tells_success files ["f", "-a", "f"] exit executes
    obtain ⟨_, _, shows, hidden⟩ := runs _ asked
    have stdout := shows failed
    rw [hidden rfl] at stdout
    exact ⟨exit, executes, failed, stdout, (message failed).1⟩

end LambdaCalculus
