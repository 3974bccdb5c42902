import LambdaCalculus.Proofs.Command.Phases
import LambdaCalculus.Proofs.Diagnostic.Templates
import LambdaCalculus.Proofs.Parser.Articulate
import LambdaCalculus.Proofs.Reduction.Quiet

/-!
# Every diagnostic fills its template

A diagnostic has as many arguments as the template of its code has places,
whoever adds it: the lexer, the parser, the type checker or the program itself.
Only the parser leaves empty arguments out, and it has none to leave out.
-/

namespace LambdaCalculus

/-- Every diagnostic fills its template. -/
def Diagnostics.FillTemplates (diagnostics : Diagnostics) : Prop :=
  ∀ diagnostic ∈ diagnostics, diagnostic.FillsTemplate

/-- Without an empty argument nothing is left out of the diagnostic. -/
theorem ParseError.fillsTemplate
    {error : ParseError}
    (articulate : [] ∉ error.arguments) :
    error.diagnostic.FillsTemplate := by
  have kept : error.diagnostic.arguments = error.arguments := by
    apply List.filter_eq_self.mpr
    intro argument member
    cases argument with
    | nil => exact (articulate member).elim
    | cons byte rest => rfl
  apply Diagnostic.FillsTemplate.of_length
  rw [kept]
  cases error <;> rfl

namespace Diagnostics.FillTemplates

theorem append
    {earlier later : Diagnostics}
    (earlierFill : earlier.FillTemplates)
    (laterFill : later.FillTemplates) :
    (earlier ++ later).FillTemplates :=
  List.forall_mem_append.mpr ⟨earlierFill, laterFill⟩

theorem single
    (fills : Diagnostic.FillsTemplate diagnostic) :
    Diagnostics.FillTemplates [diagnostic] :=
  List.forall_mem_singleton.mpr fills

theorem lex
    (file : Nat)
    (source : Text) :
    (LambdaCalculus.lex file source).diagnostics.FillTemplates := by
  unfold LambdaCalculus.lex
  split
  next => exact single (.of_length rfl)
  next =>
      intro diagnostic member
      obtain ⟨token, _, rfl⟩ := List.mem_map.mp member
      exact .of_length rfl

theorem stop
    (articulate : Stop.Articulate reason) :
    reason.diagnostics.FillTemplates := by
  cases reason with
  | lexical => nofun
  | outOfFuel => nofun
  | fault error => exact single (error.fillsTemplate articulate)

theorem parse
    (file : Nat)
    (source : Text)
    (types : TypePool)
    (known : Diagnostics) :
    (LambdaCalculus.parse file source types known).diagnostics.FillTemplates := by
  have lexed := lex file source
  unfold LambdaCalculus.parse Lexed.parse
  split
  next => exact lexed
  next =>
      have told := Parser.tells_program (LambdaCalculus.lex file source).stream
        (LambdaCalculus.lex file source).stream.tokens types
      rw [source_lex] at told
      replace told := told (Token.visible_of_mem_lex file source)
      split
      next => exact lexed
      next reason later stopped =>
          rw [stopped] at told
          cases told with
          | stopped _ articulate => exact lexed.append (stop articulate)

theorem check
    (term : Term)
    (types : TypePool) :
    (term.check types).diagnostics.FillTemplates := by
  intro diagnostic member
  obtain ⟨error, _, rfl⟩ := List.mem_map.mp member
  apply Diagnostic.FillsTemplate.of_length
  obtain ⟨span, binders, fault⟩ := error
  cases fault <;> rfl

theorem statusDiagnostics
    (options : Options)
    (types : TypePool)
    (outcome : Outcome) :
    (Session.statusDiagnostics options types outcome).FillTemplates := by
  unfold Session.statusDiagnostics
  split
  next => nofun
  next => exact single (.of_length rfl)
  next => exact single (.of_length rfl)
  next => exact single (.of_length rfl)

end Diagnostics.FillTemplates

/-! ## What a run finds -/

namespace Options

/-- The sources that the program reads.  It comes to the argument file when it
has a term to apply. -/
def sources
    (options : Options)
    (files : Files) : Sources :=
  (files.source? options.termPath).toList ++
    if (files.term? 0 options.termPath .empty).isSome &&
        !options.argumentPath.isEmpty then
      (files.source? options.argumentPath).toList
    else
      []

/-- A file that the program opens as the source with a number, and the types
numbered by then. -/
inductive Opens
    (options : Options)
    (files : Files) : Nat -> Text -> TypePool -> Prop
  | term :
      Opens options files 0 options.termPath .empty
  | argument
      (hasTerm : files.term? 0 options.termPath .empty =
        some (function, types))
      (given : options.argumentPath.isEmpty = false) :
      Opens options files 1 options.argumentPath types

/-- The diagnostics that arise when the program runs.  The first phase that adds
any is the last one. -/
inductive Finds
    (fuel : Nat)
    (options : Options)
    (files : Files) : Diagnostics -> Prop
  /-- A file holds no term. -/
  | inSource
      (opens : options.Opens files file path types)
      (readable : files.textOf path = .ok text)
      (absent : (LambdaCalculus.parse file text types []).term = none) :
      Finds fuel options files
        (LambdaCalculus.parse file text types []).diagnostics
  /-- The type of the program is faulty. -/
  | inType
      (present : options.program? files = some (program, types))
      (faulty : options.check program types = .error error) :
      Finds fuel options files (program.check types).diagnostics
  /-- The reduction has come to an end. -/
  | inReduction
      (present : options.program? files = some (program, types))
      (accepted : options.check program types = .ok (type, later))
      (ran : options.plan.run fuel program = some outcome) :
      Finds fuel options files
        (Session.statusDiagnostics options later outcome)

theorem Finds.fillTemplates
    {options : Options}
    (finds : options.Finds fuel files diagnostics) :
    diagnostics.FillTemplates := by
  cases finds with
  | inSource => exact .parse _ _ _ _
  | inType => exact .check _ _
  | inReduction => exact .statusDiagnostics _ _ _

theorem sources_of_none
    {options : Options}
    (noTerm : Files.term? files 0 options.termPath .empty = none) :
    options.sources files = (files.source? options.termPath).toList := by
  rw [sources, noTerm]
  exact List.append_nil _

theorem sources_of_alone
    {options : Options}
    (files : Files)
    (alone : options.argumentPath.isEmpty = true) :
    options.sources files = (files.source? options.termPath).toList := by
  rw [sources, alone, Bool.not_true, Bool.and_false]
  exact List.append_nil _

theorem sources_of_applied
    {options : Options}
    (hasTerm : Files.term? files 0 options.termPath .empty = some term)
    (given : options.argumentPath.isEmpty = false) :
    options.sources files =
      (files.source? options.termPath).toList ++
        (files.source? options.argumentPath).toList := by
  rw [sources, hasTerm, given]
  rfl

end Options

/-! ## What a run reports -/

/-- What the program writes to standard error behind its log: why it could not
read one of its files, or the reports of the diagnostics that it has found, in
the sources that it has read.  These diagnostics fill their templates. -/
inductive Exit.Reports
    (fuel : Nat)
    (files : Files)
    (options : Options)
    (exit : Exit) : Prop
  | unreadable
      (log : Text)
      (opens : options.Opens files file path types)
      (refused : files.textOf path = .error error)
      (quiet : options.verbose = false -> log = [])
      (code : exit.code = 1)
      (stderr : exit.stderr = log ++ "error: " ++ error.message path ++ "\n")
  | diagnostics
      (log : Text)
      (diagnostics : Diagnostics)
      (finds : options.Finds fuel files diagnostics)
      (fill : diagnostics.FillTemplates)
      (quiet : options.verbose = false -> options.trace = false -> log = [])
      (code : exit.code = if diagnostics.isEmpty then 0 else 1)
      (stderr : exit.stderr = log ++ diagnostics.flatMap fun diagnostic =>
        (diagnostic.report (options.sources files) options.contextLines ++ "\n"
          : Text))

/-- A phase gives a good value, or it ends the program with a report. -/
inductive Phase.Accounts
    (fuel : Nat)
    (files : Files)
    (options : Options)
    (good : Value -> Prop) : Except Exit Value -> Prop
  | error
      (reports : Exit.Reports fuel files options exit) :
      Accounts fuel files options good (.error exit)
  | ok
      {value : Value}
      (isGood : good value) :
      Accounts fuel files options good (.ok value)

theorem Phase.Accounts.bind
    {first : Except Exit Value}
    {next : Value -> Except Exit Other}
    {good : Value -> Prop}
    {nextGood : Other -> Prop}
    (accounts : Accounts fuel files options good first)
    (nextAccounts : ∀ value, good value ->
      Accounts fuel files options nextGood (next value)) :
    Accounts fuel files options nextGood (first >>= next) := by
  cases accounts with
  | error reports => exact .error reports
  | ok isGood => exact nextAccounts _ isGood

namespace Session

/-- A session in which nothing has gone wrong, with the types numbered and the
sources read so far. -/
structure Holds
    (options : Options)
    (types : TypePool)
    (sources : Sources)
    (session : Session) : Prop where
  /-- Nothing has gone wrong. -/
  calm : ∃ shown, session.Calm options shown types
  /-- The sources read so far. -/
  sources : session.sources = sources

variable {options : Options} {session : Session} {types : TypePool}
  {sources : Sources}

theorem Holds.log
    (holds : session.Holds options types sources)
    (phase message : Text) :
    (session.log options phase message).Holds options types sources := by
  obtain ⟨⟨shown, calm⟩, sameSources⟩ := holds
  exact ⟨⟨shown, calm.log phase message⟩, by rw [log_sources, sameSources]⟩

/-- A session that is finished with what the program has found reports it. -/
theorem finish_reports
    (sameSources : session.sources = options.sources files)
    (finds : options.Finds fuel files session.diagnostics)
    (quiet : options.verbose = false -> options.trace = false ->
      session.stderr = []) :
    Exit.Reports fuel files options (session.finish options) := by
  refine .diagnostics session.stderr _ finds finds.fillTemplates quiet rfl ?_
  rw [← sameSources]
  rfl

/-- A file is loaded as the next source, or the program ends because of it. -/
theorem Holds.load_accounts
    (fuel : Nat)
    (holds : session.Holds options types sources)
    (numbered : sources.length = file)
    (opens : options.Opens files file path types)
    (last : Files.term? files file path types = none ->
      options.sources files = sources ++ (files.source? path).toList) :
    Phase.Accounts fuel files options
      (fun loaded => ∃ later,
        files.term? file path types = some (loaded.1, later) ∧
        loaded.2.Holds options later
          (sources ++ (files.source? path).toList))
      (session.load files options path) := by
  obtain ⟨⟨shown, calm⟩, rfl⟩ := holds
  subst numbered
  cases read : files.textOf path with
  | error problem =>
      rw [session.load_of_unreadable options read]
      exact .error (.unreadable session.stderr opens read calm.stderr rfl rfl)
  | ok text =>
      have inFile : files.term? session.sources.length path types =
          (parse session.sources.length text types []).term.map fun term =>
            (term, (parse session.sources.length text types []).types) := by
        rw [Files.term?, read]
      cases parsed : (parse session.sources.length text types []).term with
      | none =>
          rw [parsed, Option.map_none] at inFile
          rw [session.load_of_readable options read, calm.parseNext, parsed]
          refine .error (finish_reports ?_ ?_ fun quiet _ => calm.stderr quiet)
          · rw [last inFile, Files.source?, read]
            rfl
          · rw [calm.afterParsing_diagnostics]
            exact .inSource opens read parsed
      | some term =>
          rw [parsed, Option.map_some] at inFile
          obtain ⟨next, loaded, nextCalm, _, sameSources⟩ :=
            calm.load_of_some rfl inFile
          rw [loaded]
          exact .ok ⟨_, inFile, ⟨_, nextCalm⟩, sameSources⟩

/-- The program is applied to its argument, if there is one. -/
theorem Holds.applyArgument_accounts
    (fuel : Nat)
    (holds : session.Holds options types
      (files.source? options.termPath).toList)
    (hasTerm : Files.term? files 0 options.termPath .empty =
      some (function, types)) :
    Phase.Accounts fuel files options
      (fun applied => ∃ later,
        options.program? files = some (applied.1, later) ∧
        applied.2.Holds options later (options.sources files))
      (session.applyArgument files options function) := by
  have one : (files.source? options.termPath).toList.length = 1 := by
    unfold Files.term? at hasTerm
    unfold Files.source?
    split at hasTerm
    next => cases hasTerm
    next => rfl
  unfold applyArgument Options.program?
  rw [hasTerm]
  cases given : options.argumentPath.isEmpty with
  | true =>
      refine .ok ⟨types, rfl, ?_⟩
      rw [Options.sources_of_alone files given]
      exact holds
  | false =>
      have whole := Options.sources_of_applied hasTerm given
      have loads := holds.load_accounts fuel one (.argument hasTerm given)
        fun _ => whole
      simp only [Bool.false_eq_true, if_false]
      generalize session.load files options options.argumentPath = loaded
        at loads ⊢
      cases loads with
      | error reports => exact .error reports
      | ok isGood =>
          obtain ⟨later, hasArgument, loadedHolds⟩ := isGood
          rw [← whole] at loadedHolds
          rw [hasArgument]
          exact .ok ⟨later, rfl, loadedHolds.log _ _⟩

/-- The type of the program is checked, if it is to be. -/
theorem Holds.checkType_accounts
    (fuel : Nat)
    (holds : session.Holds options types (options.sources files))
    (present : options.program? files = some (program, types)) :
    Phase.Accounts fuel files options
      (fun checked => ∃ later,
        options.check program types = .ok (checked.1, later) ∧
        checked.2.Holds options later (options.sources files))
      (session.checkType options program) := by
  obtain ⟨⟨shown, calm⟩, sameSources⟩ := holds
  cases checked : options.check program types with
  | ok accepted =>
      obtain ⟨type, later⟩ := accepted
      obtain ⟨next, isNext, nextCalm, kept⟩ := calm.checkType_of_ok checked
      rw [isNext]
      exact .ok ⟨later, rfl, ⟨shown, nextCalm⟩, kept.trans sameSources⟩
  | error error =>
      have variant := calm.log "variant"
        (if program.annotated then "typed" else "untyped")
      have finds : options.Finds fuel files (program.check types).diagnostics :=
        .inType present checked
      unfold Options.check at checked
      split at checked
      next checks =>
          split at checked
          next found rejected =>
              simp only [checkType, if_pos checks, variant.types, rejected]
              refine .error (finish_reports ?_ ?_ ?_)
              · simp only [log_sources, sameSources]
              · simp only [log_diagnostics, calm.diagnostics, List.nil_append]
                exact finds
              · intro quiet _
                rw [log_stderr_of_not_verbose quiet]
                exact variant.stderr quiet
          next => cases checked
      next => cases checked

/-- The end of the reduction is reported. -/
theorem Holds.conclude_reports
    (holds : session.Holds options later (options.sources files))
    (present : options.program? files = some (program, types))
    (accepted : options.check program types = .ok (type, later))
    (ran : options.plan.run fuel program = some outcome) :
    Exit.Reports fuel files options (session.conclude options type outcome) := by
  obtain ⟨⟨shown, calm⟩, sameSources⟩ := holds
  have finds : options.Finds fuel files
      (statusDiagnostics options later outcome) :=
    .inReduction present accepted ran
  have quiet : options.verbose = false -> options.trace = false ->
      (session.afterReducing options outcome).stderr = [] :=
    fun silent untraced => calm.afterReducing_stderr silent
      (Plan.EndsWith.trace_eq_nil untraced ⟨fuel, ran⟩)
  have kept : (session.afterReducing options outcome).sources =
      session.sources := by
    rw [afterReducing, log_sources, warn]
  have silent : (session.afterReducing options outcome).diagnostics = [] := by
    rw [afterReducing, log_diagnostics, warn, calm.diagnostics]
  rw [← calm.types] at finds
  rw [conclude_eq]
  simp only [silent, List.nil_append]
  split
  next => exact finish_reports (kept.trans sameSources) finds quiet
  next => exact finish_reports (kept.trans sameSources) finds quiet

end Session

theorem prepare_accounts
    (fuel : Nat)
    (files : Files)
    (options : Options) :
    Phase.Accounts fuel files options
      (fun prepared => ∃ types later,
        options.program? files = some (prepared.1, types) ∧
        options.check prepared.1 types = .ok (prepared.2.1, later) ∧
        prepared.2.2.Holds options later (options.sources files))
      (prepare files options) := by
  have started : Session.start.Holds options .empty [] :=
    ⟨⟨[], Session.Calm.start options⟩, rfl⟩
  unfold prepare
  refine (started.load_accounts fuel rfl .term Options.sources_of_none).bind ?_
  rintro ⟨function, session⟩ ⟨types, hasTerm, loaded⟩
  refine (loaded.applyArgument_accounts fuel hasTerm).bind ?_
  rintro ⟨program, session⟩ ⟨types, present, applied⟩
  refine (applied.checkType_accounts fuel present).bind ?_
  rintro ⟨type, session⟩ ⟨later, accepted, checked⟩
  exact .ok ⟨types, later, present, accepted, checked⟩

/-- However a run ends, what it reports are the diagnostics that it has found, and
these fill their templates. -/
theorem runProgram_reports
    (ended : runProgram fuel files options = some exit) :
    exit.Reports fuel files options := by
  have accounts := prepare_accounts fuel files options
  unfold runProgram at ended
  generalize prepare files options = prepared at accounts ended
  cases accounts with
  | error reports =>
      cases ended
      exact reports
  | ok isGood =>
      obtain ⟨types, later, present, accepted, holds⟩ := isGood
      obtain ⟨outcome, ran, rfl⟩ := Option.map_eq_some_iff.mp ended
      exact holds.conclude_reports present accepted ran

/-- Whoever adds a diagnostic -- the lexer, the parser, the type checker or the
program about the end of a reduction -- it has one argument for each place in its
template, and its message is the template with the arguments put in as they are.
A run adds no other diagnostics: what it writes behind its log is why a file cannot
be read, or the reports of those that it has found. -/
theorem diagnostics_fill_templates :
    (∀ file source, (lex file source).diagnostics.FillTemplates) ∧
    (∀ file source types known,
      (parse file source types known).diagnostics.FillTemplates) ∧
    (∀ (term : Term) types, (term.check types).diagnostics.FillTemplates) ∧
    (∀ options types outcome,
      (Session.statusDiagnostics options types outcome).FillTemplates) ∧
    (∀ fuel files options exit,
      runProgram fuel files options = some exit ->
        exit.Reports fuel files options) :=
  ⟨.lex, .parse, .check, .statusDiagnostics, fun _ _ _ _ => runProgram_reports⟩

/-- The source `{0}` has three unknown characters.  The braces are shown like any
other argument. -/
theorem diagnostics_fill_templates_braces :
    let source : Text := "\x7b0\x7d"
    let files : Files := ⟨fun _ => .ok source, id⟩
    (lex 0 source).diagnostics.FillTemplates ∧
      (lex 0 source).diagnostics.map Diagnostic.message =
        ["unknown character '\x7b'", "unknown character '0'",
          "unknown character '\x7d'"] ∧
      ∃ exit, runProgram 0 files .initial = some exit ∧
        exit.code = 1 ∧ exit.Reports 0 files .initial := by
  intro source files
  obtain ⟨lexed, _, _, _, runs⟩ := diagnostics_fill_templates
  have failed : (runProgram 0 files .initial).map Exit.code = some 1 := by
    decide +kernel
  obtain ⟨exit, ended, code⟩ := Option.map_eq_some_iff.mp failed
  exact ⟨lexed 0 source, by decide +kernel, exit, ended, code,
    runs 0 files .initial exit ended⟩

end LambdaCalculus
