import LambdaCalculus.Proofs.Command.Loading
import LambdaCalculus.Proofs.Reduction.Fuel

/-!
# The phases of the program

The term that the program works on is a function of the files and the options,
and so are the tokens that it shows on the way.  A session stays calm as long as
nothing goes wrong: it has no diagnostics and has written nothing but these
tokens.  The first phase that goes wrong ends the program with a report.
-/

namespace LambdaCalculus

/-! ## What the program works on -/

/-- Without a byte order mark only the carriage returns of a file are left
out. -/
theorem fileText_of_unmarked
    (unmarked : byteOrderMark.isPrefixOf content = false) :
    fileText content = content.filter (· != carriageReturn) := by
  rw [fileText, dropByteOrderMark, unmarked]
  rfl

/-- The term in a file that is parsed as the source with the given number, and
the pool behind it. -/
def Files.term?
    (files : Files)
    (file : Nat)
    (path : Text)
    (types : TypePool) : Option (Term × TypePool) :=
  match files.textOf path with
  | .error _ => none
  | .ok text =>
      (parse file text types []).term.map fun term =>
        (term, (parse file text types []).types)

/-- A file as a source, if it can be read. -/
def Files.source?
    (files : Files)
    (path : Text) : Option Source :=
  match files.textOf path with
  | .error _ => none
  | .ok text => some ⟨path, text⟩

theorem Files.term?_of_parse
    {files : Files}
    (read : files.read path = .ok content)
    (parsed : parse file (fileText content) types [] =
      ⟨some term, later, []⟩) :
    files.term? file path types = some (term, later) := by
  rw [Files.term?, Files.textOf, read]
  simp only [Except.map, parsed, Option.map_some]

namespace Options

/-- The term that the program works on, and the pool of its types: the term in
the term file, applied to the one in the argument file if that is given. -/
def program?
    (options : Options)
    (files : Files) : Option (Term × TypePool) :=
  match files.term? 0 options.termPath .empty with
  | none => none
  | some (function, types) =>
      if options.argumentPath.isEmpty then
        some (function, types)
      else
        (files.term? 1 options.argumentPath types).map
          fun (argument, later) =>
            (.app function.span function argument, later)

/-- The tokens that are shown of a file; of a file that cannot be read there are
none. -/
def listingOf
    (options : Options)
    (files : Files)
    (file : Nat)
    (path : Text) : Text :=
  match files.textOf path with
  | .error _ => []
  | .ok text => options.listing file path text

/-- The tokens that the program shows.  It comes to the argument file when it
has a term to apply. -/
def listings
    (options : Options)
    (files : Files) : Text :=
  options.listingOf files 0 options.termPath ++
    if (files.term? 0 options.termPath .empty).isSome &&
        !options.argumentPath.isEmpty then
      options.listingOf files 1 options.argumentPath
    else
      []

/-- The type of a program that is checked, and the pool behind it. -/
def check
    (options : Options)
    (program : Term)
    (types : TypePool) : Except TypeError (Option TypeId × TypePool) :=
  if program.annotated && options.typeCheck then
    match (program.check types).result with
    | .error error => .error error
    | .ok type => .ok (some type, (program.check types).types)
  else
    .ok (none, types)

/-- The line of the log that tells about the reduction. -/
def reduceLine
    (options : Options)
    (outcome : Outcome) : Text :=
  "[lcalc] " ++ "reduce" ++ ": " ++
    ("strategy=" ++ options.strategy.name ++ " status=" ++
      outcome.status.name ++ " steps=" ++ Text.decimal outcome.steps) ++ "\n"

/-- Without an argument file only the term file is shown. -/
theorem listings_of_alone
    {options : Options}
    (files : Files)
    (alone : options.argumentPath.isEmpty = true) :
    options.listings files = options.listingOf files 0 options.termPath := by
  rw [listings, alone, Bool.not_true, Bool.and_false]
  exact List.append_nil _

/-- Without a term the argument file is not looked at. -/
theorem listings_of_none
    {options : Options}
    (noTerm : Files.term? files 0 options.termPath .empty = none) :
    options.listings files = options.listingOf files 0 options.termPath := by
  rw [listings, noTerm]
  exact List.append_nil _

theorem listings_of_applied
    {options : Options}
    (hasTerm : Files.term? files 0 options.termPath .empty = some term)
    (given : options.argumentPath.isEmpty = false) :
    options.listings files =
      options.listingOf files 0 options.termPath ++
        options.listingOf files 1 options.argumentPath := by
  rw [listings, hasTerm, given]
  rfl

theorem listing_of_not_dumpTokens
    {options : Options}
    (hidden : options.dumpTokens = false)
    (file : Nat)
    (path text : Text) :
    options.listing file path text = [] := by
  rw [listing, hidden]
  rfl

/-- No tokens are shown unless the options ask for them. -/
theorem listings_of_not_dumpTokens
    {options : Options}
    (hidden : options.dumpTokens = false)
    (files : Files) :
    options.listings files = [] := by
  have none : ∀ file path, options.listingOf files file path = [] := by
    intro file path
    unfold listingOf
    split
    next => rfl
    next text _ => exact listing_of_not_dumpTokens hidden file path text
  simp [listings, none]

end Options

/-! ## Ends and logs -/

/-- The program ends badly: it says why, and it has shown nothing but this. -/
structure Exit.Fails
    (exit : Exit)
    (shown : Text) : Prop where
  /-- The exit code says so. -/
  code : exit.code = 1
  /-- Nothing else stands on standard output. -/
  stdout : exit.stdout = shown
  /-- There is a message. -/
  stderr : exit.stderr ≠ []

theorem Exit.Fails.code_ne_zero
    {exit : Exit}
    (fails : exit.Fails shown) :
    exit.code ≠ 0 := by
  rw [fails.code]
  nofun

namespace Session

theorem abort_fails
    (session : Session)
    (message : Text) :
    (session.abort message).Fails session.stdout := by
  refine ⟨rfl, rfl, ?_⟩
  simp [abort, Text.ofString]

/-- A session with a diagnostic ends badly. -/
theorem finish_fails
    {session : Session}
    (options : Options)
    (stdout : session.stdout = shown)
    (faulty : session.diagnostics ≠ []) :
    (session.finish options).Fails shown := by
  obtain ⟨diagnostic, others, isCons⟩ := List.exists_cons_of_ne_nil faulty
  constructor
  · simp [finish, isCons]
  · exact stdout
  · simp [finish, reports, isCons, Text.ofString]

/-- A session without a diagnostic ends well. -/
theorem finish_of_silent
    {session : Session}
    (options : Options)
    (silent : session.diagnostics = []) :
    session.finish options = ⟨0, session.stdout, session.stderr⟩ := by
  simp [finish, reports, silent]

theorem log_stderr_of_verbose
    {options : Options}
    (verbose : options.verbose = true)
    (session : Session)
    (phase message : Text) :
    (session.log options phase message).stderr =
      session.stderr ++ ("[lcalc] " ++ phase ++ ": " ++ message ++ "\n") := by
  rw [log, if_pos verbose]
  rfl

theorem log_stderr_of_not_verbose
    {options : Options}
    (quiet : options.verbose = false)
    (session : Session)
    (phase message : Text) :
    (session.log options phase message).stderr = session.stderr := by
  rw [log, quiet]
  rfl

/-- The session when all has been written about a reduction but its result. -/
def afterReducing
    (session : Session)
    (options : Options)
    (outcome : Outcome) : Session :=
  (session.warn (outcome.trace.flatMap (traceLine options session.types))).log
    options "reduce"
    ("strategy=" ++ options.strategy.name ++ " status=" ++
      outcome.status.name ++ " steps=" ++ Text.decimal outcome.steps)

theorem conclude_eq
    (session : Session)
    (options : Options)
    (type : Option TypeId)
    (outcome : Outcome) :
    session.conclude options type outcome =
      let reduced := session.afterReducing options outcome
      let faults := statusDiagnostics options session.types outcome
      if outcome.status = .normal then
        Session.finish
          { reduced with
            diagnostics := reduced.diagnostics ++ faults
            stdout := reduced.stdout ++
              resultLine options session.types type outcome.term } options
      else
        Session.finish
          { reduced with diagnostics := reduced.diagnostics ++ faults }
          options := by
  simp only [conclude, afterReducing, log_types, warn, write]

/-- The reduction is the last phase of the log. -/
theorem reduceLine_suffix
    {options : Options}
    (verbose : options.verbose = true)
    (session : Session)
    (outcome : Outcome) :
    options.reduceLine outcome <:+
      (session.afterReducing options outcome).stderr := by
  rw [afterReducing, log_stderr_of_verbose verbose]
  exact List.suffix_append _ _

/-! ## Calm sessions -/

/-- Nothing has gone wrong so far. -/
structure Calm
    (options : Options)
    (shown : Text)
    (types : TypePool)
    (session : Session) : Prop where
  /-- The types numbered so far. -/
  types : session.types = types
  /-- There is no diagnostic. -/
  diagnostics : session.diagnostics = []
  /-- What has been shown. -/
  stdout : session.stdout = shown
  /-- Only the log goes to standard error. -/
  stderr : options.verbose = false -> session.stderr = []

namespace Calm

variable {options : Options} {session : Session} {types : TypePool}

theorem start
    (options : Options) :
    Session.start.Calm options [] .empty :=
  ⟨rfl, rfl, rfl, fun _ => rfl⟩

theorem log
    (calm : session.Calm options shown types)
    (phase message : Text) :
    (session.log options phase message).Calm options shown types where
  types := by rw [log_types, calm.types]
  diagnostics := by rw [log_diagnostics, calm.diagnostics]
  stdout := by rw [log_stdout, calm.stdout]
  stderr := by
    intro quiet
    rw [log_stderr_of_not_verbose quiet, calm.stderr quiet]

theorem parseNext
    (calm : session.Calm options shown types)
    (text : Text) :
    session.parseNext text = parse session.sources.length text types [] := by
  rw [Session.parseNext, calm.types, calm.diagnostics]

/-- What the parser says about the next source of a calm session is all that is
said. -/
theorem afterParsing_diagnostics
    (calm : session.Calm options shown types)
    (path text : Text) :
    (session.afterParsing options path text).diagnostics =
      (parse session.sources.length text types []).diagnostics := by
  rw [afterParsing, calm.parseNext, calm.diagnostics, List.nil_append]

theorem afterParsing_stdout
    (calm : session.Calm options shown types)
    (path text : Text) :
    (session.afterParsing options path text).stdout =
      shown ++ options.listing session.sources.length path text := by
  rw [afterParsing, calm.stdout]

/-- A file without a term ends the program. -/
theorem load_of_none
    (calm : session.Calm options shown types)
    (numbered : session.sources.length = file)
    (absent : Files.term? files file path types = none) :
    ∃ exit, session.load files options path = .error exit ∧
      exit.Fails (shown ++ options.listingOf files file path) := by
  subst numbered
  unfold Files.term? at absent
  unfold Options.listingOf
  split at absent
  next error read =>
      refine ⟨_, session.load_of_unreadable options read, ?_⟩
      simp only [List.append_nil, ← calm.stdout]
      exact session.abort_fails _
  next text read =>
      have failed := Option.map_eq_none_iff.mp absent
      have diagnosed := parse_diagnosed session.sources.length text types
        (show Diagnostics.hasCode [] .invalidUtf8 = false from rfl)
      refine ⟨(session.afterParsing options path text).finish options, ?_,
        finish_fails options (calm.afterParsing_stdout path text) ?_⟩
      · rw [session.load_of_readable options read, calm.parseNext, failed]
      · rw [calm.afterParsing_diagnostics]
        exact diagnosed.nonempty failed

/-- A file with a term leaves the session calm. -/
theorem load_of_some
    (calm : session.Calm options shown types)
    (numbered : session.sources.length = file)
    (present : Files.term? files file path types = some (term, later)) :
    ∃ next, session.load files options path = .ok (term, next) ∧
      next.Calm options (shown ++ options.listingOf files file path) later ∧
      next.sources.length = file + 1 ∧
      next.sources = session.sources ++ (files.source? path).toList := by
  subst numbered
  unfold Files.term? at present
  unfold Options.listingOf Files.source?
  split at present
  next => cases present
  next text read =>
      obtain ⟨_, parsed, same⟩ := Option.map_eq_some_iff.mp present
      cases same
      have diagnosed := parse_diagnosed session.sources.length text types
        (show Diagnostics.hasCode [] .invalidUtf8 = false from rfl)
      have parsedCalm : (session.afterParsing options path text).Calm options
          (shown ++ options.listing session.sources.length path text)
          (parse session.sources.length text types []).types := by
        constructor
        · rw [afterParsing, calm.parseNext]
        · rw [calm.afterParsing_diagnostics, ← diagnosed.isSome_iff, parsed]
          rfl
        · exact calm.afterParsing_stdout path text
        · exact calm.stderr
      refine ⟨session.afterLoading files options path text term, ?_,
        parsedCalm.log _ _, ?_, ?_⟩
      · rw [session.load_of_readable options read, calm.parseNext, parsed]
      · rw [afterLoading, log_sources]
        exact List.length_append
      · rw [afterLoading, log_sources]
        rfl

/-! ## Phases -/

/-- A faulty type ends the program. -/
theorem checkType_of_error
    (calm : session.Calm options shown types)
    (faulty : options.check program types = .error error) :
    ∃ exit, session.checkType options program = .error exit ∧
      exit.Fails shown := by
  have variant := calm.log "variant"
    (if program.annotated then "typed" else "untyped")
  unfold Options.check at faulty
  split at faulty
  next checks =>
      split at faulty
      next found rejected =>
          simp only [checkType, if_pos checks, variant.types, rejected]
          refine ⟨_, rfl, finish_fails options ?_ ?_⟩
          · rw [log_stdout, variant.stdout]
          · simp [Checked.diagnostics, Checked.errors, rejected]
      next => cases faulty
  next => cases faulty

/-- A program that is accepted leaves the session calm. -/
theorem checkType_of_ok
    (calm : session.Calm options shown types)
    (accepted : options.check program types = .ok (type, later)) :
    ∃ next, session.checkType options program = .ok (type, next) ∧
      next.Calm options shown later ∧ next.sources = session.sources := by
  have variant := calm.log "variant"
    (if program.annotated then "typed" else "untyped")
  unfold Options.check at accepted
  split at accepted
  next checks =>
      split at accepted
      next => cases accepted
      next found typed =>
          cases accepted
          simp only [checkType, if_pos checks, variant.types, typed]
          refine ⟨_, rfl, ?_, ?_⟩
          · apply Calm.log
            refine ⟨rfl, ?_, variant.stdout, variant.stderr⟩
            rw [variant.diagnostics, Checked.diagnostics, Checked.errors, typed]
            rfl
          · simp only [log_sources]
  next unchecked =>
      cases accepted
      simp only [checkType, if_neg unchecked]
      exact ⟨_, rfl, variant, log_sources session options _ _⟩

/-- A normal end shows the result. -/
theorem conclude_of_normal
    (calm : session.Calm options shown types)
    (type : Option TypeId)
    (normal : outcome.status = .normal) :
    session.conclude options type outcome =
      ⟨0, shown ++ resultLine options types type outcome.term,
        (session.afterReducing options outcome).stderr⟩ := by
  have silent : (session.afterReducing options outcome).diagnostics ++
      statusDiagnostics options session.types outcome = [] := by
    rw [afterReducing, log_diagnostics, warn, calm.diagnostics,
      statusDiagnostics, normal]
    rfl
  have written : (session.afterReducing options outcome).stdout = shown := by
    rw [afterReducing, log_stdout, warn, calm.stdout]
  rw [conclude_eq, if_pos normal, finish_of_silent options silent, calm.types,
    ← written]

/-- Every other end is reported. -/
theorem conclude_of_stopped
    (calm : session.Calm options shown types)
    (type : Option TypeId)
    (stopped : outcome.status ≠ .normal) :
    (session.conclude options type outcome).Fails shown := by
  rw [conclude_eq, if_neg stopped]
  apply finish_fails
  · change (session.afterReducing options outcome).stdout = shown
    rw [afterReducing, log_stdout, warn, calm.stdout]
  · intro silent
    obtain ⟨_, silent⟩ := List.append_eq_nil_iff.mp silent
    unfold statusDiagnostics at silent
    split at silent
    next normal => exact stopped normal
    next => cases silent
    next => cases silent
    next => cases silent

/-- Without the log and the trace nothing is written to standard error. -/
theorem afterReducing_stderr
    (calm : session.Calm options shown types)
    (quiet : options.verbose = false)
    (untraced : outcome.trace = []) :
    (session.afterReducing options outcome).stderr = [] := by
  rw [afterReducing, log_stderr_of_not_verbose quiet, warn, untraced,
    calm.stderr quiet]
  rfl

end Calm
end Session

/-! ## Everything before the reduction -/

/-- The first two phases: the term that the program works on. -/
def loadProgram
    (files : Files)
    (options : Options) : Except Exit (Term × Session) := do
  let (function, session) ← Session.start.load files options options.termPath
  session.applyArgument files options function

theorem prepare_eq
    (files : Files)
    (options : Options) :
    prepare files options = (do
      let (program, session) ← loadProgram files options
      let (type, session) ← session.checkType options program
      pure (program, type, session)) := by
  unfold prepare loadProgram
  cases Session.start.load files options options.termPath <;> rfl

theorem loadProgram_of_loaded
    (loaded : Session.start.load files options options.termPath =
      .ok (function, session)) :
    loadProgram files options =
      session.applyArgument files options function := by
  rw [loadProgram, loaded]
  rfl

/-- Without a term to work on the program ends. -/
theorem loadProgram_of_none
    {options : Options}
    (absent : options.program? files = none) :
    ∃ exit, loadProgram files options = .error exit ∧
      exit.Fails (options.listings files) := by
  unfold Options.program? at absent
  split at absent
  next noTerm =>
      obtain ⟨exit, ended, fails⟩ :=
        (Session.Calm.start options).load_of_none rfl noTerm
      rw [Options.listings_of_none noTerm, loadProgram, ended]
      exact ⟨exit, rfl, fails⟩
  next function types hasTerm =>
      obtain ⟨session, loaded, calm, numbered, _⟩ :=
        (Session.Calm.start options).load_of_some rfl hasTerm
      split at absent
      next => cases absent
      next given =>
          have noArgument := Option.map_eq_none_iff.mp absent
          obtain ⟨exit, ended, fails⟩ := calm.load_of_none numbered noArgument
          rw [Options.listings_of_applied hasTerm (Bool.not_eq_true _ ▸ given),
            loadProgram_of_loaded loaded, Session.applyArgument, if_neg given,
            ended]
          exact ⟨exit, rfl, fails⟩

/-- The program has loaded the term to work on. -/
theorem loadProgram_of_some
    {options : Options}
    (present : options.program? files = some (program, types)) :
    ∃ session, loadProgram files options = .ok (program, session) ∧
      session.Calm options (options.listings files) types := by
  unfold Options.program? at present
  split at present
  next => cases present
  next function between hasTerm =>
      obtain ⟨session, loaded, calm, numbered, _⟩ :=
        (Session.Calm.start options).load_of_some rfl hasTerm
      rw [loadProgram_of_loaded loaded, Session.applyArgument]
      split at present
      next alone =>
          cases present
          rw [if_pos alone, Options.listings_of_alone files alone]
          exact ⟨session, rfl, calm⟩
      next given =>
          obtain ⟨⟨argument, _⟩, hasArgument, same⟩ :=
            Option.map_eq_some_iff.mp present
          cases same
          obtain ⟨next, argumentLoaded, nextCalm, _, _⟩ :=
            calm.load_of_some numbered hasArgument
          rw [if_neg given, argumentLoaded,
            Options.listings_of_applied hasTerm (Bool.not_eq_true _ ▸ given)]
          exact ⟨_, rfl, nextCalm.log _ _⟩

/-- Why a run ends before the reduction: there is no term, or its type is
faulty. -/
def Options.Unfit
    (options : Options)
    (files : Files) : Prop :=
  options.program? files = none ∨
    ∃ program types error, options.program? files = some (program, types) ∧
      options.check program types = .error error

theorem prepare_of_unfit
    {options : Options}
    (unfit : options.Unfit files) :
    ∃ exit, prepare files options = .error exit ∧
      exit.Fails (options.listings files) := by
  rw [prepare_eq]
  rcases unfit with absent | ⟨program, types, error, present, faulty⟩
  · obtain ⟨exit, ended, fails⟩ := loadProgram_of_none absent
    rw [ended]
    exact ⟨exit, rfl, fails⟩
  · obtain ⟨session, loaded, calm⟩ := loadProgram_of_some present
    obtain ⟨exit, ended, fails⟩ := calm.checkType_of_error faulty
    rw [loaded]
    refine ⟨exit, ?_, fails⟩
    change (session.checkType options program >>= _) = _
    rw [ended]
    rfl

theorem prepare_of_accepted
    {options : Options}
    (present : options.program? files = some (program, types))
    (accepted : options.check program types = .ok (type, later)) :
    ∃ session, prepare files options = .ok (program, type, session) ∧
      session.Calm options (options.listings files) later := by
  obtain ⟨loaded, isLoaded, loadedCalm⟩ := loadProgram_of_some present
  obtain ⟨session, checked, calm, _⟩ := loadedCalm.checkType_of_ok accepted
  refine ⟨session, ?_, calm⟩
  rw [prepare_eq, isLoaded]
  change (loaded.checkType options program >>= _) = _
  rw [checked]
  rfl

end LambdaCalculus
