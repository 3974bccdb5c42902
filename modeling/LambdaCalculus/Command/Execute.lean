import LambdaCalculus.Command.Files
import LambdaCalculus.Command.Options
import LambdaCalculus.Diagnostic.Report
import LambdaCalculus.Parser.Program
import LambdaCalculus.Reduction.Run
import LambdaCalculus.Typing.Check

/-!
# Executing the program

The program reads a term, applies it to another one if asked, checks its type
if it declares any, reduces it and prints the result.  It stops at the first
phase that fails and then prints the diagnostics.
-/

namespace LambdaCalculus

/-- How the program ends. -/
structure Exit where
  /-- The exit code. -/
  code : Nat
  /-- What was written to standard output. -/
  stdout : Text
  /-- What was written to standard error. -/
  stderr : Text
deriving DecidableEq

/-- What the program has built up and written. -/
structure Session where
  /-- The files read. -/
  sources : Sources
  /-- The types numbered. -/
  types : TypePool
  /-- The diagnostics so far. -/
  diagnostics : Diagnostics
  /-- What was written to standard output. -/
  stdout : Text
  /-- What was written to standard error. -/
  stderr : Text

namespace Session

/-- The session before anything is read. -/
def start : Session := ⟨[], .empty, [], [], []⟩

/-- Writes to standard output. -/
def write
    (session : Session)
    (text : Text) : Session :=
  { session with stdout := session.stdout ++ text }

/-- Writes to standard error. -/
def warn
    (session : Session)
    (text : Text) : Session :=
  { session with stderr := session.stderr ++ text }

/-- Tells about a phase if the options ask for it. -/
def log
    (session : Session)
    (options : Options)
    (phase message : Text) : Session :=
  if options.verbose then
    session.warn ("[lcalc] " ++ phase ++ ": " ++ message ++ "\n")
  else
    session

/-- Ends with a message on standard error. -/
def abort
    (session : Session)
    (message : Text) : Exit :=
  ⟨1, session.stdout, session.stderr ++ "error: " ++ message ++ "\n"⟩

/-- The reports of all diagnostics. -/
def reports
    (session : Session)
    (options : Options) : Text :=
  session.diagnostics.flatMap fun diagnostic =>
    diagnostic.report session.sources options.contextLines ++ "\n"

/-- Ends with the reports of all diagnostics; without any the end is good. -/
def finish
    (session : Session)
    (options : Options) : Exit :=
  ⟨if session.diagnostics.isEmpty then 0 else 1, session.stdout,
    session.stderr ++ session.reports options⟩

/-- Reads the term in a file. -/
def load
    (session : Session)
    (files : Files)
    (options : Options)
    (path : Text) : Except Exit (Term × Session) :=
  match files.textOf path with
  | .error error => .error (session.abort (error.message path))
  | .ok text =>
      let (file, sources) := session.sources.add ⟨path, text⟩
      let lexed := lex file text
      let session :=
        if options.dumpTokens then
          session.write
            ("TOKENS (" ++ path ++ "):\n" ++ lexed.stream.dump)
        else
          session
      let parsed := lexed.parse session.types session.diagnostics
      let session :=
        { session with
          sources := sources
          types := parsed.types
          diagnostics := session.diagnostics ++ parsed.diagnostics }
      match parsed.term with
      | none => .error (session.finish options)
      | some term =>
          .ok (term, session.log options "parse"
            (files.canonical path ++ " (" ++ Text.decimal term.nodeCount ++
              " nodes, depth " ++ Text.decimal term.depth ++ ")"))

/-- Applies the program to the term in the argument file, if there is one. -/
def applyArgument
    (session : Session)
    (files : Files)
    (options : Options)
    (program : Term) : Except Exit (Term × Session) :=
  if options.argumentPath.isEmpty then
    .ok (program, session)
  else
    match session.load files options options.argumentPath with
    | .error exit => .error exit
    | .ok (argument, session) =>
        .ok (.app program.span program argument,
          session.log options "apply"
            ("argument from " ++ options.argumentPath))

/-- Checks the type of a program that declares types, unless the options say
otherwise. -/
def checkType
    (session : Session)
    (options : Options)
    (program : Term) : Except Exit (Option TypeId × Session) :=
  let session := session.log options "variant"
    (if program.annotated then "typed" else "untyped")
  if program.annotated && options.typeCheck then
    let checked := program.check session.types
    let session :=
      { session with
        types := checked.types
        diagnostics := session.diagnostics ++ checked.diagnostics }
    match checked.result with
    | .error error =>
        .error ((session.log options "type"
          (error.message session.types)).finish options)
    | .ok type =>
        .ok (some type,
          session.log options "type" (session.types.text type))
  else
    .ok (none, session)

/-- The diagnostic of a run that did not end well. -/
def statusDiagnostics
    (options : Options)
    (types : TypePool)
    (outcome : Outcome) : Diagnostics :=
  match outcome.status with
  | .normal => []
  | .stepLimit =>
      [⟨.error, .reduceStepBudget, .nowhere, [Text.decimal options.maxSteps]⟩]
  | .sizeLimit =>
      [⟨.error, .reduceSizeBudget, .nowhere, [Text.decimal options.maxNodes]⟩]
  | .stuck =>
      [⟨.error, .reduceStuck, .nowhere,
        [outcome.term.head.render types .indexed 0]⟩]

/-- The line that shows a contraction. -/
def traceLine
    (options : Options)
    (types : TypePool)
    (observation : Observation) : Text :=
  "[step " ++ Text.decimal observation.step ++ "] " ++
    observation.focus.render types options.style 0 ++ "\n"

/-- The line that shows the result: the term, and its type if it was
checked. -/
def resultLine
    (options : Options)
    (types : TypePool)
    (type : Option TypeId)
    (term : Term) : Text :=
  let shown := term.render types options.style 0
  match type with
  | some type =>
      "(" ++ shown ++ "):" ++ types.render options.style type ++ "\n"
  | none => shown ++ "\n"

/-- What is written about a run, and the end of the program. -/
def conclude
    (session : Session)
    (options : Options)
    (type : Option TypeId)
    (outcome : Outcome) : Exit :=
  let session := session.warn
    (outcome.trace.flatMap (traceLine options session.types))
  let session := session.log options "reduce"
    ("strategy=" ++ options.strategy.name ++ " status=" ++
      outcome.status.name ++ " steps=" ++ Text.decimal outcome.steps)
  let faults := statusDiagnostics options session.types outcome
  let session :=
    { session with diagnostics := session.diagnostics ++ faults }
  if outcome.status = .normal then
    (session.write
      (resultLine options session.types type outcome.term)).finish options
  else
    session.finish options

end Session

/-- The plan that the options ask for. -/
def Options.plan (options : Options) : Plan where
  strategy := options.strategy
  budget := ⟨options.maxSteps, options.maxNodes⟩
  traced := options.trace

/-- Everything before the reduction: the program with its type, or an early
end. -/
def prepare
    (files : Files)
    (options : Options) :
    Except Exit (Term × Option TypeId × Session) := do
  let (program, session) ← Session.start.load files options options.termPath
  let (program, session) ← session.applyArgument files options program
  let (type, session) ← session.checkType options program
  pure (program, type, session)

/-- Runs the program on the files that the options name; `none` when the fuel
of the reduction does not suffice. -/
def runProgram
    (fuel : Nat)
    (files : Files)
    (options : Options) : Option Exit :=
  match prepare files options with
  | .error exit => some exit
  | .ok (program, type, session) =>
      (options.plan.run fuel program).map (session.conclude options type)

/-- Executes the command line. -/
def execute
    (fuel : Nat)
    (files : Files)
    (arguments : List Text) : Option Exit :=
  if arguments.isEmpty then
    some ⟨1, [], version ++ "\n" ++ usage⟩
  else
    match Options.parse arguments with
    | ⟨_, some error⟩ =>
        some ⟨1, [], "error: " ++ error.message ++ "\n" ++ usage⟩
    | ⟨options, none⟩ =>
        match options.mode with
        | .version => some ⟨0, version ++ "\n", []⟩
        | .usage => some ⟨0, usage, []⟩
        | .run => runProgram fuel files options

end LambdaCalculus
