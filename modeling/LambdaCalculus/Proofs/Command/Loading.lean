import LambdaCalculus.Proofs.Command.ClosedPrograms
import LambdaCalculus.Proofs.Parser.Diagnosis

/-!
# Loading a file

A file that can be read is parsed as the next source of the session.  What the
parser says about it stands behind what was said before, and the session goes on
exactly if there is a term.
-/

namespace LambdaCalculus

/-- The tokens of a file as the options ask to see them. -/
def Options.listing
    (options : Options)
    (file : Nat)
    (path text : Text) : Text :=
  if options.dumpTokens then
    "TOKENS (" ++ path ++ "):\n" ++ (lex file text).stream.dump
  else
    []

namespace Session

@[simp] theorem log_types
    (session : Session)
    (options : Options)
    (phase message : Text) :
    (session.log options phase message).types = session.types := by
  unfold log
  split <;> rfl

@[simp] theorem log_sources
    (session : Session)
    (options : Options)
    (phase message : Text) :
    (session.log options phase message).sources = session.sources := by
  unfold log
  split <;> rfl

@[simp] theorem log_stdout
    (session : Session)
    (options : Options)
    (phase message : Text) :
    (session.log options phase message).stdout = session.stdout := by
  unfold log
  split <;> rfl

/-- What comes of a text as the next source of a session. -/
def parseNext
    (session : Session)
    (text : Text) : ParseResult :=
  parse session.sources.length text session.types session.diagnostics

/-- A session after its next source has been parsed. -/
def afterParsing
    (session : Session)
    (options : Options)
    (path text : Text) : Session where
  sources := session.sources ++ [⟨path, text⟩]
  types := (session.parseNext text).types
  diagnostics := session.diagnostics ++ (session.parseNext text).diagnostics
  stdout := session.stdout ++ options.listing session.sources.length path text
  stderr := session.stderr

/-- A session after its next source has been parsed as a term. -/
def afterLoading
    (session : Session)
    (files : Files)
    (options : Options)
    (path text : Text)
    (term : Term) : Session :=
  (session.afterParsing options path text).log options "parse"
    (files.canonical path ++ " (" ++ Text.decimal term.nodeCount ++
      " nodes, depth " ++ Text.decimal term.depth ++ ")")

theorem load_of_unreadable
    (session : Session)
    (options : Options)
    (unreadable : Files.textOf files path = .error error) :
    session.load files options path =
      .error (session.abort (error.message path)) := by
  rw [load, unreadable]

/-- A file that can be read is loaded exactly if it is parsed.  Showing the tokens
adds to the output and changes nothing else in the session. -/
theorem load_of_readable
    (session : Session)
    (options : Options)
    (readable : Files.textOf files path = .ok text) :
    session.load files options path =
      match (session.parseNext text).term with
      | none => .error ((session.afterParsing options path text).finish options)
      | some term =>
          .ok (term, session.afterLoading files options path text term) := by
  have shown : (if options.dumpTokens then
        session.write ("TOKENS (" ++ path ++ "):\n" ++
          (lex session.sources.length text).stream.dump)
      else session) =
      { session with
        stdout :=
          session.stdout ++ options.listing session.sources.length path text } := by
    unfold Options.listing
    split
    next => rfl
    next => rw [List.append_nil]
  simp only [load, readable, Sources.add, shown]
  rfl

end Session

/-- A source is parsed exactly if nothing is said about it.  Otherwise the source
is not valid, which is said in one fatal diagnostic, or there is one diagnostic
for each error token in order and at most one of the parser behind them.  All of
this is about places in the source, and in a session it stands behind everything
that was said before. -/
theorem parse_fails_iff_diagnosed
    (file : Nat)
    (source : Text)
    (types : TypePool)
    (known : Diagnostics)
    (trusted : Diagnostics.hasCode known .invalidUtf8 = false) :
    let parsed := parse file source types known
    (parsed.term.isSome = true ↔ parsed.diagnostics = []) ∧
    (parsed.term = none ->
      parsed.diagnostics ≠ [] ∧ parsed.diagnostics.Blame file source) ∧
    (∀ diagnostic ∈ parsed.diagnostics,
      diagnostic.span.LiesIn file source) ∧
    (∀ (session : Session) files options path,
      session.sources.length = file -> session.types = types ->
      session.diagnostics = known -> Files.textOf files path = .ok source ->
        ∃ later : Session,
          later.diagnostics = known ++ parsed.diagnostics ∧
          session.load files options path =
            match parsed.term with
            | none => .error (later.finish options)
            | some term => .ok (term, later)) := by
  intro parsed
  have diagnosed : parsed.Diagnosed file source :=
    parse_diagnosed file source types trusted
  refine ⟨diagnosed.isSome_iff,
    fun failed => ⟨diagnosed.nonempty failed, diagnosed.blame failed⟩,
    diagnosed.located, ?_⟩
  rintro session files options path rfl rfl rfl readable
  have same : session.parseNext source = parsed := rfl
  rw [session.load_of_readable options readable, same]
  cases parsed.term with
  | none => exact ⟨session.afterParsing options path source, rfl, rfl⟩
  | some term =>
      exact ⟨session.afterLoading files options path source term,
        Session.log_diagnostics _ _ _ _, rfl⟩

/-- The source `(λx.(? x` is the second one of a session that has seen a fault
already.  It has no term: the question mark and the missing parenthesis are
reported behind the fault. -/
theorem parse_fails_iff_diagnosed_unclosed :
    let source : Text := "(λx.(? x"
    let known : Diagnostics :=
      [⟨.error, .trailingInput, ⟨0, 1, 2⟩, ["x"]⟩]
    let session : Session := ⟨[⟨"f", "xx"⟩], .empty, known, [], []⟩
    let files : Files := ⟨fun _ => .ok source, id⟩
    let parsed := parse 1 source .empty known
    Diagnostics.hasCode known .invalidUtf8 = false ∧
    parsed.term = none ∧ parsed.diagnostics ≠ [] ∧
    parsed.diagnostics.Blame 1 source ∧
    (∀ diagnostic ∈ parsed.diagnostics, diagnostic.span.LiesIn 1 source) ∧
    ∃ later : Session,
      later.diagnostics = known ++ parsed.diagnostics ∧
      session.load files .initial "g" = .error (later.finish .initial) := by
  intro source known session files parsed
  have trusted : Diagnostics.hasCode known .invalidUtf8 = false := by decide
  have failed : parsed.term = none := by decide +kernel
  have readable : files.textOf "g" = .ok source := by decide +kernel
  obtain ⟨_, blamed, located, kept⟩ :=
    parse_fails_iff_diagnosed 1 source .empty known trusted
  obtain ⟨later, appended, loaded⟩ :=
    kept session files .initial "g" rfl rfl rfl readable
  refine ⟨trusted, failed, (blamed failed).1, (blamed failed).2, located, later,
    appended, ?_⟩
  rw [loaded]
  change (match parsed.term with
    | none => Except.error (later.finish .initial)
    | some term => .ok (term, later)) = _
  rw [failed]

end LambdaCalculus
