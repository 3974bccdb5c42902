import LambdaCalculus.Diagnostic.Message
import LambdaCalculus.Source.Excerpt

/-!
# Reports

A report shows a diagnostic for a reader: its message and, when the place is
in a registered source, the location and an excerpt with line numbers.
-/

namespace LambdaCalculus

namespace Excerpt

/-- The number of the last line shown. -/
def lastLine (excerpt : Excerpt) : Nat :=
  excerpt.firstLine + excerpt.lines.length - 1

/-- The width of the line number column. -/
def gutterWidth (excerpt : Excerpt) : Nat :=
  (Text.decimal excerpt.lastLine).length

/-- The line number column of a line without a number. -/
def blankGutter (excerpt : Excerpt) : Text :=
  "  " ++ Text.fill excerpt.gutterWidth 32 ++ " |"

/-- A source line behind its right-aligned number. -/
def numberedLine
    (excerpt : Excerpt)
    (offset : Nat)
    (line : Text) : Text :=
  let number := Text.decimal (excerpt.firstLine + offset)
  "  " ++ Text.fill (excerpt.gutterWidth - number.length) 32 ++ number ++
    " | " ++ line ++ "\n"

/-- The line that underlines the span. -/
def caretLine (excerpt : Excerpt) : Text :=
  excerpt.blankGutter ++ " " ++ Text.fill excerpt.caretColumn 32 ++
    Text.fill excerpt.caretWidth 94 ++ "\n"

/-- All lines of the excerpt with the underline in its place. -/
def render (excerpt : Excerpt) : Text :=
  excerpt.lines.zipIdx.flatMap fun (line, offset) =>
    excerpt.numberedLine offset line ++
      if offset = excerpt.caretOffset then excerpt.caretLine else []

end Excerpt

namespace Diagnostic

/-- The line with the code and the message. -/
def headline (diagnostic : Diagnostic) : Text :=
  diagnostic.severity.name ++ "[" ++ diagnostic.code.name ++ "]: " ++
    diagnostic.message ++ "\n"

/-- The lines that point into a source. -/
def pointer
    (diagnostic : Diagnostic)
    (source : Source)
    (context : Nat) : Text :=
  let location := source.location diagnostic.span.lo
  let excerpt := source.excerpt diagnostic.span context
  " --> " ++ source.name ++ ":" ++ Text.decimal location.line ++ ":" ++
    Text.decimal location.column ++ "\n" ++
    excerpt.blankGutter ++ "\n" ++ excerpt.render

/-- A diagnostic with `context` source lines around its place.  Without a
registered source there is only the headline. -/
def report
    (diagnostic : Diagnostic)
    (sources : Sources)
    (context : Nat) : Text :=
  match sources[diagnostic.span.file]? with
  | none => diagnostic.headline
  | some source => diagnostic.headline ++ diagnostic.pointer source context

end Diagnostic
end LambdaCalculus
