import LambdaCalculus.Source.Lines

/-!
# Excerpts

An excerpt shows the line on which a span starts, some lines around it, and
which columns of that line to underline.
-/

namespace LambdaCalculus

/-- Consecutive lines of a source with an underlined part. -/
structure Excerpt where
  /-- The number of the first line, counted from one. -/
  firstLine : Nat
  /-- The lines without their line feeds. -/
  lines : List Text
  /-- How many lines stand before the underlined one. -/
  caretOffset : Nat
  /-- How many columns stand before the underlined part. -/
  caretColumn : Nat
  /-- How many columns are underlined. -/
  caretWidth : Nat
deriving DecidableEq

/-- Line numbers are 32-bit words: adding a context to one wraps around. -/
def lineNumberModulus : Nat := 0x100000000

/-- The excerpt for a span with `context` lines before and after.  A span
that reaches over the end of its first line is cut there, and an empty one is
shown as a single column. -/
def Source.excerpt
    (source : Source)
    (span : Span)
    (context : Nat) : Excerpt :=
  let size := source.text.length
  let lo := min span.lo size
  let hi := max lo (min span.hi size)
  let caretLine := source.lineAt lo
  let lastLine := source.lineStarts.length - 1
  let first := caretLine - context
  let last := min ((caretLine + context) % lineNumberModulus) lastLine
  let caretText := source.lineText caretLine
  let caretStart := source.lineStart caretLine
  let before := lo - caretStart
  let stop := min (hi - caretStart) caretText.length
  { firstLine := first + 1
    lines := (List.range' first (last + 1 - first)).map source.lineText
    caretOffset := caretLine - first
    caretColumn := columns (caretText.take before)
    caretWidth := max (columns (caretText.slice before stop)) 1 }

/-- The sources of a session; a source's number is its place in the list. -/
abbrev Sources := List Source

/-- Registers a source and gives its number. -/
def Sources.add
    (sources : Sources)
    (source : Source) : Nat × Sources :=
  (sources.length, sources ++ [source])

end LambdaCalculus
