import LambdaCalculus.Source.Span
import LambdaCalculus.Text.Utf8

/-!
# Lines and columns

A source is cut into lines at its line feeds.  Lines are found through the
table of their first offsets.  Columns count code points, so a continuation
byte takes no column of its own.
-/

namespace LambdaCalculus

/-- A named text. -/
structure Source where
  /-- The name shown in front of a location. -/
  name : Text
  /-- The content. -/
  text : Text
deriving DecidableEq, Inhabited

/-- A line and a column, both counted from one. -/
structure Location where
  /-- The line number. -/
  line : Nat
  /-- The column number. -/
  column : Nat
deriving DecidableEq

/-- The byte that ends a line. -/
def lineFeed : UInt8 := 10

/-- The number of columns that a text takes. -/
def columns (text : Text) : Nat :=
  text.countP (fun byte => !Text.isContinuation byte)

@[simp] theorem columns_nil : columns [] = 0 :=
  rfl

@[simp] theorem columns_append
    (left right : Text) :
    columns (left ++ right) = columns left + columns right :=
  List.countP_append

/-- The offsets just after each line feed, where `offset` is the place of the
first byte. -/
def offsetsAfterLineFeeds (offset : Nat) : Text -> List Nat
  | [] => []
  | byte :: rest =>
      if byte = lineFeed then
        (offset + 1) :: offsetsAfterLineFeeds (offset + 1) rest
      else
        offsetsAfterLineFeeds (offset + 1) rest

namespace Source

/-- The first offset of every line, in order. -/
def lineStarts (source : Source) : List Nat :=
  0 :: offsetsAfterLineFeeds 0 source.text

/-- The position in the line table of the line that holds an offset. -/
def lineAt
    (source : Source)
    (offset : Nat) : Nat :=
  source.lineStarts.countP (· ≤ offset) - 1

/-- The first offset of a line of the table. -/
def lineStart
    (source : Source)
    (line : Nat) : Nat :=
  source.lineStarts.getD line source.text.length

/-- The text of a line without its line feed. -/
def lineText
    (source : Source)
    (line : Nat) : Text :=
  match source.lineStarts[line + 1]? with
  | some next => source.text.slice (source.lineStart line) (next - 1)
  | none => source.text.slice (source.lineStart line) source.text.length

/-- The line and column of an offset; an offset behind the text counts as its
end. -/
def location
    (source : Source)
    (offset : Nat) : Location :=
  let clamped := min offset source.text.length
  let line := source.lineAt clamped
  { line := line + 1
    column := columns (source.text.slice (source.lineStart line) clamped) + 1 }

end Source
end LambdaCalculus
