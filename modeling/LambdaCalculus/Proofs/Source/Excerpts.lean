import LambdaCalculus.Diagnostic.Report
import LambdaCalculus.Proofs.Source.Locations
import LambdaCalculus.Proofs.Text.Numeral

/-!
# Excerpts

An excerpt shows consecutive lines of its source and underlines the place that the
location of its span names.  It can be computed in 32-bit words: no difference
falls below zero, no sum wraps around, and nothing is read outside of the text or
of the table of lines.  A report therefore shows every line of the excerpt behind
a column of line numbers of one width, and one underline.
-/

namespace LambdaCalculus

/-! ## Computing in words -/

/-- The sum of two words, unless it wraps around. -/
def addInWords?
    (left right : Nat) : Option Nat :=
  if left + right < lineNumberModulus then some (left + right) else none

/-- The difference of two words, unless it wraps around. -/
def subtractInWords?
    (left right : Nat) : Option Nat :=
  if right ≤ left then some (left - right) else none

/-- The `count` bytes of a text from `start` on, unless the text ends before. -/
def Text.part?
    (text : Text)
    (start count : Nat) : Option Text :=
  if start + count ≤ text.length then some ((text.drop start).take count)
  else none

namespace Source

/-- The line of an offset.  Some line must start at or before the offset. -/
def lineAtInWords?
    (source : Source)
    (offset : Nat) : Option Nat :=
  subtractInWords? (source.lineStarts.countP (· ≤ offset)) 1

/-- The end of the line before the given one: its line feed, or the end of the
text behind the last line. -/
def lineStopInWords?
    (source : Source)
    (next : Nat) : Option Nat :=
  match source.lineStarts[next]? with
  | some nextStart => subtractInWords? nextStart 1
  | none => some source.text.length

/-- The text of a line, which must be in the table and lie within the text. -/
def lineTextInWords?
    (source : Source)
    (line : Nat) : Option Text := do
  let start ← source.lineStarts[line]?
  let next ← addInWords? line 1
  let stop ← source.lineStopInWords? next
  let length ← subtractInWords? stop start
  source.text.part? start length

/-- The first of the lines around a line, or the first of all. -/
def contextStartInWords?
    (line context : Nat) : Option Nat :=
  if line > context then subtractInWords? line context else some 0

/-- The lines from the first to the last one given. -/
def linesInWords?
    (source : Source)
    (first last : Nat) : Option (List Text) := do
  let behind ← addInWords? last 1
  let height ← subtractInWords? behind first
  (List.range' first height).mapM source.lineTextInWords?

/-- How many columns of a line stand before the part between two offsets, and how
many to underline. -/
def caretInWords?
    (source : Source)
    (line lo hi : Nat) : Option (Nat × Nat) := do
  let text ← source.lineTextInWords? line
  let start ← source.lineStarts[line]?
  let before ← subtractInWords? lo start
  let reach ← subtractInWords? hi start
  let width ← subtractInWords? (min reach text.length) before
  let left ← text.part? 0 before
  let marked ← text.part? before width
  some (columns left, max (columns marked) 1)

/-- The excerpt for a span, computed in words. -/
def excerptInWords?
    (source : Source)
    (span : Span)
    (context : Nat) : Option Excerpt := do
  let size := source.text.length
  let lo := min span.lo size
  let hi := max lo (min span.hi size)
  let caretLine ← source.lineAtInWords? lo
  let lastLine ← subtractInWords? source.lineStarts.length 1
  let first ← contextStartInWords? caretLine context
  let bottom ← addInWords? caretLine context
  let firstLine ← addInWords? first 1
  let lines ← source.linesInWords? first (min bottom lastLine)
  let caretOffset ← subtractInWords? caretLine first
  let (caretColumn, caretWidth) ← source.caretInWords? caretLine lo hi
  some ⟨firstLine, lines, caretOffset, caretColumn, caretWidth⟩

/-! ## Lines -/

/-- A line of the table is the part of the text between two line feeds. -/
theorem getElem?_splitOn_lineText
    (source : Source)
    (bound : line ≤ source.text.count lineFeed) :
    (source.text.splitOn lineFeed)[line]? = some (source.lineText line) := by
  obtain ⟨before, content, behind, isText, rfl, cuts⟩ :=
    source.text.exists_cutsLine_numbered line bound
  rw [cuts.lineText_eq isText, isText, cuts.getElem?_splitOn]

/-- Consecutive lines of the table are consecutive lines of the text. -/
theorem map_lineText_range'
    (source : Source)
    (first height : Nat)
    (bound : first + height ≤ source.text.count lineFeed + 1) :
    (List.range' first height).map source.lineText =
      ((source.text.splitOn lineFeed).drop first).take height := by
  apply List.ext_getElem?
  intro position
  rw [List.getElem?_map, List.getElem?_take]
  by_cases inside : position < height
  · rw [if_pos inside, List.getElem?_range' inside, List.getElem?_drop,
      Nat.one_mul, getElem?_splitOn_lineText source (by omega)]
    rfl
  · rw [if_neg inside, List.getElem?_eq_none (by simpa using inside)]
    rfl

theorem lineTextInWords?_eq
    (source : Source)
    (short : source.text.length < lineNumberModulus - 1)
    (bound : line ≤ source.text.count lineFeed) :
    source.lineTextInWords? line = some (source.lineText line) := by
  obtain ⟨before, content, behind, isText, rfl, cuts⟩ :=
    source.text.exists_cutsLine_numbered line bound
  have lineFeeds : source.text.count lineFeed ≤ source.text.length :=
    List.count_le_length
  have next : addInWords? (before.count lineFeed) 1 =
      some (before.count lineFeed + 1) := if_pos (by omega)
  have length : source.text.length =
      before.length + (content.length + behind.length) := by
    rw [isText, List.length_append, List.length_append]
  have stop : source.lineStopInWords? (before.count lineFeed + 1) =
      some (before.length + content.length) := by
    rw [lineStopInWords?, cuts.nextStart_eq isText]
    rcases cuts.ends with rfl | ⟨later, rfl⟩
    · rw [if_pos rfl, length]
      rfl
    · rw [if_neg (List.cons_ne_nil _ _)]
      rfl
  have width : subtractInWords? (before.length + content.length)
      before.length = some content.length := by
    rw [subtractInWords?, if_pos (Nat.le_add_right _ _), Nat.add_sub_cancel_left]
  have part : source.text.part? before.length content.length = some content := by
    rw [Text.part?, if_pos (by omega), isText, List.drop_left, List.take_left]
  rw [lineTextInWords?, cuts.lineStart_eq isText, cuts.lineText_eq isText]
  simp only [Option.bind_eq_bind, Option.bind_some, next, stop, width, part]

/-! ## The excerpt of a place -/

theorem mapM_eq_some_map
    {α β : Type}
    {run : α -> Option β}
    {value : α -> β}
    (list : List α)
    (gives : ∀ member ∈ list, run member = some (value member)) :
    list.mapM run = some (list.map value) := by
  induction list with
  | nil => rfl
  | cons first rest inductionHypothesis =>
      rw [List.forall_mem_cons] at gives
      rw [List.mapM_cons, gives.1, inductionHypothesis gives.2]
      rfl

namespace Place

variable {source : Source} {offset : Nat}

theorem number_le
    (place : source.Place offset) :
    place.number ≤ source.text.count lineFeed := by
  rw [place.text_eq, List.count_append]
  exact Nat.le_add_right _ _

theorem lineText_number
    (place : source.Place offset) :
    source.lineText place.number = place.left ++ place.right :=
  place.cuts.lineText_eq place.text_eq

theorem sub_start
    (place : source.Place offset) :
    offset - place.before.length = place.left.length := by
  have cut := place.offset_eq
  omega

/-- The first line that is shown around a place. -/
def firstLine
    (place : source.Place offset)
    (context : Nat) : Nat :=
  place.number - context

theorem firstLine_le_number
    (place : source.Place offset)
    (context : Nat) :
    place.firstLine context ≤ place.number :=
  Nat.sub_le _ _

/-- The last line that is shown around a place. -/
def lastLine
    (place : source.Place offset)
    (context : Nat) : Nat :=
  min (place.number + context) (source.text.count lineFeed)

/-- The part of the line that is underlined when `stop` is the end of the span. -/
def underlined
    (place : source.Place offset)
    (stop : Nat) : Text :=
  place.right.take (stop - offset)

/-- The lines around a place, with the part of its line up to `stop` underlined. -/
def excerpt
    (place : source.Place offset)
    (stop context : Nat) : Excerpt where
  firstLine := place.firstLine context + 1
  lines := ((source.text.splitOn lineFeed).drop (place.firstLine context)).take
    (place.lastLine context + 1 - place.firstLine context)
  caretOffset := place.number - place.firstLine context
  caretColumn := columns place.left
  caretWidth := max (columns (place.underlined stop)) 1

/-- Where the span is cut off does not matter behind the end of the line. -/
theorem take_right_eq
    (place : source.Place offset)
    (stop : Nat) :
    place.right.take
        (min (max offset (min stop source.text.length) - place.before.length)
          (place.left ++ place.right).length - place.left.length) =
      place.underlined stop := by
  have start := place.offset_eq
  have length : source.text.length = place.before.length +
      (place.left.length + place.right.length + place.behind.length) := by
    rw [place.text_eq]
    simp only [List.length_append]
  rw [underlined, List.take_eq_take_iff, List.length_append]
  omega

end Place

variable {source : Source} {span : Span} {context : Nat}

/-- The excerpt for a span is the one of the place at which the span starts. -/
theorem excerpt_eq
    (place : source.Place (min span.lo source.text.length))
    (fits : place.number + context < lineNumberModulus) :
    source.excerpt span context = place.excerpt span.hi context := by
  have bottom : (place.number + context) % lineNumberModulus =
      place.number + context := Nat.mod_eq_of_lt fits
  have numberLe := place.number_le
  have lines := source.map_lineText_range' (place.firstLine context)
    (place.lastLine context + 1 - place.firstLine context)
    (by simp only [Place.firstLine, Place.lastLine]; omega)
  rw [excerpt]
  simp only [place.lineAt_eq, place.lineStart_number, place.lineText_number,
    length_lineStarts, Nat.add_sub_cancel, bottom, place.sub_start,
    List.take_left]
  rw [Text.slice, List.drop_left, place.take_right_eq]
  exact congrArg (fun lines => Excerpt.mk _ lines _ _ _) lines

/-! ## No step in words fails -/

theorem subtractInWords?_of_le
    (atMost : right ≤ left) :
    subtractInWords? left right = some (left - right) :=
  if_pos atMost

theorem addInWords?_of_lt
    (fits : left + right < lineNumberModulus) :
    addInWords? left right = some (left + right) :=
  if_pos fits

theorem contextStartInWords?_eq
    (line context : Nat) :
    contextStartInWords? line context = some (line - context) := by
  unfold contextStartInWords?
  split
  next behind => exact subtractInWords?_of_le (Nat.le_of_lt behind)
  next before => rw [Nat.sub_eq_zero_of_le (Nat.not_lt.mp before)]

theorem lineAtInWords?_eq
    (source : Source)
    (offset : Nat) :
    source.lineAtInWords? offset = some (source.lineAt offset) := by
  have first : 0 < source.lineStarts.countP (· ≤ offset) :=
    List.countP_pos_iff.mpr
      ⟨0, List.mem_cons_self, decide_eq_true (Nat.zero_le offset)⟩
  exact subtractInWords?_of_le first

theorem linesInWords?_eq
    (source : Source)
    (short : source.text.length < lineNumberModulus - 1)
    (ordered : first ≤ last)
    (bound : last ≤ source.text.count lineFeed) :
    source.linesInWords? first last =
      some (((source.text.splitOn lineFeed).drop first).take
        (last + 1 - first)) := by
  have lineFeeds : source.text.count lineFeed ≤ source.text.length :=
    List.count_le_length
  have behind : addInWords? last 1 = some (last + 1) :=
    addInWords?_of_lt (by omega)
  have height : subtractInWords? (last + 1) first = some (last + 1 - first) :=
    subtractInWords?_of_le (by omega)
  have lines : ∀ line ∈ List.range' first (last + 1 - first),
      source.lineTextInWords? line = some (source.lineText line) := by
    intro line member
    rw [List.mem_range'_1] at member
    exact source.lineTextInWords?_eq short (by omega)
  rw [← source.map_lineText_range' first _ (by omega),
    ← mapM_eq_some_map _ lines, linesInWords?]
  simp only [Option.bind_eq_bind, Option.bind_some, behind, height]

/-- The column and the width of the caret, computed with words.  The span ends at or
behind the offset, so what it covers of the line is not shorter than the part before
the offset. -/
theorem Place.caretInWords?_eq
    (place : source.Place offset)
    (short : source.text.length < lineNumberModulus - 1)
    (stop : Nat) :
    source.caretInWords? place.number offset
        (max offset (min stop source.text.length)) =
      some (columns place.left, max (columns (place.underlined stop)) 1) := by
  have cut := place.offset_eq
  have marks := place.take_right_eq stop
  generalize reaches : max offset (min stop source.text.length) -
    place.before.length = reach at marks
  have atLeast : place.left.length ≤ reach := by omega
  have length : (place.left ++ place.right).length =
      place.left.length + place.right.length := List.length_append
  have text : source.lineTextInWords? place.number =
      some (place.left ++ place.right) := by
    rw [source.lineTextInWords?_eq short place.number_le, place.lineText_number]
  have before : subtractInWords? offset place.before.length =
      some place.left.length := by
    rw [subtractInWords?_of_le (by omega), place.sub_start]
  have reached : subtractInWords? (max offset (min stop source.text.length))
      place.before.length = some reach := by
    rw [subtractInWords?_of_le (by omega), reaches]
  have width := subtractInWords?_of_le (show place.left.length ≤
    min reach (place.left ++ place.right).length by omega)
  have left : (place.left ++ place.right).part? 0 place.left.length =
      some place.left := by
    rw [Text.part?, if_pos (by omega), List.drop_zero, List.take_left]
  have marked : (place.left ++ place.right).part? place.left.length
      (min reach (place.left ++ place.right).length - place.left.length) =
      some (place.underlined stop) := by
    rw [Text.part?, if_pos (by omega), List.drop_left, marks]
  rw [caretInWords?]
  simp only [Option.bind_eq_bind, Option.bind_some, text, place.lineStarts_number,
    before, reached, width, left, marked]

/-- No step of the computation in words fails. -/
theorem excerptInWords?_eq
    (place : source.Place (min span.lo source.text.length))
    (short : source.text.length < lineNumberModulus - 1)
    (fits : place.number + context < lineNumberModulus) :
    source.excerptInWords? span context =
      some (place.excerpt span.hi context) := by
  have numberLe := place.number_le
  have lineFeeds : source.text.count lineFeed ≤ source.text.length :=
    List.count_le_length
  have lastLine : subtractInWords? source.lineStarts.length 1 =
      some (source.text.count lineFeed) := by
    rw [length_lineStarts]
    rfl
  have first : contextStartInWords? place.number context =
      some (place.firstLine context) := contextStartInWords?_eq _ _
  have firstLe := place.firstLine_le_number context
  have last : min (place.number + context) (source.text.count lineFeed) =
      place.lastLine context := rfl
  have firstLine : addInWords? (place.firstLine context) 1 =
      some (place.firstLine context + 1) := addInWords?_of_lt (by omega)
  have lines : source.linesInWords? (place.firstLine context)
      (place.lastLine context) = some (place.excerpt span.hi context).lines :=
    source.linesInWords?_eq short (by omega) (Nat.min_le_right _ _)
  have caretOffset := subtractInWords?_of_le firstLe
  rw [excerptInWords?]
  simp only [Option.bind_eq_bind, Option.bind_some, lineAtInWords?_eq,
    place.lineAt_eq, lastLine, first, addInWords?_of_lt fits, last, firstLine,
    lines, caretOffset, place.caretInWords?_eq short]
  rfl

/-! ## The underline and the location -/

namespace Place

variable {offset : Nat}

/-- A location names the line and the column of its place. -/
theorem location_eq
    (place : source.Place (min offset source.text.length)) :
    source.location offset = ⟨1 + place.number, 1 + columns place.left⟩ := by
  rw [location_eq_ofSeen, Location.ofSeen, place.number_eq, place.take_eq,
    place.cuts.rtakeWhile_eq]

theorem getElem?_splitOn_number
    (place : source.Place offset) :
    (source.text.splitOn lineFeed)[place.number]? =
      some (place.left ++ place.right) := by
  rw [source.getElem?_splitOn_lineText place.number_le, place.lineText_number]

theorem length_lines
    (place : source.Place offset)
    (stop context : Nat) :
    (place.excerpt stop context).lines.length =
      place.lastLine context + 1 - place.firstLine context := by
  have last : place.lastLine context ≤ source.text.count lineFeed :=
    Nat.min_le_right _ _
  rw [excerpt, List.length_take, List.length_drop, Text.length_splitOn_lineFeed]
  omega

theorem number_le_lastLine
    (place : source.Place offset)
    (context : Nat) :
    place.number ≤ place.lastLine context :=
  Nat.le_min.mpr ⟨Nat.le_add_right _ _, place.number_le⟩

/-- The line of the place is shown, where the excerpt says that it is. -/
theorem getElem?_lines
    (place : source.Place offset)
    (stop context : Nat) :
    (place.excerpt stop context).lines[(place.excerpt stop context).caretOffset]? =
      some (place.left ++ place.right) := by
  have firstLe := place.firstLine_le_number context
  have leLast := place.number_le_lastLine context
  simp only [excerpt]
  rw [List.getElem?_take_of_lt (by omega), List.getElem?_drop,
    Nat.add_sub_cancel' firstLe, place.getElem?_splitOn_number]

/-- What is underlined ends within the line. -/
theorem columns_underlined_le
    (place : source.Place offset)
    (stop : Nat) :
    columns place.left + columns (place.underlined stop) ≤
      columns (place.left ++ place.right) := by
  have right := congrArg columns
    (List.take_append_drop (stop - offset) place.right)
  rw [columns_append] at right
  rw [columns_append, ← right, underlined]
  omega

theorem caretOffset_lt
    (place : source.Place offset)
    (stop context : Nat) :
    (place.excerpt stop context).caretOffset <
      (place.excerpt stop context).lines.length := by
  have firstLe := place.firstLine_le_number context
  have leLast := place.number_le_lastLine context
  rw [place.length_lines]
  simp only [excerpt]
  omega

/-- The underline starts at the location of the place. -/
theorem caret_eq_location
    (place : source.Place (min offset source.text.length))
    (stop context : Nat) :
    (place.excerpt stop context).firstLine +
        (place.excerpt stop context).caretOffset =
      (source.location offset).line ∧
    (place.excerpt stop context).caretColumn + 1 =
      (source.location offset).column := by
  have firstLe := place.firstLine_le_number context
  rw [place.location_eq]
  refine ⟨?_, Nat.add_comm _ 1⟩
  simp only [excerpt]
  omega

/-- The underline is a single mark, or it ends within the line. -/
theorem caretWidth_eq_one_or
    (place : source.Place offset)
    (stop context : Nat) :
    (place.excerpt stop context).caretWidth = 1 ∨
      (place.excerpt stop context).caretColumn +
          (place.excerpt stop context).caretWidth ≤
        columns (place.left ++ place.right) := by
  have within := place.columns_underlined_le stop
  simp only [excerpt]
  omega

/-- The number of the last line of an excerpt is one of the source. -/
theorem lastLine_excerpt_le
    (place : source.Place offset)
    (stop context : Nat) :
    (place.excerpt stop context).lastLine ≤ source.text.count lineFeed + 1 := by
  have firstLe := place.firstLine_le_number context
  have leLast := place.number_le_lastLine context
  have lastLe : place.lastLine context ≤ source.text.count lineFeed :=
    Nat.min_le_right _ _
  rw [Excerpt.lastLine, place.length_lines]
  simp only [excerpt]
  omega

end Place
end Source

/-! ## Rows of a report -/

namespace Excerpt

/-- A line number in the line number column, to the right. -/
def gutter
    (excerpt : Excerpt)
    (number : Text) : Text :=
  Text.fill (excerpt.gutterWidth - number.length) 32 ++ number

/-- A row with its line number, which may be missing. -/
def row
    (excerpt : Excerpt)
    (number content : Text) : Text :=
  "  " ++ excerpt.gutter number ++ " | " ++ content ++ "\n"

/-- The source lines of an excerpt as rows. -/
def numberedRows (excerpt : Excerpt) : List Text :=
  excerpt.lines.zipIdx.map fun (line, offset) =>
    excerpt.row (Text.decimal (excerpt.firstLine + offset)) line

/-- The underline as a row. -/
def caretRow (excerpt : Excerpt) : Text :=
  excerpt.row []
    (Text.fill excerpt.caretColumn 32 ++ Text.fill excerpt.caretWidth 94)

theorem length_gutter
    {excerpt : Excerpt}
    (fits : number.length ≤ excerpt.gutterWidth) :
    (excerpt.gutter number).length = excerpt.gutterWidth := by
  rw [gutter, List.length_append, Text.length_fill]
  omega

/-- The number of the last line is the longest one. -/
theorem length_number_le
    {excerpt : Excerpt}
    (inside : offset < excerpt.lines.length) :
    (Text.decimal (excerpt.firstLine + offset)).length ≤
      excerpt.gutterWidth := by
  apply Text.length_numeral_mono (by omega)
  rw [lastLine]
  omega

theorem numberedLine_eq_row
    (excerpt : Excerpt)
    (offset : Nat)
    (line : Text) :
    excerpt.numberedLine offset line =
      excerpt.row (Text.decimal (excerpt.firstLine + offset)) line := by
  simp only [numberedLine, row, gutter, List.append_assoc]

theorem caretLine_eq_caretRow
    (excerpt : Excerpt) :
    excerpt.caretLine = excerpt.caretRow := by
  have bar : Text.ofString " |" ++ Text.ofString " " = Text.ofString " | " := by
    decide
  simp only [caretLine, blankGutter, caretRow, row, gutter, List.length_nil,
    Nat.sub_zero, List.append_nil, List.append_assoc, ← bar]

/-- A mark behind one of the rows is a row of its own, and all further rows come
behind it. -/
theorem flatMap_zipIdx_eq
    (lines : List Text)
    (shown : Nat -> Text -> Text)
    (mark : Text)
    (start marked : Nat)
    (inside : marked < lines.length) :
    (lines.zipIdx start).flatMap (fun entry => shown entry.2 entry.1 ++
        if entry.2 = start + marked then mark else []) =
      (((lines.zipIdx start).map fun entry =>
        shown entry.2 entry.1).insertIdx (marked + 1) mark).flatten := by
  induction lines generalizing start marked with
  | nil => cases inside
  | cons line rest inductionHypothesis =>
      rw [List.zipIdx_cons, List.flatMap_cons, List.map_cons,
        List.insertIdx_succ_cons, List.flatten_cons]
      cases marked with
      | zero =>
          have unmarked : ∀ entry ∈ rest.zipIdx (start + 1),
              (shown entry.2 entry.1 ++
                if entry.2 = start + 0 then mark else []) =
              shown entry.2 entry.1 := by
            intro entry member
            have behind := List.le_snd_of_mem_zipIdx member
            rw [if_neg (by omega), List.append_nil]
          rw [List.insertIdx_zero, List.flatten_cons, List.flatMap_def,
            List.map_congr_left unmarked, if_pos (Nat.add_zero start).symm,
            List.append_assoc]
      | succ marked =>
          have rows := inductionHypothesis (start + 1) marked
            (Nat.lt_of_succ_lt_succ inside)
          rw [← rows, if_neg (by omega), List.append_nil, Nat.add_assoc,
            Nat.add_comm 1]

/-- The rows of an excerpt: its lines and, behind one of them, the underline. -/
theorem render_eq_rows
    {excerpt : Excerpt}
    (inside : excerpt.caretOffset < excerpt.lines.length) :
    excerpt.render =
      (excerpt.numberedRows.insertIdx (excerpt.caretOffset + 1)
        excerpt.caretRow).flatten := by
  have rows := flatMap_zipIdx_eq excerpt.lines excerpt.numberedLine
    excerpt.caretLine 0 excerpt.caretOffset inside
  simp only [Nat.zero_add, numberedLine_eq_row, caretLine_eq_caretRow] at rows
  simp only [render, numberedLine_eq_row, caretLine_eq_caretRow]
  exact rows

end Excerpt

/-! ## Reports -/

/-- An excerpt can be computed in words without reading outside of the source.  It
shows consecutive lines of the source around the one on which its span starts, and
it underlines the place that the location of the span names, up to the end of the
line at most.  The report of a diagnostic shows every line of the excerpt as a row
with its number, all numbers in a column of the same width, and behind the line of
the span one row with the underline. -/
theorem Diagnostic.report_points_at_location
    (sources : Sources)
    (source : Source)
    (diagnostic : Diagnostic)
    (context : Nat)
    (registered : sources[diagnostic.span.file]? = some source)
    (short : source.text.length < lineNumberModulus - 1)
    (fits : (source.text.take diagnostic.span.lo).count lineFeed + context <
      lineNumberModulus) :
    let span := diagnostic.span
    let excerpt := source.excerpt span context
    let location := source.location span.lo
    let lines := source.text.splitOn lineFeed
    let caret := (source.text.take span.lo).count lineFeed
    let first := caret - context
    let last := min (caret + context) (lines.length - 1)
    source.excerptInWords? span context = some excerpt ∧
    excerpt.firstLine = first + 1 ∧
    excerpt.lines = (lines.drop first).take (last + 1 - first) ∧
    excerpt.caretOffset < excerpt.lines.length ∧
    excerpt.lines[excerpt.caretOffset]? = lines[caret]? ∧
    excerpt.firstLine + excerpt.caretOffset = location.line ∧
    excerpt.caretColumn + 1 = location.column ∧
    1 ≤ excerpt.caretWidth ∧
    (excerpt.caretWidth = 1 ∨ ∃ caretText, lines[caret]? = some caretText ∧
      excerpt.caretColumn + excerpt.caretWidth ≤ columns caretText) ∧
    excerpt.lastLine < lineNumberModulus ∧
    (∀ offset, offset < excerpt.lines.length ->
      let number := Text.decimal (excerpt.firstLine + offset)
      number.length ≤ excerpt.gutterWidth ∧
        (excerpt.gutter number).length = excerpt.gutterWidth) ∧
    (excerpt.gutter []).length = excerpt.gutterWidth ∧
    diagnostic.report sources context =
      diagnostic.headline ++ " --> " ++ source.name ++ ":" ++
        Text.decimal location.line ++ ":" ++ Text.decimal location.column ++
        "\n" ++ excerpt.blankGutter ++ "\n" ++
        (excerpt.numberedRows.insertIdx (excerpt.caretOffset + 1)
          excerpt.caretRow).flatten := by
  intro span excerpt location lines caret first last
  obtain ⟨place⟩ : Nonempty (source.Place (min span.lo source.text.length)) :=
    source.nonempty_place (Nat.min_le_right _ _)
  have isCaret : caret = place.number := by
    rw [← place.number_eq]
    exact congrArg (List.count lineFeed) List.take_eq_take_min
  have fitsPlace : place.number + context < lineNumberModulus := isCaret ▸ fits
  have isExcerpt : excerpt = place.excerpt span.hi context :=
    Source.excerpt_eq place fitsPlace
  have isLast : last = place.lastLine context := by
    simp only [last, isCaret, lines, Text.length_splitOn_lineFeed,
      Nat.add_sub_cancel, Source.Place.lastLine]
  have isFirst : first = place.firstLine context := by
    simp only [first, isCaret, Source.Place.firstLine]
  have inside : excerpt.caretOffset < excerpt.lines.length :=
    isExcerpt ▸ place.caretOffset_lt span.hi context
  have inLines : lines[caret]? = some (place.left ++ place.right) := by
    rw [isCaret, place.getElem?_splitOn_number]
  obtain ⟨isLine, isColumn⟩ := place.caret_eq_location span.hi context
  rw [← isExcerpt] at isLine isColumn
  refine ⟨?words, ?firstLine, ?lines, inside, ?caretText, isLine, isColumn, ?width,
    ?underline, ?lastLine, ?numbers, Excerpt.length_gutter (Nat.zero_le _),
    ?report⟩
  case words =>
    rw [isExcerpt]
    exact Source.excerptInWords?_eq place short fitsPlace
  case firstLine =>
    rw [isExcerpt, isFirst]
    rfl
  case lines =>
    rw [isExcerpt, isFirst, isLast]
    rfl
  case caretText => rw [inLines, isExcerpt, place.getElem?_lines]
  case width =>
    rw [isExcerpt]
    exact Nat.le_max_right _ 1
  case underline =>
    rw [isExcerpt]
    rcases place.caretWidth_eq_one_or span.hi context with single | within
    · exact .inl single
    · exact .inr ⟨_, inLines, within⟩
  case lastLine =>
    have lineFeeds : source.text.count lineFeed ≤ source.text.length :=
      List.count_le_length
    have lastLe := place.lastLine_excerpt_le span.hi context
    rw [isExcerpt]
    omega
  case numbers =>
    intro offset shown number
    have fitsGutter : number.length ≤ excerpt.gutterWidth :=
      Excerpt.length_number_le shown
    exact ⟨fitsGutter, Excerpt.length_gutter fitsGutter⟩
  case report =>
    rw [Diagnostic.report, registered, ← Excerpt.render_eq_rows inside]
    simp only [Diagnostic.pointer, List.append_assoc]
    rfl

/-- A span that starts at the `y` of the second line and ends behind the text is
underlined up to the end of the line. -/
theorem Diagnostic.report_points_at_location_unbound :
    let source : Source := ⟨"t.lc", "(λx.\n  (x y))\n"⟩
    let diagnostic : Diagnostic :=
      ⟨.error, .unboundVariable, ⟨0, 11, 100⟩, ["y"]⟩
    [source][diagnostic.span.file]? = some source ∧
    source.text.length < lineNumberModulus - 1 ∧
    (source.text.take diagnostic.span.lo).count lineFeed + 1 <
      lineNumberModulus ∧
    source.excerptInWords? diagnostic.span 1 =
      some ⟨1, ["(λx.", "  (x y))", []], 1, 5, 3⟩ ∧
    (source.location 11).line = 2 ∧ (source.location 11).column = 6 ∧
    diagnostic.report [source] 1 = diagnostic.headline ++
      " --> t.lc:2:6\n    |\n" ++ "  1 | (λx.\n" ++ "  2 |   (x y))\n" ++
        "    |      ^^^\n" ++ "  3 | \n" := by
  intro source diagnostic
  have registered : [source][diagnostic.span.file]? = some source := rfl
  have short : source.text.length < lineNumberModulus - 1 := by decide
  have fits : (source.text.take diagnostic.span.lo).count lineFeed + 1 <
      lineNumberModulus := by decide
  obtain ⟨words, _, _, _, _, line, column, _, _, _, _, _, report⟩ :=
    Diagnostic.report_points_at_location [source] source diagnostic 1 registered
      short fits
  have isExcerpt : source.excerpt diagnostic.span 1 =
      ⟨1, ["(λx.", "  (x y))", []], 1, 5, 3⟩ := by decide +kernel
  rw [isExcerpt] at words line column report
  exact ⟨registered, short, fits, words, line.symm, column.symm,
    report.trans (by decide +kernel)⟩

end LambdaCalculus
